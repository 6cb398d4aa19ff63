import Aetelier.Outlet
import Aetelier.SourceRuntime

/-!
# The drive loop of an adapter

One connection of an adapter is driven by one task. The transport decodes the
socket into a bounded raw buffer; the loop takes an event out of it,
normalizes it to domain events and sends these, one by one, over a bounded
channel. The sends are made inside the arm that took the event, so while one
waits for room the loop sees nothing else. When it sees shutdown it lets the
transport close, sends what the buffer still holds, for a bounded time, and
exits; when the other end of the channel is gone it exits at the send that
fails.

The loop is a function of its own steps and of what it finds: whether
shutdown is signalled, and whether the receiver is gone. Left out are the
stamps on the events and the clocks behind the two timeouts, which may fire at
any time.
-/

/-- How a task of an adapter ends. -/
inductive TaskExit where
  /-- A natural end, or a stop that was drained. -/
  | completed
  /-- A stop whose drain took too long. -/
  | drainTimedOut
  /-- A failure. -/
  | failed (reason : String)
  /-- A finite source has delivered everything. -/
  | exhausted
deriving DecidableEq, Repr

/-- Depth of the raw buffer. -/
def defaultRawBuffer : ℕ := 4096

/-- Where the loop is. -/
inductive DriverPhase where
  /-- In its select, or in the sends of the arm that took an event. -/
  | reading
  /-- Waiting for the transport to close. -/
  | closing
  /-- Sending what the buffer holds. -/
  | draining
  | exited (exit : TaskExit)
deriving DecidableEq, Repr

variable {E : Type}

/-- **The drive loop and its transport.** -/
structure Driver (E : Type) where
  /-- The raw buffer. -/
  raw : List E
  /-- How the transport ended, once it has. -/
  transport : Option TaskExit
  /-- Where the loop is. -/
  phase : DriverPhase
  /-- The sending end of its channel. -/
  out : Outlet DomainEvent

/-- A step of the loop or its transport. -/
inductive DriverStep (E : Type) where
  /-- The transport decodes an event. -/
  | decode (ev : E)
  /-- The transport ends. -/
  | transportEnd (exit : TaskExit)
  /-- The loop takes an event out of the buffer. -/
  | take
  /-- It sends a domain event. -/
  | send
  /-- It sees shutdown. -/
  | seeShutdown
  /-- The wait for the transport is over. -/
  | handshakeOver
  /-- The drain has taken too long. -/
  | drainTimeout

/-- What does not change while a loop runs. -/
structure DriverConfig (E : Type) where
  /-- The venue's normalizer. -/
  normalize : E → List DomainEvent
  /-- Depth of the raw buffer. -/
  buffer : ℕ
  /-- Room in the channel. -/
  capacity : ℕ

namespace Driver

variable (cfg : DriverConfig E)

/-- A connection that is being made. -/
def start : Driver E := ⟨[], none, .reading, .empty⟩

/-- The loop has returned. -/
def isOver (d : Driver E) : Bool :=
  match d.phase with
  | .exited _ => true
  | _ => false

/-- The loop returns: it drops its ends of both channels and what it holds. -/
def exit (d : Driver E) (e : TaskExit) : Driver E :=
  { d with phase := .exited e, out := { d.out with hand := [] } }

/-- Take an event up: normalize it and hold what is to be sent. -/
def takeUp (d : Driver E) (ev : E) (rest : List E) : Driver E :=
  { d with raw := rest, out := d.out.load (cfg.normalize ev) }

/-- **One step.** A step that is not possible does nothing. -/
def step (signalled dropped : Bool) (d : Driver E) : DriverStep E → Driver E
  | .decode ev =>
    if d.isOver = false ∧ d.transport = none ∧ d.raw.length < cfg.buffer then
      { d with raw := d.raw ++ [ev] }
    else d
  | .transportEnd e => if d.transport = none then { d with transport := some e } else d
  | .take =>
    if d.out.hand = [] then
      match d.phase, d.raw, d.transport with
      | .reading, ev :: rest, _ => d.takeUp cfg ev rest
      | .reading, [], some e => d.exit (if signalled then .completed else e)
      | .draining, ev :: rest, _ => d.takeUp cfg ev rest
      | .draining, [], _ => d.exit .completed
      | _, _, _ => d
    else d
  | .send =>
    if d.isOver = false ∧ d.out.hand ≠ [] then
      if dropped then d.exit .completed else { d with out := d.out.push cfg.capacity }
    else d
  | .seeShutdown =>
    if signalled ∧ d.phase = .reading ∧ d.out.hand = [] then { d with phase := .closing } else d
  | .handshakeOver =>
    if signalled ∧ d.phase = .closing then
      { d with phase := .draining, transport := d.transport.or (some .completed) }
    else d
  | .drainTimeout =>
    if signalled ∧ d.phase = .draining then d.exit .drainTimedOut else d

/-! ## What is on its way -/

/-- **The domain events on their way to the receiver**, oldest first. -/
def pending (d : Driver E) : List DomainEvent := d.out.content ++ d.raw.flatMap cfg.normalize

/-- The decoded event the buffer takes in a step. -/
def accepted (d : Driver E) : DriverStep E → List E
  | .decode ev =>
    if d.isOver = false ∧ d.transport = none ∧ d.raw.length < cfg.buffer then [ev] else []
  | _ => []

variable {cfg}

theorem pending_takeUp {d : Driver E} {ev : E} {rest : List E} (h : d.raw = ev :: rest)  :
    (d.takeUp cfg ev rest).pending cfg = d.pending cfg := by
  unfold pending takeUp
  rw [Outlet.content_load, h, List.append_assoc]
  rfl

theorem pending_exit {d : Driver E} (h : d.out.hand = []) (e : TaskExit) :
    (d.exit e).pending cfg = d.pending cfg := by
  unfold pending exit Outlet.content
  rw [h]

theorem pending_decode (d : Driver E) (signalled dropped : Bool) (ev : E) :
    (d.step cfg signalled dropped (.decode ev)).pending cfg
      = d.pending cfg ++ (d.accepted cfg (.decode ev)).flatMap cfg.normalize := by
  unfold step accepted
  dsimp only
  split
  · unfold pending
    rw [List.flatMap_append, List.append_assoc]
  · exact (List.append_nil _).symm

/-- The loop takes events in order. -/
theorem pending_take (d : Driver E) (signalled dropped : Bool) :
    (d.step cfg signalled dropped .take).pending cfg = d.pending cfg := by
  unfold step
  dsimp only
  split
  · next hhand =>
    split
    · next hraw => exact pending_takeUp hraw
    · exact pending_exit hhand _
    · next hraw => exact pending_takeUp hraw
    · exact pending_exit hhand _
    · rfl
  · rfl

/-- **Nothing is lost on the way while nobody has seen shutdown and the
receiver is there.** -/
theorem pending_step (d : Driver E) (i : DriverStep E) :
    (d.step cfg false false i).pending cfg
      = d.pending cfg ++ (d.accepted cfg i).flatMap cfg.normalize := by
  have hsame : ∀ {d' : Driver E}, d'.pending cfg = d.pending cfg →
      d'.pending cfg = d.pending cfg ++ ([] : List E).flatMap cfg.normalize :=
    fun h => h.trans (List.append_nil _).symm
  cases i with
  | decode ev => exact pending_decode d false false ev
  | take => exact hsame (pending_take d false false)
  | send =>
    refine hsame ?_
    unfold step
    dsimp only
    split
    · unfold pending
      rw [if_neg Bool.false_ne_true, Outlet.content_push]
    · rfl
  | transportEnd e =>
    refine hsame ?_
    unfold step
    dsimp only
    split <;> rfl
  | _ =>
    refine hsame ?_
    unfold step
    dsimp only
    rw [if_neg (fun h => Bool.false_ne_true h.1)]

/-- Where nothing is on its way, only what is decoded can be. -/
theorem pending_step_of_nil {d : Driver E} (h : d.pending cfg = []) (signalled dropped : Bool)
    (i : DriverStep E) :
    (d.step cfg signalled dropped i).pending cfg = (d.accepted cfg i).flatMap cfg.normalize := by
  have hhand : d.out.hand = [] := by
    unfold pending Outlet.content at h
    exact (List.append_eq_nil_iff.mp (List.append_eq_nil_iff.mp h).1).2
  cases i with
  | decode ev => rw [pending_decode, h, List.nil_append]
  | take => exact (pending_take d signalled dropped).trans h
  | send =>
    unfold step
    dsimp only
    rw [if_neg (fun hsend => hsend.2 hhand)]
    exact h
  | transportEnd e =>
    unfold step
    dsimp only
    split <;> exact h
  | seeShutdown =>
    unfold step
    dsimp only
    split <;> exact h
  | handshakeOver =>
    unfold step
    dsimp only
    split <;> exact h
  | drainTimeout =>
    unfold step
    dsimp only
    split
    · exact (pending_exit hhand _).trans h
    · exact h

/-! ## What is held -/

/-- The event the loop can take up. -/
def next? (d : Driver E) : Option E :=
  if d.out.hand = [] ∧ (d.phase = .reading ∨ d.phase = .draining) then d.raw.head? else none

/-- A loop that has returned does nothing more. -/
theorem isOver_step {d : Driver E} (h : d.isOver = true) (signalled dropped : Bool)
    (i : DriverStep E) : (d.step cfg signalled dropped i).isOver = true := by
  obtain ⟨e, hphase⟩ : ∃ e, d.phase = .exited e := by
    unfold isOver at h
    split at h
    · next e hphase => exact ⟨e, hphase⟩
    · exact Bool.noConfusion h
  cases i with
  | take =>
    unfold step
    dsimp only
    rw [hphase]
    split <;> exact h
  | send =>
    unfold step
    dsimp only
    rw [if_neg (fun hsend => Bool.noConfusion (h.symm.trans hsend.1))]
    exact h
  | seeShutdown =>
    unfold step
    dsimp only
    rw [hphase, if_neg (fun hsee => DriverPhase.noConfusion hsee.2.1)]
    exact h
  | handshakeOver =>
    unfold step
    dsimp only
    rw [hphase, if_neg (fun hsee => DriverPhase.noConfusion hsee.2)]
    exact h
  | drainTimeout =>
    unfold step
    dsimp only
    rw [hphase, if_neg (fun hsee => DriverPhase.noConfusion hsee.2)]
    exact h
  | _ =>
    unfold step
    dsimp only
    split <;> exact h

/-- **What the loop holds goes on fitting** while it runs and nobody reads, if
what it takes up fits. -/
theorem fits_step {d : Driver E} {signalled : Bool} {i : DriverStep E}
    (hover : (d.step cfg signalled false i).isOver = false) (hfits : d.out.Fits cfg.capacity)
    (htake : i = .take → ∀ ev ∈ d.next?, (d.out.load (cfg.normalize ev)).Fits cfg.capacity) :
    (d.step cfg signalled false i).out.Fits cfg.capacity := by
  cases i with
  | take =>
    unfold step at hover ⊢
    dsimp only at hover ⊢
    split
    · next hhand =>
      rw [if_pos hhand] at hover
      split
      · next ev rest hphase hraw =>
        refine htake rfl ev ?_
        unfold next?
        rw [if_pos ⟨hhand, Or.inl hphase⟩, hraw]
        rfl
      · next e hphase hraw htrans =>
        -- an ended transport with nothing buffered ends the loop
        rw [hphase, hraw, htrans] at hover
        exact Bool.noConfusion hover
      · next ev rest hphase hraw =>
        refine htake rfl ev ?_
        unfold next?
        rw [if_pos ⟨hhand, Or.inr hphase⟩, hraw]
        rfl
      · next hphase hraw =>
        rw [hphase, hraw] at hover
        exact Bool.noConfusion hover
      · exact hfits
    · exact hfits
  | send =>
    unfold step
    dsimp only
    split
    · exact Outlet.fits_push hfits
    · exact hfits
  | drainTimeout =>
    unfold step at hover ⊢
    dsimp only at hover ⊢
    split
    · next hdrain =>
      rw [if_pos hdrain] at hover
      exact Bool.noConfusion hover
    · exact hfits
  | _ =>
    unfold step
    dsimp only
    split <;> exact hfits

end Driver
