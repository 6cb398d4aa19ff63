import Aetelier.ResyncStorm
import Aetelier.WssTransport

/-!
# A connection from its socket to its channel

The transport and the drive loop of a connection are two tasks with a bounded buffer
between them; a reader takes what the second sends over a bounded channel. The first
opens the socket and runs the loop on it. A send into a buffer without room waits, and so
does a send into a channel without room, so that nothing is thrown away on the way.

What is lost is lost at the end: a drain that takes too long drops what it still
holds, a drive loop drops it that finds its reader gone, and a transport that is stopped
while its send waits drops the one event of that send. In all other runs, whichever task
is ahead of the other, what the reader has taken and what is on its way are together what
the frames hold, in order (`Ingest.conserved_run`). A drive loop that fails says why
(`Ingest.failed_run`): its socket could not be opened, the loop on it ended so, or the
task panicked.
-/

/-- How a task ends that returns nothing. -/
inductive JoinError where
  | panicked
  | cancelled
deriving DecidableEq, Repr

/-- What the drive loop makes of the end of its transport. -/
def TaskExit.ofJoined : Except JoinError WssExitReason → TaskExit
  | .ok reason => (exitToTask (.ofExit reason)).toTaskExit
  | .error _ => .failed (DisconnectReason.transportError "transport task panicked").display

variable {E : Type}

/-- **The two tasks of a connection.** -/
structure Ingest (E : Type) where
  /-- The loop on the socket, once it is open. -/
  socket : Option (WssTransport E)
  /-- How the task of the transport has ended, once it has. -/
  joined : Option (Except JoinError WssExitReason)
  driver : Driver E

/-- What a connection does next. -/
inductive IngestMove where
  /-- The transport opens its socket. -/
  | dial (d : WssTransport.Dialling)
  /-- A turn of the loop on the socket. -/
  | socket (i : SocketInput)
  /-- The task of the transport panics. -/
  | panic
  /-- The task of the transport is stopped after the drive loop has returned. -/
  | abort
  /-- The drive loop takes an event out of the buffer. -/
  | take
  /-- It sends a domain event. -/
  | send
  | seeShutdown
  | handshakeOver
  | drainTimeout
  /-- The reader takes a domain event out of the channel. -/
  | receive

/-- A move, and what it finds. -/
structure IngestInput where
  /-- Shutdown is signalled. -/
  signalled : Bool
  /-- The reader of the channel is gone. -/
  dropped : Bool
  move : IngestMove

namespace Driver

variable {cfg : DriverConfig E}

theorem isOver_congr {d d' : Driver E} (h : d.phase = d'.phase) : d.isOver = d'.isOver := by
  unfold isOver
  rw [h]

/-- A drive loop that has returned sends nothing any more. -/
theorem step_of_isOver {d : Driver E} (h : d.isOver = true) (signalled dropped : Bool)
    (m : DriverStep E) : (d.step cfg signalled dropped m).out = d.out ∧
      (d.step cfg signalled dropped m).phase = d.phase := by
  obtain ⟨e, hphase⟩ : ∃ e, d.phase = .exited e := by
    unfold isOver at h
    split at h
    · next e hphase => exact ⟨e, hphase⟩
    · exact Bool.noConfusion h
  unfold step
  cases m with
  | take =>
    dsimp only
    rw [hphase]
    split <;> exact ⟨rfl, hphase⟩
  | send =>
    dsimp only
    rw [if_neg (fun hsend => Bool.noConfusion (h.symm.trans hsend.1))]
    exact ⟨rfl, rfl⟩
  | seeShutdown =>
    dsimp only
    rw [hphase, if_neg (fun hsee => DriverPhase.noConfusion hsee.2.1)]
    exact ⟨rfl, hphase⟩
  | handshakeOver =>
    dsimp only
    rw [hphase, if_neg (fun hsee => DriverPhase.noConfusion hsee.2)]
    exact ⟨rfl, hphase⟩
  | drainTimeout =>
    dsimp only
    rw [hphase, if_neg (fun hsee => DriverPhase.noConfusion hsee.2)]
    exact ⟨rfl, hphase⟩
  | _ =>
    dsimp only
    split <;> exact ⟨rfl, rfl⟩

/-- What is lost in a move is lost for good: the loop returns, its reader gone or its
drain out of time. -/
def Loses (dropped : Bool) (d d' : Driver E) : Prop :=
  d.isOver = false ∧ d'.isOver = true ∧ d'.out.queue = d.out.queue ∧
    (dropped = true ∨ d'.phase = .exited .drainTimedOut)

variable (cfg) in
/-- **A move of the loop loses nothing on its way**, or is its last. -/
theorem pending_step_or_loses (d : Driver E) (signalled dropped : Bool) {m : DriverStep E}
    (hm : ∀ ev, m ≠ .decode ev) :
    (d.step cfg signalled dropped m).pending cfg = d.pending cfg
      ∨ Loses dropped d (d.step cfg signalled dropped m) := by
  cases m with
  | decode ev => exact absurd rfl (hm ev)
  | take => exact .inl (pending_take d signalled dropped)
  | send =>
    unfold step
    dsimp only
    split
    · next hsend =>
      split
      · next hdropped => exact .inr ⟨hsend.1, rfl, rfl, .inl hdropped⟩
      · refine .inl ?_
        unfold pending
        rw [Outlet.content_push]
    · exact .inl rfl
  | drainTimeout =>
    unfold step
    dsimp only
    split
    · next hdrain =>
      refine .inr ⟨?_, rfl, rfl, .inr rfl⟩
      unfold isOver
      rw [hdrain.2]
    · exact .inl rfl
  | _ =>
    unfold step
    dsimp only
    refine .inl ?_
    split <;> rfl

end Driver

namespace Ingest

variable (v : VenueProtocol E) (cfg : DriverConfig E)

/-- A connection that is to be made. -/
def start : Ingest E := ⟨none, none, .start⟩

/-- The turn is possible: a send is done when the buffer has room, and fails when the drive
loop has returned. -/
def canTurn (d : Driver E) : SocketInput → Bool
  | .accepted => !d.isOver && decide (d.raw.length < cfg.buffer)
  | .refused => d.isOver
  | _ => true

/-- The task of the transport ends. -/
def joinTask (signalled dropped : Bool) (c : Ingest E) (result : Except JoinError WssExitReason) :
    Ingest E :=
  { c with
    joined := some result
    driver := c.driver.step cfg signalled dropped (.transportEnd (TaskExit.ofJoined result)) }

/-- The transport opens its socket, or ends. -/
def onDial (signalled dropped : Bool) (c : Ingest E) (d : WssTransport.Dialling) : Ingest E :=
  match WssTransport.dial v d with
  | .ok s => { c with socket := some s }
  | .error e => c.joinTask cfg signalled dropped (.ok e)

/-- A turn of the loop on the socket: what it sends goes into the buffer, and its end is the
end of the task. -/
def onTurn (signalled dropped : Bool) (c : Ingest E) (s : WssTransport E) (turn : SocketInput) :
    Ingest E :=
  let sent := (s.step v turn).2.filterMap SocketEffect.forwarded?
  let c := { c with
    socket := some (s.step v turn).1
    driver := sent.foldl (fun d f => d.step cfg signalled dropped (.decode f.1)) c.driver }
  match (s.step v turn).1.exit with
  | none => c
  | some e => c.joinTask cfg signalled dropped (.ok e)

/-- **One move of a connection**; one that is not possible does nothing. -/
def step (c : Ingest E) (i : IngestInput) : Ingest E × List DomainEvent :=
  let drive := fun m => ({ c with driver := c.driver.step cfg i.signalled i.dropped m }, [])
  match i.move with
  | .dial d =>
    if c.joined.isNone && c.socket.isNone then (c.onDial v cfg i.signalled i.dropped d, [])
    else (c, [])
  | .socket turn =>
    match c.joined, c.socket with
    | none, some s =>
      if canTurn cfg c.driver turn then (c.onTurn v cfg i.signalled i.dropped s turn, [])
      else (c, [])
    | _, _ => (c, [])
  | .panic =>
    if c.joined.isNone then (c.joinTask cfg i.signalled i.dropped (.error .panicked), [])
    else (c, [])
  | .abort =>
    if c.joined.isNone && c.driver.isOver then
      ({ c with joined := some (.error .cancelled) }, [])
    else (c, [])
  | .take => drive .take
  | .send => drive .send
  | .seeShutdown => drive .seeShutdown
  | .handshakeOver =>
    -- a transport that has not ended by now is stopped
    let driver := c.driver.step cfg i.signalled i.dropped .handshakeOver
    ({ c with
      driver := driver
      joined := if driver.transport.isSome then c.joined.or (some (.error .cancelled))
        else c.joined }, [])
  | .drainTimeout => drive .drainTimeout
  | .receive =>
    ({ c with driver := { c.driver with out := c.driver.out.pop } }, c.driver.out.queue.take 1)

/-- The connection as a machine that writes what its reader takes. -/
def machine : Machine (Ingest E) IngestInput DomainEvent := ⟨step v cfg⟩

/-- The turn of the loop on the socket a move makes. -/
def turned (c : Ingest E) (i : IngestInput) : Option (WssTransport E × SocketInput) :=
  match i.move with
  | .socket turn =>
    match c.joined, c.socket with
    | none, some s => if canTurn cfg c.driver turn then some (s, turn) else none
    | _, _ => none
  | _ => none

/-- The message a move reads. -/
def taken (c : Ingest E) (i : IngestInput) : Option (WsMessage × ReadEnv) :=
  (turned cfg c i).bind (fun t => t.1.taken t.2)

/-- The messages a run reads. -/
def readBy (c : Ingest E) (is : List IngestInput) : List (WsMessage × ReadEnv) :=
  (machine v cfg).collect (taken cfg) c is

/-- The turns of the loop on the socket in a run. -/
def turns (c : Ingest E) (is : List IngestInput) : List SocketInput :=
  (machine v cfg).collect (fun c i => (turned cfg c i).map Prod.snd) c is

/-- What events hold, normalized. -/
def normalized (sent : List (E × ℕ)) : List DomainEvent :=
  sent.flatMap (fun f => cfg.normalize f.1)

/-- What messages hold, normalized. -/
def contents (read : List (WsMessage × ReadEnv)) : List DomainEvent :=
  normalized cfg (read.filterMap v.delivered)

/-- The event the transport is sending. -/
def held (c : Ingest E) : List (E × ℕ) := (c.socket.bind WssTransport.sending).toList

/-- **What is on its way**: in the channel and the buffers, and in the hands of the
transport. -/
def transit (c : Ingest E) : List DomainEvent := c.driver.pending cfg ++ normalized cfg c.held

variable {v cfg}

/-! ## A turn of the loop on the socket -/

/-- **A move on the socket** is a turn of the loop that is possible, or nothing. -/
theorem socket_cases (v : VenueProtocol E) (cfg : DriverConfig E) (c : Ingest E)
    (signalled dropped : Bool) (turn : SocketInput) :
    (turned cfg c ⟨signalled, dropped, .socket turn⟩ = none ∧
        c.step v cfg ⟨signalled, dropped, .socket turn⟩ = (c, [])) ∨
      ∃ s, c.joined = none ∧ c.socket = some s ∧ canTurn cfg c.driver turn = true ∧
        turned cfg c ⟨signalled, dropped, .socket turn⟩ = some (s, turn) ∧
        c.step v cfg ⟨signalled, dropped, .socket turn⟩
          = (c.onTurn v cfg signalled dropped s turn, []) := by
  unfold turned step
  dsimp only
  cases hjoined : c.joined with
  | some r => exact .inl ⟨rfl, rfl⟩
  | none =>
    cases hsocket : c.socket with
    | none => exact .inl ⟨rfl, rfl⟩
    | some s =>
      by_cases hturn : canTurn cfg c.driver turn = true
      · exact .inr ⟨s, rfl, rfl, hturn, if_pos hturn, if_pos hturn⟩
      · exact .inl ⟨if_neg hturn, if_neg hturn⟩

/-- The end of the transport moves nothing. -/
theorem transportEnd_fixed (cfg : DriverConfig E) (signalled dropped : Bool) (d : Driver E)
    (t : TaskExit) :
    (d.step cfg signalled dropped (.transportEnd t)).out = d.out ∧
      (d.step cfg signalled dropped (.transportEnd t)).raw = d.raw ∧
      (d.step cfg signalled dropped (.transportEnd t)).phase = d.phase := by
  unfold Driver.step
  dsimp only
  split <;> exact ⟨rfl, rfl, rfl⟩

/-- The buffer takes what a possible turn sends. -/
theorem decoded_of_canTurn {d : Driver E} {turn : SocketInput} (h : canTurn cfg d turn = true)
    (hopen : d.transport = none) (s : WssTransport E) (signalled dropped : Bool) :
    ((s.step v turn).2.filterMap SocketEffect.forwarded?).foldl
        (fun d f => d.step cfg signalled dropped (.decode f.1)) d
      = { d with raw := d.raw
          ++ ((s.step v turn).2.filterMap SocketEffect.forwarded?).map Prod.fst } := by
  rcases WssTransport.forwarded_cases (v := v) s turn with hnone | ⟨f, rfl, hone⟩
  · rw [hnone, List.map_nil, List.append_nil]
    rfl
  · unfold canTurn at h
    rw [Bool.and_eq_true, Bool.not_eq_true', decide_eq_true_iff] at h
    rw [hone]
    exact if_pos ⟨h.1, hopen, h.2⟩

theorem normalized_append (sent more : List (E × ℕ)) :
    normalized cfg (sent ++ more) = normalized cfg sent ++ normalized cfg more :=
  List.flatMap_append

theorem contents_append (read more : List (WsMessage × ReadEnv)) :
    contents v cfg (read ++ more) = contents v cfg read ++ contents v cfg more := by
  unfold contents
  rw [List.filterMap_append, normalized_append]

/-- The end of the task moves nothing. -/
theorem joinTask_fixed (cfg : DriverConfig E) (signalled dropped : Bool) (c : Ingest E)
    (result : Except JoinError WssExitReason) :
    (c.joinTask cfg signalled dropped result).transit cfg = c.transit cfg ∧
      (c.joinTask cfg signalled dropped result).driver.out = c.driver.out ∧
      (c.joinTask cfg signalled dropped result).driver.phase = c.driver.phase ∧
      (c.joinTask cfg signalled dropped result).socket = c.socket := by
  obtain ⟨hout, hraw, hphase⟩ :=
    transportEnd_fixed cfg signalled dropped c.driver (TaskExit.ofJoined result)
  refine ⟨?_, hout, hphase, rfl⟩
  unfold transit joinTask Driver.pending
  dsimp only
  rw [hout, hraw]
  rfl

/-- **A turn on the socket puts what it reads on its way.** -/
theorem transit_onTurn {c : Ingest E} {s : WssTransport E} {turn : SocketInput}
    (h : canTurn cfg c.driver turn = true) (hopen : c.driver.transport = none)
    (hsocket : c.socket = some s) (signalled dropped : Bool) :
    (c.onTurn v cfg signalled dropped s turn).transit cfg
        = c.transit cfg ++ contents v cfg (s.taken turn).toList
      ∧ (c.onTurn v cfg signalled dropped s turn).driver.out = c.driver.out
      ∧ (c.onTurn v cfg signalled dropped s turn).driver.phase = c.driver.phase
      ∧ (c.onTurn v cfg signalled dropped s turn).socket = some (s.step v turn).1 := by
  have hforward := WssTransport.forwarded_step (v := v) s turn
  unfold onTurn
  dsimp only
  rw [decoded_of_canTurn h hopen]
  generalize (s.step v turn).2.filterMap SocketEffect.forwarded? = sent at hforward
  have hmoved : ({ socket := some (s.step v turn).1, joined := c.joined, driver :=
        { c.driver with raw := c.driver.raw ++ sent.map Prod.fst } } : Ingest E).transit cfg
      = c.transit cfg ++ contents v cfg (s.taken turn).toList := by
    have hheld : c.held = s.sending.toList := by
      unfold held
      rw [hsocket]
      rfl
    have hsent : (sent.map Prod.fst).flatMap cfg.normalize = normalized cfg sent :=
      List.flatMap_map ..
    unfold transit Driver.pending contents
    show _ ++ normalized cfg (s.step v turn).1.sending.toList = _
    rw [List.flatMap_append, hsent, List.append_assoc, List.append_assoc, ← normalized_append,
      hforward, normalized_append, hheld, List.append_assoc, List.append_assoc]
  cases (s.step v turn).1.exit with
  | none => exact ⟨hmoved, rfl, rfl, rfl⟩
  | some e =>
    obtain ⟨htransit, hout, hphase, hsame⟩ := joinTask_fixed cfg signalled dropped
      { socket := some (s.step v turn).1, joined := c.joined, driver :=
        { c.driver with raw := c.driver.raw ++ sent.map Prod.fst } } (.ok e)
    exact ⟨htransit.trans hmoved, hout, hphase, hsame⟩

/-! ## The end of the transport -/

/-- What the transport ends with is what its task returns, or a stop; and only what the
transport fails with makes the drive loop fail. -/
structure Told (c : Ingest E) : Prop where
  unended : c.joined = none → c.driver.transport = none
  transport : ∀ t, c.driver.transport = some t → t = .completed ∨
    ∃ r, c.joined = some r ∧ r ≠ .error .cancelled ∧ TaskExit.ofJoined r = t
  failed : ∀ text, c.driver.phase = .exited (.failed text) →
    c.driver.transport = some (.failed text)

theorem Told.congr {c c' : Ingest E} (h : Told c) (hjoined : c'.joined = c.joined)
    (htransport : c'.driver.transport = c.driver.transport)
    (hphase : c'.driver.phase = c.driver.phase) : Told c' := by
  refine ⟨?_, ?_, ?_⟩
  · rw [hjoined, htransport]
    exact h.unended
  · rw [hjoined, htransport]
    exact h.transport
  · rw [htransport, hphase]
    exact h.failed

/-- The task of a transport ends as it says. -/
theorem Told.join {c : Ingest E} (h : Told c) (hjoined : c.joined = none)
    {r : Except JoinError WssExitReason} (hr : r ≠ .error .cancelled) (signalled dropped : Bool) :
    Told (c.joinTask cfg signalled dropped r) := by
  have hopen := h.unended hjoined
  have hstep : c.driver.step cfg signalled dropped (.transportEnd (TaskExit.ofJoined r))
      = { c.driver with transport := some (TaskExit.ofJoined r) } := if_pos hopen
  unfold joinTask
  rw [hstep]
  refine ⟨fun hnone => (by cases hnone), fun t ht => .inr ⟨r, rfl, hr, Option.some.inj ht⟩,
    fun text htext => ?_⟩
  -- a drive loop that has failed has an ended transport
  rw [h.failed text htext] at hopen
  cases hopen

variable (cfg) in
/-- A move of the drive loop of its own leaves the transport; and it fails with what the
transport fails with. -/
theorem told_drive {d : Driver E} (signalled dropped : Bool) {m : DriverStep E}
    (hend : ∀ e, m ≠ .transportEnd e) (hstop : m ≠ .handshakeOver) :
    (d.step cfg signalled dropped m).transport = d.transport
      ∧ ∀ text, (d.step cfg signalled dropped m).phase = .exited (.failed text) →
        d.phase = .exited (.failed text) ∨ d.transport = some (.failed text) := by
  unfold Driver.step
  cases m with
  | transportEnd e => exact absurd rfl (hend e)
  | handshakeOver => exact absurd rfl hstop
  | take =>
    dsimp only
    split
    · split
      · next hphase _ =>
        exact ⟨rfl, fun text htext => .inl htext⟩
      · next e hphase _ htransport =>
        refine ⟨rfl, fun text htext => .inr ?_⟩
        have hexit : (if signalled then TaskExit.completed else e) = .failed text :=
          DriverPhase.exited.inj htext
        rw [htransport]
        cases signalled with
        | true => exact TaskExit.noConfusion hexit
        | false => exact congrArg some hexit
      · exact ⟨rfl, fun text htext => .inl htext⟩
      · exact ⟨rfl, fun text htext => TaskExit.noConfusion (DriverPhase.exited.inj htext)⟩
      · exact ⟨rfl, fun text htext => .inl htext⟩
    · exact ⟨rfl, fun text htext => .inl htext⟩
  | send =>
    dsimp only
    split
    · split
      · exact ⟨rfl, fun text htext => TaskExit.noConfusion (DriverPhase.exited.inj htext)⟩
      · exact ⟨rfl, fun text htext => .inl htext⟩
    · exact ⟨rfl, fun text htext => .inl htext⟩
  | drainTimeout =>
    dsimp only
    split
    · exact ⟨rfl, fun text htext => TaskExit.noConfusion (DriverPhase.exited.inj htext)⟩
    · exact ⟨rfl, fun text htext => .inl htext⟩
  | seeShutdown =>
    dsimp only
    split
    · exact ⟨rfl, fun text htext => DriverPhase.noConfusion htext⟩
    · exact ⟨rfl, fun text htext => .inl htext⟩
  | decode ev =>
    dsimp only
    split <;> exact ⟨rfl, fun text htext => .inl htext⟩

theorem Told.drive {c : Ingest E} (h : Told c) (signalled dropped : Bool) {m : DriverStep E}
    (hend : ∀ e, m ≠ .transportEnd e) (hstop : m ≠ .handshakeOver) :
    Told { c with driver := c.driver.step cfg signalled dropped m } := by
  obtain ⟨hsame, hfailed⟩ := told_drive cfg (d := c.driver) signalled dropped hend hstop
  refine ⟨fun hnone => hsame.trans (h.unended hnone),
    fun t ht => h.transport t (hsame.symm.trans ht), fun text htext => hsame.trans ?_⟩
  exact (hfailed text htext).elim (h.failed text) id

/-- A transport that has not ended at the end of the wait is stopped. -/
theorem Told.handshakeOver {c : Ingest E} (h : Told c) (signalled dropped : Bool) :
    Told { c with
      driver := c.driver.step cfg signalled dropped .handshakeOver
      joined := if (c.driver.step cfg signalled dropped .handshakeOver).transport.isSome
        then c.joined.or (some (.error .cancelled)) else c.joined } := by
  unfold Driver.step
  dsimp only
  split
  · refine ⟨fun hnone => ?_, fun t ht => ?_, fun text htext => DriverPhase.noConfusion htext⟩
    · have hsome : (c.driver.transport.or (some .completed)).isSome = true := by
        cases c.driver.transport <;> rfl
      dsimp only at hnone
      rw [if_pos hsome] at hnone
      cases hjoined : c.joined with
      | none => rw [hjoined] at hnone; cases hnone
      | some r => rw [hjoined] at hnone; cases hnone
    · dsimp only at ht
      cases htransport : c.driver.transport with
      | none =>
        rw [htransport] at ht
        exact .inl (Option.some.inj ht).symm
      | some t' =>
        rw [htransport] at ht
        obtain rfl := Option.some.inj ht
        refine (h.transport _ htransport).imp_right (fun hr => ?_)
        obtain ⟨r, hjoined, hr⟩ := hr
        refine ⟨r, ?_, hr⟩
        dsimp only
        rw [hjoined, Option.or_some]
        exact ite_self _
  · refine ⟨fun hnone => ?_, fun t ht => ?_, h.failed⟩
    · cases htransport : c.driver.transport with
      | none => rfl
      | some t =>
        dsimp only at hnone
        rw [htransport, Option.isSome_some, if_pos rfl] at hnone
        cases hjoined : c.joined with
        | none => rw [hjoined] at hnone; cases hnone
        | some r => rw [hjoined] at hnone; cases hnone
    · refine (h.transport t ht).imp_right (fun hr => ?_)
      obtain ⟨r, hjoined, hr⟩ := hr
      refine ⟨r, ?_, hr⟩
      dsimp only
      rw [hjoined, Option.or_some]
      exact ite_self _

theorem Told.step {c : Ingest E} (h : Told c) (i : IngestInput) : Told (c.step v cfg i).1 := by
  obtain ⟨signalled, dropped, move⟩ := i
  cases move with
  | dial d =>
    unfold Ingest.step
    dsimp only
    split
    · next hguard =>
      rw [Bool.and_eq_true, Option.isNone_iff_eq_none, Option.isNone_iff_eq_none] at hguard
      unfold onDial
      dsimp only
      split
      · exact h.congr rfl rfl rfl
      · exact h.join hguard.1 (fun hr => by cases hr) signalled dropped
    · exact h
  | socket turn =>
    rcases socket_cases v cfg c signalled dropped turn with
      ⟨-, hstep⟩ | ⟨s, hjoined, -, hturn, -, hstep⟩
    · rw [hstep]
      exact h
    · rw [hstep]
      unfold onTurn
      dsimp only
      rw [decoded_of_canTurn hturn (h.unended hjoined)]
      split
      · exact h.congr rfl rfl rfl
      · next e _ =>
        refine Told.join (r := .ok e) ?_ ?_ (fun hr => by cases hr) signalled dropped
        · exact h.congr rfl rfl rfl
        · exact hjoined
  | panic =>
    unfold Ingest.step
    dsimp only
    split
    · next hguard =>
      exact h.join (Option.isNone_iff_eq_none.mp hguard) (fun hr => by cases hr) signalled dropped
    · exact h
  | abort =>
    unfold Ingest.step
    dsimp only
    split
    · next hguard =>
      rw [Bool.and_eq_true, Option.isNone_iff_eq_none] at hguard
      refine ⟨fun hnone => (by cases hnone), fun t ht => ?_, h.failed⟩
      rw [h.unended hguard.1] at ht
      cases ht
    · exact h
  | handshakeOver => exact h.handshakeOver signalled dropped
  | receive => exact h.congr rfl rfl rfl
  | _ => exact h.drive signalled dropped (fun _ hm => by cases hm) (fun hm => by cases hm)

variable (v cfg) in
theorem told_run (is : List IngestInput) : Told ((machine v cfg).run start is).1 := by
  induction is using List.reverseRecOn with
  | nil => exact ⟨fun _ => rfl, fun t ht => (by cases ht), fun text htext => (by cases htext)⟩
  | append_singleton is i ih =>
    rw [Machine.run_append_singleton]
    exact ih.step i

/-! ## Conservation -/

/-- A connection whose reader has taken this of the messages it has read. -/
structure Holds (v : VenueProtocol E) (cfg : DriverConfig E) (c : Ingest E)
    (received : List DomainEvent) (read : List (WsMessage × ReadEnv)) : Prop where
  /-- What is in the channel follows what was taken. -/
  ordered : received ++ c.driver.out.queue <+: contents v cfg read
  /-- While the drive loop runs, nothing has been lost. -/
  whole : c.driver.isOver = false → received ++ c.transit cfg = contents v cfg read

theorem queue_prefix_transit (c : Ingest E) : c.driver.out.queue <+: c.transit cfg := by
  unfold transit Driver.pending Outlet.content
  rw [List.append_assoc, List.append_assoc]
  exact List.prefix_append _ _

/-- A move that leaves what is on its way, and the channel of a drive loop that has
returned. -/
theorem Holds.congr {c c' : Ingest E} {received : List DomainEvent}
    {read : List (WsMessage × ReadEnv)} (h : Holds v cfg c received read)
    (hout : c'.driver.out = c.driver.out) (htransit : c'.transit cfg = c.transit cfg)
    (hphase : c'.driver.phase = c.driver.phase) : Holds v cfg c' received read := by
  refine ⟨?_, fun halive => ?_⟩
  · rw [hout]
    exact h.ordered
  · rw [htransit]
    exact h.whole ((Driver.isOver_congr hphase).symm.trans halive)

/-- The moves of the drive loop. -/
theorem Holds.drive {c : Ingest E} {received : List DomainEvent}
    {read : List (WsMessage × ReadEnv)} (h : Holds v cfg c received read)
    (signalled dropped : Bool) (joined : Option (Except JoinError WssExitReason))
    {m : DriverStep E} (hm : ∀ ev, m ≠ .decode ev) :
    Holds v cfg { c with driver := c.driver.step cfg signalled dropped m, joined := joined }
      received read := by
  rcases Driver.pending_step_or_loses cfg c.driver signalled dropped hm with
    hsame | ⟨-, hover', hqueue, -⟩
  · cases hover : c.driver.isOver with
    | true =>
      refine ⟨?_, fun halive => ?_⟩
      · show received ++ (c.driver.step cfg signalled dropped m).out.queue <+: _
        rw [(Driver.step_of_isOver hover signalled dropped m).1]
        exact h.ordered
      · exact Bool.noConfusion
          ((Driver.isOver_step hover signalled dropped m).symm.trans halive)
    | false =>
      have hwhole : received ++ ((c.driver.step cfg signalled dropped m).pending cfg
          ++ normalized cfg c.held) = contents v cfg read := by
        rw [hsame]
        exact h.whole hover
      refine ⟨?_, fun _ => hwhole⟩
      rw [← hwhole]
      exact (List.prefix_append_right_inj _).mpr (@queue_prefix_transit _ cfg
        { c with driver := c.driver.step cfg signalled dropped m })
  · refine ⟨?_, fun halive => ?_⟩
    · show received ++ (c.driver.step cfg signalled dropped m).out.queue <+: _
      rw [hqueue]
      exact h.ordered
    · exact Bool.noConfusion (hover'.symm.trans halive)

/-- What the reader takes was the next on its way. -/
theorem transit_receive (c : Ingest E) :
    c.driver.out.queue.take 1
        ++ ({ c with driver := { c.driver with out := c.driver.out.pop } } : Ingest E).transit cfg
      = c.transit cfg := by
  have hqueue : c.driver.out.queue.take 1 ++ c.driver.out.pop.queue = c.driver.out.queue := by
    show _ ++ c.driver.out.queue.tail = _
    rw [← List.drop_one]
    exact List.take_append_drop 1 _
  unfold transit Driver.pending Outlet.content
  show _ ++ (c.driver.out.pop.queue ++ c.driver.out.hand ++ _ ++ _) = _
  rw [List.append_assoc, List.append_assoc, ← List.append_assoc (c.driver.out.queue.take 1), hqueue,
    List.append_assoc, List.append_assoc]
  rfl

/-- A dialled socket has nothing on its way yet. -/
theorem transit_onDial {c : Ingest E} (hsocket : c.socket = none) (signalled dropped : Bool)
    (d : WssTransport.Dialling) :
    (c.onDial v cfg signalled dropped d).transit cfg = c.transit cfg ∧
      (c.onDial v cfg signalled dropped d).driver.out = c.driver.out ∧
      (c.onDial v cfg signalled dropped d).driver.phase = c.driver.phase := by
  unfold onDial
  split
  · next s hdial =>
    refine ⟨?_, rfl, rfl⟩
    unfold transit held
    rw [hsocket, WssTransport.eq_start_of_dial hdial]
    rfl
  · obtain ⟨htransit, hout, hphase, -⟩ := joinTask_fixed cfg signalled dropped c (.ok _)
    exact ⟨htransit, hout, hphase⟩

/-- A move that makes no turn on the socket reads nothing. -/
theorem taken_of_not_turned {c : Ingest E} {i : IngestInput} (h : turned cfg c i = none) :
    taken cfg c i = none := by
  unfold taken
  rw [h]
  rfl

theorem taken_of_turned {c : Ingest E} {i : IngestInput} {t : WssTransport E × SocketInput}
    (h : turned cfg c i = some t) : taken cfg c i = t.1.taken t.2 := by
  unfold taken
  rw [h]
  rfl

/-- **One move of a connection** keeps it whole. -/
theorem Holds.step {c : Ingest E} {received : List DomainEvent}
    {read : List (WsMessage × ReadEnv)} (h : Holds v cfg c received read) (htold : Told c)
    (i : IngestInput) :
    Holds v cfg (c.step v cfg i).1 (received ++ (c.step v cfg i).2)
      (read ++ (taken cfg c i).toList) := by
  obtain ⟨signalled, dropped, move⟩ := i
  have hquiet : ∀ {c' : Ingest E}, Holds v cfg c' received read →
      Holds v cfg c' (received ++ []) (read ++ (none : Option (WsMessage × ReadEnv)).toList) := by
    intro c' hc
    rw [Option.toList_none, List.append_nil, List.append_nil]
    exact hc
  cases move with
  | socket turn =>
    rcases socket_cases v cfg c signalled dropped turn with
      ⟨hturned, hstep⟩ | ⟨s, hjoined, hsocket, hturn, hturned, hstep⟩
    · rw [taken_of_not_turned hturned, hstep]
      exact hquiet h
    · obtain ⟨htransit, hout, hphase, -⟩ :=
        transit_onTurn (v := v) hturn (htold.unended hjoined) hsocket signalled dropped
      rw [hstep, taken_of_turned hturned, List.append_nil]
      refine ⟨?_, fun halive => ?_⟩
      · rw [hout, contents_append]
        exact h.ordered.trans (List.prefix_append _ _)
      · have hover : c.driver.isOver = false := (Driver.isOver_congr hphase).symm.trans halive
        rw [htransit, ← List.append_assoc, h.whole hover, contents_append]
  | dial d =>
    unfold Ingest.step
    dsimp only
    split
    · next hguard =>
      rw [Bool.and_eq_true, Option.isNone_iff_eq_none, Option.isNone_iff_eq_none] at hguard
      obtain ⟨htransit, hout, hphase⟩ :=
        @transit_onDial _ v cfg _ hguard.2 signalled dropped d
      exact hquiet (h.congr hout htransit hphase)
    · exact hquiet h
  | panic =>
    unfold Ingest.step
    dsimp only
    split
    · obtain ⟨htransit, hout, hphase, -⟩ :=
        joinTask_fixed cfg signalled dropped c (.error .panicked)
      exact hquiet (h.congr hout htransit hphase)
    · exact hquiet h
  | abort =>
    unfold Ingest.step
    dsimp only
    split
    · exact hquiet (h.congr rfl rfl rfl)
    · exact hquiet h
  | receive =>
    show Holds v cfg { c with driver := { c.driver with out := c.driver.out.pop } }
      (received ++ c.driver.out.queue.take 1) (read ++ [])
    rw [List.append_nil]
    refine ⟨?_, fun halive => ?_⟩
    · show received ++ c.driver.out.queue.take 1 ++ c.driver.out.queue.tail <+: _
      rw [← List.drop_one, List.append_assoc, List.take_append_drop]
      exact h.ordered
    · rw [← h.whole halive, List.append_assoc]
      exact congrArg (received ++ ·) (transit_receive c)
  | _ => exact hquiet (h.drive signalled dropped _ (fun _ hm => by cases hm))

theorem holds_start : Holds v cfg start [] [] := ⟨List.prefix_rfl, fun _ => rfl⟩

variable (v cfg) in
/-- A connection is whole after every run. -/
theorem holds_run (is : List IngestInput) :
    Holds v cfg ((machine v cfg).run start is).1 ((machine v cfg).run start is).2
      (readBy v cfg start is) := by
  induction is using List.reverseRecOn with
  | nil => exact holds_start
  | append_singleton is i ih =>
    have hread : readBy v cfg start (is ++ [i]) = readBy v cfg start is
        ++ (taken cfg ((machine v cfg).run start is).1 i).toList :=
      (machine v cfg).collect_append_singleton _ _ is i
    have hone := ih.step (told_run v cfg is) i
    rw [hread, Machine.run_append]
    show Holds v cfg (((machine v cfg).run start is).1.step v cfg i).1
      (_ ++ ((((machine v cfg).run start is).1.step v cfg i).2 ++ [])) _
    rw [List.append_nil]
    exact hone

/-- A drive loop that has returned stays as it is. -/
theorem phase_step_of_isOver {c : Ingest E} (h : c.driver.isOver = true) (htold : Told c)
    (i : IngestInput) : (c.step v cfg i).1.driver.phase = c.driver.phase := by
  obtain ⟨signalled, dropped, move⟩ := i
  cases move with
  | socket turn =>
    rcases socket_cases v cfg c signalled dropped turn with
      ⟨-, hstep⟩ | ⟨s, hjoined, hsocket, hturn, -, hstep⟩
    · rw [hstep]
    · rw [hstep]
      exact (transit_onTurn hturn (htold.unended hjoined) hsocket signalled dropped).2.2.1
  | dial d =>
    unfold Ingest.step
    dsimp only
    split
    · next hguard =>
      rw [Bool.and_eq_true, Option.isNone_iff_eq_none, Option.isNone_iff_eq_none] at hguard
      exact (@transit_onDial _ v cfg _ hguard.2 signalled dropped d).2.2
    · rfl
  | panic =>
    unfold Ingest.step
    dsimp only
    split
    · exact (joinTask_fixed cfg signalled dropped c _).2.2.1
    · rfl
  | abort =>
    unfold Ingest.step
    dsimp only
    split <;> rfl
  | receive => rfl
  | _ => exact (Driver.step_of_isOver h signalled dropped _).2

/-- A move loses nothing while the reader is there and no drain is out of time. -/
theorem conserved_step {c : Ingest E} {received : List DomainEvent}
    {read : List (WsMessage × ReadEnv)} (h : received ++ c.transit cfg = contents v cfg read)
    (htold : Told c) {i : IngestInput} (hdropped : i.dropped = false)
    (htime : (c.step v cfg i).1.driver.phase ≠ .exited .drainTimedOut) :
    received ++ (c.step v cfg i).2 ++ (c.step v cfg i).1.transit cfg
      = contents v cfg (read ++ (taken cfg c i).toList) := by
  obtain ⟨signalled, dropped, move⟩ := i
  obtain rfl : dropped = false := hdropped
  have hquiet : ∀ {transit : List DomainEvent}, transit = c.transit cfg →
      received ++ [] ++ transit
        = contents v cfg (read ++ (none : Option (WsMessage × ReadEnv)).toList) := by
    rintro transit rfl
    rw [List.append_nil, Option.toList_none, List.append_nil, h]
  have hown : ∀ {m : DriverStep E}, (∀ ev, m ≠ .decode ev) →
      (c.driver.step cfg signalled false m).phase ≠ .exited .drainTimedOut →
      (c.driver.step cfg signalled false m).pending cfg ++ normalized cfg c.held
        = c.transit cfg := by
    intro m hm hlate
    rcases Driver.pending_step_or_loses cfg c.driver signalled false hm with
      hsame | ⟨-, -, -, hgone | hlate'⟩
    · rw [hsame]
      rfl
    · exact Bool.noConfusion hgone
    · exact absurd hlate' hlate
  cases move with
  | socket turn =>
    rcases socket_cases v cfg c signalled false turn with
      ⟨hturned, hstep⟩ | ⟨s, hjoined, hsocket, hturn, hturned, hstep⟩
    · rw [taken_of_not_turned hturned, hstep]
      exact hquiet rfl
    · rw [hstep, taken_of_turned hturned, List.append_nil, contents_append, ← h,
        (transit_onTurn hturn (htold.unended hjoined) hsocket signalled false).1,
        List.append_assoc]
  | dial d =>
    unfold Ingest.step
    dsimp only
    split
    · next hguard =>
      rw [Bool.and_eq_true, Option.isNone_iff_eq_none, Option.isNone_iff_eq_none] at hguard
      exact hquiet (transit_onDial hguard.2 signalled false d).1
    · exact hquiet rfl
  | panic =>
    unfold Ingest.step
    dsimp only
    split
    · exact hquiet (joinTask_fixed cfg signalled false c _).1
    · exact hquiet rfl
  | abort =>
    unfold Ingest.step
    dsimp only
    split <;> exact hquiet rfl
  | receive =>
    show received ++ c.driver.out.queue.take 1 ++ _ = contents v cfg (read ++ [])
    rw [List.append_nil, List.append_assoc, ← h]
    exact congrArg (received ++ ·) (transit_receive c)
  | _ => exact hquiet (hown (fun _ hm => by cases hm) htime)

/-! ## The loop on the socket -/

/-- A socket was opened in this way. -/
def Dialled (is : List IngestInput) (d : WssTransport.Dialling) : Prop :=
  ∃ i ∈ is, i.move = .dial d

/-- **The loop on the socket runs as it does by itself**, from the opening of its socket, on
the turns it is given. -/
structure Traced (v : VenueProtocol E) (is : List IngestInput) (c : Ingest E)
    (turns : List SocketInput) (read : List (WsMessage × ReadEnv)) : Prop where
  closed : c.socket = none → turns = [] ∧ read = [] ∧ ∀ e, c.joined = some (.ok e) →
    ∃ d, Dialled is d ∧ WssTransport.dial v d = .error e
  opened : ∀ s, c.socket = some s → ∃ d, Dialled is d
    ∧ WssTransport.dial v d = .ok (.start v d.nowNs)
    ∧ s = ((WssTransport.machine v).run (.start v d.nowNs) turns).1
    ∧ read = WssTransport.readBy v (.start v d.nowNs) turns
  ended : ∀ s e, c.socket = some s → c.joined = some (.ok e) → s.exit = some e

/-- A move that is no turn on the socket and opens none. -/
theorem Traced.mono {is : List IngestInput} {c c' : Ingest E} {turns : List SocketInput}
    {read : List (WsMessage × ReadEnv)} (h : Traced v is c turns read) (i : IngestInput)
    (hsocket : c'.socket = c.socket)
    (hjoined : ∀ e, c'.joined = some (.ok e) → c.joined = some (.ok e)) :
    Traced v (is ++ [i]) c' turns read := by
  have hmono : ∀ {d}, Dialled is d → Dialled (is ++ [i]) d := by
    rintro d ⟨j, hj, hdial⟩
    exact ⟨j, List.mem_append_left _ hj, hdial⟩
  refine ⟨fun hnone => ?_, fun s hs => ?_, fun s e hs he => ?_⟩
  · obtain ⟨hturns, hread, hfailed⟩ := h.closed (hsocket.symm.trans hnone)
    refine ⟨hturns, hread, fun e he => ?_⟩
    obtain ⟨d, hd, herror⟩ := hfailed e (hjoined e he)
    exact ⟨d, hmono hd, herror⟩
  · obtain ⟨d, hd, hopened⟩ := h.opened s (hsocket.symm.trans hs)
    exact ⟨d, hmono hd, hopened⟩
  · exact h.ended s e (hsocket.symm.trans hs) (hjoined e he)

/-- A turn of the loop is one turn more, and what it reads is one message more. -/
theorem Traced.onTurn {is : List IngestInput} {c : Ingest E} {turns : List SocketInput}
    {read : List (WsMessage × ReadEnv)} (h : Traced v is c turns read) (htold : Told c)
    {s : WssTransport E} {turn : SocketInput} (hjoined : c.joined = none)
    (hsocket : c.socket = some s) (hturn : canTurn cfg c.driver turn = true)
    (signalled dropped : Bool) (i : IngestInput) :
    Traced v (is ++ [i]) (c.onTurn v cfg signalled dropped s turn) (turns ++ [turn])
      (read ++ (s.taken turn).toList) := by
  have hsame :=
    (transit_onTurn (v := v) hturn (htold.unended hjoined) hsocket signalled dropped).2.2.2
  obtain ⟨d, ⟨j, hj, hdial⟩, hopen, hrun, hread⟩ := h.opened s hsocket
  refine ⟨fun hnone => ?_, fun s' hs' => ?_, fun s' e hs' he => ?_⟩
  · rw [hsame] at hnone
    cases hnone
  · obtain rfl := Option.some.inj (hsame.symm.trans hs')
    refine ⟨d, ⟨j, List.mem_append_left _ hj, hdial⟩, hopen, ?_, ?_⟩
    · rw [Machine.run_append_singleton, ← hrun]
      rfl
    · rw [hread, hrun]
      exact ((WssTransport.machine v).collect_append_singleton WssTransport.taken _ turns
        turn).symm
  · obtain rfl := Option.some.inj (hsame.symm.trans hs')
    unfold Ingest.onTurn at he
    dsimp only at he
    split at he
    · rw [hjoined] at he
      cases he
    · next e' hexit =>
      obtain rfl := Except.ok.inj (Option.some.inj he)
      exact hexit

/-- A dial opens the socket the turns are made on, or fails. -/
theorem Traced.onDial {is : List IngestInput} {c : Ingest E} {turns : List SocketInput}
    {read : List (WsMessage × ReadEnv)} (h : Traced v is c turns read) (hjoined : c.joined = none)
    (hsocket : c.socket = none) (signalled dropped : Bool) {d : WssTransport.Dialling}
    {i : IngestInput} (hi : i.move = .dial d) :
    Traced v (is ++ [i]) (c.onDial v cfg signalled dropped d) turns read := by
  obtain ⟨rfl, rfl, -⟩ := h.closed hsocket
  have hdialled : Dialled (is ++ [i]) d :=
    ⟨i, List.mem_append_right _ (List.mem_singleton.mpr rfl), hi⟩
  have hclosed : ∀ s, c.socket ≠ some s := fun s hs => by cases hsocket.symm.trans hs
  unfold Ingest.onDial
  cases hdial : WssTransport.dial v d with
  | ok s =>
    obtain rfl := WssTransport.eq_start_of_dial hdial
    refine ⟨fun hnone => (by cases hnone), fun s hs => ?_, fun s e _ he => ?_⟩
    · obtain rfl := Option.some.inj hs
      exact ⟨d, hdialled, hdial, rfl, rfl⟩
    · rw [show (_ : Option (Except JoinError WssExitReason)) = none from hjoined] at he
      cases he
  | error e =>
    refine ⟨fun _ => ⟨rfl, rfl, fun e' he => ?_⟩, fun s hs => absurd hs (hclosed s),
      fun s e' hs _ => absurd hs (hclosed s)⟩
    obtain rfl := Except.ok.inj (Option.some.inj he)
    exact ⟨d, hdialled, hdial⟩

/-- **One move of a connection** keeps the trace. -/
theorem Traced.step {is : List IngestInput} {c : Ingest E} {turns : List SocketInput}
    {read : List (WsMessage × ReadEnv)} (h : Traced v is c turns read) (htold : Told c)
    (i : IngestInput) :
    Traced v (is ++ [i]) (c.step v cfg i).1 (turns ++ ((turned cfg c i).map Prod.snd).toList)
      (read ++ (taken cfg c i).toList) := by
  obtain ⟨signalled, dropped, move⟩ := i
  have hquiet : ∀ {c' : Ingest E}, c'.socket = c.socket →
      (∀ e, c'.joined = some (.ok e) → c.joined = some (.ok e)) →
      Traced v (is ++ [⟨signalled, dropped, move⟩]) c' (turns ++ []) (read ++ []) := by
    intro c' hsocket hjoined
    rw [List.append_nil, List.append_nil]
    exact h.mono _ hsocket hjoined
  cases move with
  | socket turn =>
    rcases socket_cases v cfg c signalled dropped turn with
      ⟨hturned, hstep⟩ | ⟨s, hjoined, hsocket, hturn, hturned, hstep⟩
    · rw [taken_of_not_turned hturned, hturned, hstep]
      exact hquiet rfl (fun e he => he)
    · rw [hstep, taken_of_turned hturned, hturned]
      exact h.onTurn htold hjoined hsocket hturn signalled dropped _
  | dial d =>
    unfold Ingest.step
    dsimp only
    split
    · next hguard =>
      rw [Bool.and_eq_true, Option.isNone_iff_eq_none, Option.isNone_iff_eq_none] at hguard
      show Traced v _ _ (turns ++ []) (read ++ [])
      rw [List.append_nil, List.append_nil]
      exact h.onDial hguard.1 hguard.2 signalled dropped rfl
    · exact hquiet rfl (fun e he => he)
  | panic =>
    unfold Ingest.step
    dsimp only
    split
    · exact hquiet rfl (fun e he => by cases he)
    · exact hquiet rfl (fun e he => he)
  | abort =>
    unfold Ingest.step
    dsimp only
    split
    · exact hquiet rfl (fun e he => by cases he)
    · exact hquiet rfl (fun e he => he)
  | handshakeOver =>
    refine hquiet rfl (fun e he => ?_)
    unfold Ingest.step at he
    dsimp only at he
    split at he
    · cases hjoined : c.joined with
      | none =>
        rw [hjoined] at he
        cases he
      | some r =>
        rw [hjoined] at he
        exact he
    · exact he
  | _ => exact hquiet rfl (fun e he => he)

variable (v cfg) in
theorem traced_run (is : List IngestInput) :
    Traced v is ((machine v cfg).run start is).1 (turns v cfg start is)
      (readBy v cfg start is) := by
  induction is using List.reverseRecOn with
  | nil =>
    exact ⟨fun _ => ⟨rfl, rfl, fun e he => (by cases he)⟩, fun s hs => (by cases hs),
      fun s e hs => (by cases hs)⟩
  | append_singleton is i ih =>
    have hread : readBy v cfg start (is ++ [i]) = readBy v cfg start is
        ++ (taken cfg ((machine v cfg).run start is).1 i).toList :=
      (machine v cfg).collect_append_singleton _ _ is i
    have hturns : turns v cfg start (is ++ [i]) = turns v cfg start is
        ++ ((turned cfg ((machine v cfg).run start is).1 i).map Prod.snd).toList :=
      (machine v cfg).collect_append_singleton _ _ is i
    rw [hread, hturns, Machine.run_append_singleton]
    exact ih.step (told_run v cfg is) i

/-- **Nothing is lost on the way, and nothing is repeated.** However the turns of the
two tasks and of the reader interleave: what the reader has taken and what is in
the channel are a beginning of what the messages hold, in order. While the drive loop runs,
what is in its buffers and in the hands of the transport completes it; and it stays
complete after the loop has returned, unless it found its reader gone or its drain
was out of time. A transport that ends of itself, the drive loop still there, has nothing
in its hands: the event of a send is lost only when its task is stopped, or panics, as it
waits, or finds the drive loop gone. -/
theorem conserved_run (is : List IngestInput) :
    ((machine v cfg).run start is).2 ++ ((machine v cfg).run start is).1.driver.out.queue
        <+: contents v cfg (readBy v cfg start is)
      ∧ (((machine v cfg).run start is).1.driver.isOver = false
          ∨ ((∀ i ∈ is, i.dropped = false)
            ∧ ((machine v cfg).run start is).1.driver.phase ≠ .exited .drainTimedOut) →
        ((machine v cfg).run start is).2 ++ ((machine v cfg).run start is).1.transit cfg
          = contents v cfg (readBy v cfg start is))
      ∧ ∀ e, ((machine v cfg).run start is).1.joined = some (.ok e) → e ≠ .receiverDropped →
        ((machine v cfg).run start is).1.held = [] := by
  have hholds := holds_run v cfg is
  refine ⟨hholds.ordered, fun h => ?_, fun e he hne => ?_⟩
  · rcases h with halive | ⟨hdropped, htime⟩
    · exact hholds.whole halive
    · clear hholds
      induction is using List.reverseRecOn with
      | nil => rfl
      | append_singleton is i ih =>
        rw [Machine.run_append_singleton] at htime
        have htold := told_run v cfg is
        have hbefore : ((machine v cfg).run start is).1.driver.phase
            ≠ .exited .drainTimedOut := by
          intro hphase
          refine htime (Eq.trans (phase_step_of_isOver ?_ htold i) hphase)
          unfold Driver.isOver
          rw [hphase]
        have hwhole := ih (fun j hj => hdropped j (List.mem_append_left _ hj)) hbefore
        have hread : readBy v cfg start (is ++ [i]) = readBy v cfg start is
            ++ (taken cfg ((machine v cfg).run start is).1 i).toList :=
          (machine v cfg).collect_append_singleton _ _ is i
        have hone := conserved_step hwhole htold
          (hdropped i (List.mem_append_right _ (List.mem_singleton.mpr rfl))) htime
        rw [hread, Machine.run_append, ← hone]
        show _ ++ ((((machine v cfg).run start is).1.step v cfg i).2 ++ []) ++ _ = _
        rw [List.append_nil]
        rfl
  · have htraced := traced_run v cfg is
    unfold held
    cases hsocket : ((machine v cfg).run start is).1.socket with
    | none => rfl
    | some s =>
      obtain ⟨d, -, -, hrun, -⟩ := htraced.opened s hsocket
      have hexit := htraced.ended s e hsocket he
      rw [hrun] at hexit
      have hidle := (WssTransport.watch_grounds_run (v := v) d.nowNs _).1.idle_of_exit e hexit hne
      rw [← hrun] at hidle
      exact congrArg Option.toList hidle

/-! ## What a connection ends with -/

/-- The text a drive loop fails with is that of the reason. -/
theorem display_of_toTaskExit {reason : DisconnectReason} {text : String}
    (h : (exitToTask reason).toTaskExit = .failed text) : reason.display = text := by
  unfold exitToTask at h
  split at h
  · exact TaskExit.noConfusion h
  · exact TaskExit.noConfusion h
  · exact TaskExit.failed.inj h

/-- **A connection fails only for a cause it names.** If the drive loop has failed with
a text, then either the task of its transport panicked, and the text says so; or that task
has returned a reason the text is of: the reason its socket could not be opened, or one with
grounds in what the loop on the socket met. -/
theorem failed_run (is : List IngestInput) {text : String}
    (h : ((machine v cfg).run start is).1.driver.phase = .exited (.failed text)) :
    (((machine v cfg).run start is).1.joined = some (.error .panicked)
        ∧ text = (DisconnectReason.transportError "transport task panicked").display)
      ∨ ∃ e d, ((machine v cfg).run start is).1.joined = some (.ok e)
        ∧ (DisconnectReason.ofExit e).display = text ∧ Dialled is d
        ∧ (WssTransport.dial v d = .error e
          ∨ WssTransport.dial v d = .ok (.start v d.nowNs)
            ∧ WssTransport.Grounds v d.nowNs (turns v cfg start is) (readBy v cfg start is) e) := by
  have htold := told_run v cfg is
  have htraced := traced_run v cfg is
  rcases htold.transport _ (htold.failed text h) with hstop | ⟨r, hjoined, hr, htask⟩
  · exact TaskExit.noConfusion hstop
  cases r with
  | error cause =>
    cases cause with
    | panicked => exact .inl ⟨hjoined, (TaskExit.failed.inj htask).symm⟩
    | cancelled => exact absurd rfl hr
  | ok e =>
    refine .inr ?_
    cases hsocket : ((machine v cfg).run start is).1.socket with
    | none =>
      obtain ⟨d, hd, herror⟩ := (htraced.closed hsocket).2.2 e hjoined
      exact ⟨e, d, hjoined, display_of_toTaskExit htask, hd, .inl herror⟩
    | some s =>
      obtain ⟨d, hd, hopen, hrun, hread⟩ := htraced.opened s hsocket
      have hexit := htraced.ended s e hsocket hjoined
      rw [hrun] at hexit
      refine ⟨e, d, hjoined, display_of_toTaskExit htask, hd, .inr ⟨hopen, ?_⟩⟩
      rw [hread]
      exact (WssTransport.watch_grounds_run d.nowNs _).2 e hexit

/-- A socket that opens at once. -/
def promptDial : WssTransport.Dialling where
  prepared := .ok {}
  parseUrl _ := none
  connect _ := .connected
  write _ := none
  nowNs := 0

/-- A connection on which one subscription is acknowledged, the other turned down. -/
def turnedDown : List IngestInput :=
  ⟨false, false, .dial promptDial⟩
    :: WssTransport.turnedDown.map (fun i => ⟨false, false, .socket i⟩)
    ++ [⟨false, false, .take⟩]

theorem failed_run_turnedDown :
    (((machine WssTransport.refusing ⟨fun _ => [], 1, 1⟩).run start turnedDown).1.joined
          = some (.error .panicked)
        ∧ (DisconnectReason.protocolRejection 0 "no such channel").display
          = (DisconnectReason.transportError "transport task panicked").display)
      ∨ ∃ e d, ((machine WssTransport.refusing ⟨fun _ => [], 1, 1⟩).run start turnedDown).1.joined
          = some (.ok e)
        ∧ (DisconnectReason.ofExit e).display
          = (DisconnectReason.protocolRejection 0 "no such channel").display
        ∧ Dialled turnedDown d
        ∧ (WssTransport.dial WssTransport.refusing d = .error e
          ∨ WssTransport.dial WssTransport.refusing d = .ok (.start WssTransport.refusing d.nowNs)
            ∧ WssTransport.Grounds WssTransport.refusing d.nowNs
              (turns WssTransport.refusing ⟨fun _ => [], 1, 1⟩ start turnedDown)
              (readBy WssTransport.refusing ⟨fun _ => [], 1, 1⟩ start turnedDown) e) :=
  failed_run turnedDown rfl

end Ingest
