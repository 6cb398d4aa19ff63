import Aetelier.FeedRuntime
import Aetelier.ReconnectLoop

/-!
# The feeds of a worker

A worker owns its feeds, so that they outlive its connections. It marks all of
them at every turn of its life: subscribing before it connects, reconnecting
when a connection has ended and another is to be made, rejected or failed when
it gives up, draining when it has left its loop, and closed when its sinks are
flushed. Between the first two the runtime of the connection marks them one by
one.

The worker holds a connection until the tasks of the connection are joined, so
no mark of the worker falls into a run. There is one way around that: where
the sinks cannot be flushed the worker returns at once, and its runtime goes on
by itself.

What the worker may assume of its feeds where is a predicate of its own
(`FeedWorker.Sound`), and with it every transition of a whole life is legal
(`FeedWorker.telemetry_agrees`).
-/

namespace Telemetry

/-- **Where a worker is.** -/
inductive FeedWorker where
  /-- At the head of its loop, without a connection. -/
  | looping (feeds : FeedSet)
  /-- A connection runs, or its tasks have not been joined. -/
  | running (connection : FeedRuntime)
  /-- The connection has ended for this reason, and the policy is asked. -/
  | deciding (feeds : FeedSet) (reason : DisconnectReason)
  /-- It has left its loop; the drain of its adapter was partial. -/
  | stopping (feeds : FeedSet) (drainPartial : Bool)
  /-- Its sinks are flushed. -/
  | draining (feeds : FeedSet) (drainPartial : Bool)
  /-- It has returned. -/
  | returned (feeds : FeedSet)
  /-- It has returned, and its runtime goes on. -/
  | detached (connection : FeedRuntime)

/-- What happens to a worker. -/
inductive FeedWorkerInput where
  /-- A connection is made. -/
  | connect (hasher : RandomState TradingPair)
      (seenHasher : RandomState (TradingPair × FeedDatatype)) (nowUs : ℕ)
  /-- What reaches the runtime of the connection. -/
  | runtime (input : FeedInput)
  /-- The sinks could not be flushed. -/
  | flushFailed
  /-- The tasks of the connection are joined; the worker is stopped. -/
  | joined (exit : AdapterExit) (stopped : Bool)
  /-- The policy has answered, and the pause it asked for is over: in time, or
  by a shutdown. -/
  | answered (action : ReconnectAction) (shutdown : Bool)
  /-- The worker is stopped at the head of its loop. -/
  | leave
  /-- The feeds are drained. -/
  | drain
  /-- The sinks are flushed. -/
  | flushed

namespace FeedWorker

variable (cfg : FeedConfig) (wireSymbols : List String)

/-- A worker before its first connection. -/
def start (subs : Subscriptions) : FeedWorker := looping (.new subs)

/-- The feeds. -/
def feeds : FeedWorker → FeedSet
  | looping feeds | deciding feeds _ | stopping feeds _ | draining feeds _ | returned feeds => feeds
  | running connection | detached connection => connection.feeds

/-- The tasks of a connection are joined. A source that is exhausted, and a
stop, end the loop; all else is an end the policy decides about. -/
def join (feeds : FeedSet) (exit : AdapterExit) (stopped : Bool) :
    FeedWorker × List FeedTransition :=
  if exit = .exhausted then (stopping feeds false, [])
  else if stopped then (stopping feeds (decide (exit = .drainTimedOut)), [])
  else
    let r := feeds.markAllReconnecting
    (deciding r.1 exit.policyReason, r.2)

/-- The policy has answered. A shutdown is noticed in a pause, or at the head
of the loop. -/
def answer (feeds : FeedSet) (reason : DisconnectReason) (shutdown : Bool) :
    ReconnectAction → FeedWorker × List FeedTransition
  | .retryImmediately => (looping feeds, [])
  | .retryAfter _ | .circuitOpen _ =>
    if shutdown then (stopping feeds false, []) else (looping feeds, [])
  | .giveUp why =>
    let r :=
      match reason with
      | .protocolRejection _ _ => feeds.markAllRejected why
      | _ => feeds.markAllFailed why
    (stopping r.1 false, r.2)

/-- **A step of a worker.** What does not happen where it is changes nothing. -/
def step (w : FeedWorker) (i : FeedWorkerInput) : FeedWorker × List FeedTransition :=
  match w with
  | looping feeds =>
    match i with
    | .connect hasher seenHasher nowUs =>
      let r := feeds.markAllSubscribing
      (running (.start cfg hasher seenHasher nowUs wireSymbols r.1), r.2)
    | .leave => (stopping feeds false, [])
    | _ => (w, [])
  | running connection =>
    match i with
    | .runtime input =>
      let r := connection.step cfg input
      (running r.1, r.2)
    | .flushFailed => (detached connection, [])
    | .joined exit stopped =>
      if connection.runtime.outcome.isSome then join connection.feeds exit stopped else (w, [])
    | _ => (w, [])
  | deciding feeds reason =>
    match i with
    | .answered action shutdown => answer feeds reason shutdown action
    | _ => (w, [])
  | stopping feeds drainPartial =>
    match i with
    | .drain =>
      let r := feeds.markAllDraining
      (draining r.1 drainPartial, r.2)
    | _ => (w, [])
  | draining feeds drainPartial =>
    match i with
    | .flushed =>
      let r := feeds.markAllClosed drainPartial
      (returned r.1, r.2)
    | .flushFailed => (returned feeds, [])
    | _ => (w, [])
  | returned _ => (w, [])
  | detached connection =>
    match i with
    | .runtime input =>
      let r := connection.step cfg input
      (detached r.1, r.2)
    | _ => (w, [])

/-- The worker as a machine. -/
def machine : Machine FeedWorker FeedWorkerInput FeedTransition := ⟨step cfg wireSymbols⟩

/-- **Telemetry agrees with the books**, as long as there is a run. -/
def Agrees : FeedWorker → Prop
  | running connection | detached connection =>
    connection.runtime.outcome = none → connection.Agrees
  | _ => True

/-! ## What a worker may assume of its feeds -/

/-- At the head of the loop: no connection was made, or the last one is gone. -/
def mayConnect (s : FeedState) : Bool := decide (s = .requested) || decide (s = .reconnecting)

/-- Out of the loop: over, or with an edge to draining. -/
def mayDrain (s : FeedState) : Bool := s.isTerminal || s.canTransitionTo .draining

/-- While the sinks are flushed. -/
def mayClose (s : FeedState) : Bool := s.isTerminal || decide (s = .draining)

/-- The feeds of a worker, where it is. -/
def Sound : FeedWorker → Prop
  | looping feeds => feeds.All mayConnect
  | running connection | detached connection => connection.Sound
  | deciding feeds _ => feeds.All (fun s => decide (s = .reconnecting))
  | stopping feeds _ => feeds.All mayDrain
  | draining feeds _ => feeds.All mayClose
  | returned _ => True

variable {cfg wireSymbols}

theorem sound_start (subs : Subscriptions) : (start subs).Sound := by
  intro f hf
  obtain ⟨key, -, rfl⟩ := List.mem_map.mp hf
  rfl

theorem Sound.agrees {w : FeedWorker} (h : w.Sound) : w.Agrees := by
  cases w with
  | running connection => exact FeedRuntime.Sound.agrees h
  | detached connection => exact FeedRuntime.Sound.agrees h
  | _ => trivial

/-- **What a step keeps**: it goes by legal transitions, to feeds that are as
the worker assumes. -/
def Goes (r : FeedWorker × List FeedTransition) : Prop :=
  r.1.Sound ∧ ∀ t ∈ r.2, t.1.canTransitionTo t.2 = true

/-- A step without transitions. -/
theorem goes_of_sound {w : FeedWorker} (h : w.Sound) : Goes (w, []) :=
  ⟨h, fun _ ht => absurd ht List.not_mem_nil⟩

/-- A step that marks all feeds. -/
theorem goes_eachLiveMut {fs : FeedSet} {setter : FeedSetter} {P : FeedState → Bool}
    (Q : FeedState → Bool) {w : FeedWorker} (hw : (fs.eachLiveMut setter).1.All Q → w.Sound)
    (hall : fs.All P)
    (h : ∀ s, P s = true →
      (if s.isTerminal then Q s else s.canTransitionTo setter.next) = true)
    (hnext : Q setter.next = true) : Goes (w, (fs.eachLiveMut setter).2) := by
  obtain ⟨hQ, hlegal⟩ := FeedSet.stage_eachLiveMut hall h hnext
  exact ⟨hw hQ, hlegal⟩

theorem goes_join {feeds : FeedSet} (h : feeds.All FeedState.isOpen) (exit : AdapterExit)
    (stopped : Bool) : Goes (join feeds exit stopped) := by
  have hstop : feeds.All mayDrain := h.imp (fun s => by cases s <;> decide)
  unfold join
  split
  · exact goes_of_sound hstop
  · split
    · exact goes_of_sound hstop
    · exact goes_eachLiveMut (fun s => decide (s = .reconnecting)) id h
        (fun s => by cases s <;> decide) rfl

theorem goes_answer {feeds : FeedSet} (h : feeds.All (fun s => decide (s = .reconnecting)))
    (reason : DisconnectReason) (shutdown : Bool) (action : ReconnectAction) :
    Goes (answer feeds reason shutdown action) := by
  have hloop : feeds.All mayConnect := h.imp (fun s => by cases s <;> decide)
  have hpause : Goes (if shutdown then (stopping feeds false, []) else (looping feeds, [])) := by
    split
    · exact goes_of_sound (h.imp (fun s => by cases s <;> decide))
    · exact goes_of_sound hloop
  cases action with
  | retryImmediately => exact goes_of_sound hloop
  | retryAfter delayNs => exact hpause
  | circuitOpen untilNs => exact hpause
  | giveUp why =>
    have hgivesUp : ∀ setter : FeedSetter,
        FeedState.reconnecting.canTransitionTo setter.next = true → mayDrain setter.next = true →
          Goes (stopping (feeds.eachLiveMut setter).1 false, (feeds.eachLiveMut setter).2) :=
      fun setter hedge hnext => goes_eachLiveMut mayDrain id h
        (fun s hs => by rw [of_decide_eq_true hs]; exact hedge) hnext
    cases reason with
    | protocolRejection code text => exact hgivesUp (.toRejected why) rfl rfl
    | _ => exact hgivesUp (.toFailed why) rfl rfl

/-- **Every step of a worker.** -/
theorem goes_step {w : FeedWorker} (h : w.Sound) (i : FeedWorkerInput) :
    Goes (w.step cfg wireSymbols i) := by
  cases w with
  | looping feeds =>
    cases i with
    | connect hasher seenHasher nowUs =>
      exact goes_eachLiveMut (fun s => decide (s = .subscribing))
        (FeedRuntime.sound_start cfg hasher seenHasher nowUs wireSymbols) h
        (fun s => by cases s <;> decide) rfl
    | leave => exact goes_of_sound (FeedSet.All.imp h (fun s => by cases s <;> decide))
    | _ => exact goes_of_sound h
  | running connection =>
    cases i with
    | runtime input => exact FeedRuntime.sound_step h input
    | flushFailed => exact goes_of_sound h
    | joined exit stopped =>
      show Goes (if connection.runtime.outcome.isSome then _ else _)
      split
      · exact goes_join (FeedRuntime.Sound.isOpen h) exit stopped
      · exact goes_of_sound h
    | _ => exact goes_of_sound h
  | deciding feeds reason =>
    cases i with
    | answered action shutdown => exact goes_answer h reason shutdown action
    | _ => exact goes_of_sound h
  | stopping feeds drainPartial =>
    cases i with
    | drain => exact goes_eachLiveMut mayClose id h (fun s => by cases s <;> decide) rfl
    | _ => exact goes_of_sound h
  | draining feeds drainPartial =>
    cases i with
    | flushed =>
      refine goes_eachLiveMut (fun _ => true) (fun _ => trivial) h (fun s => ?_) rfl
      cases drainPartial <;> cases s <;> decide
    | flushFailed => exact goes_of_sound trivial
    | _ => exact goes_of_sound h
  | returned feeds => exact goes_of_sound h
  | detached connection =>
    cases i with
    | runtime input => exact FeedRuntime.sound_step h input
    | _ => exact goes_of_sound h

/-! ## Feeds that are over -/

/-- No feed of a connection is over. -/
theorem not_terminal_of_open {fs : FeedSet} (h : fs.All FeedState.isOpen) {f : Feed}
    (hf : f ∈ fs.feeds) : f.state.isTerminal = false := by
  have hopen := h f hf
  revert hopen
  cases f.state <;> decide

/-- **A feed that is over stays as it is**, at every step. -/
theorem stays_step {w : FeedWorker} (h : w.Sound) (i : FeedWorkerInput) {f : Feed}
    (hf : f ∈ w.feeds.feeds) (hover : f.state.isTerminal = true) :
    f ∈ (w.step cfg wireSymbols i).1.feeds.feeds := by
  cases w with
  | looping feeds =>
    cases i with
    | connect hasher seenHasher nowUs => exact FeedSet.mem_eachLiveMut hf hover
    | _ => exact hf
  | running connection =>
    exact absurd hover (Bool.not_eq_true _ ▸ not_terminal_of_open (FeedRuntime.Sound.isOpen h) hf)
  | deciding feeds reason =>
    cases i with
    | answered action shutdown =>
      show f ∈ (answer feeds reason shutdown action).1.feeds.feeds
      cases action with
      | retryImmediately => exact hf
      | retryAfter delayNs => cases shutdown <;> exact hf
      | circuitOpen untilNs => cases shutdown <;> exact hf
      | giveUp why => cases reason <;> exact FeedSet.mem_eachLiveMut hf hover
    | _ => exact hf
  | stopping feeds drainPartial =>
    cases i with
    | drain => exact FeedSet.mem_eachLiveMut hf hover
    | _ => exact hf
  | draining feeds drainPartial =>
    cases i with
    | flushed => exact FeedSet.mem_eachLiveMut hf hover
    | _ => exact hf
  | returned feeds => exact hf
  | detached connection =>
    exact absurd hover (Bool.not_eq_true _ ▸ not_terminal_of_open (FeedRuntime.Sound.isOpen h) hf)

variable (cfg wireSymbols) in
/-- The feeds are as the worker assumes after every run, and every transition
of the run was legal. -/
theorem sound_run {w : FeedWorker} (h : w.Sound) (inputs : List FeedWorkerInput) :
    Goes ((machine cfg wireSymbols).run w inputs) :=
  (machine cfg wireSymbols).forall_of_invariant (I := Sound) (P := fun _ _ => True)
    (Q := fun t => t.1.canTransitionTo t.2 = true) (fun _ i hw _ => goes_step hw i) h
    (Machine.along_of_forall (fun _ _ _ _ => trivial) () w)

theorem stays_run {w : FeedWorker} (h : w.Sound) (inputs : List FeedWorkerInput) {f : Feed}
    (hf : f ∈ w.feeds.feeds) (hover : f.state.isTerminal = true) :
    f ∈ ((machine cfg wireSymbols).run w inputs).1.feeds.feeds := by
  induction inputs generalizing w with
  | nil => exact hf
  | cons i inputs ih => exact ih (goes_step h i).1 (stays_step h i hf hover)

/-- **Telemetry agrees with the books over the whole life of a worker.**
Wherever a run is, a feed of a book that says live or stale is of a pair that
applies its deltas to a synced book, and a pair that buffers has a feed that
says so. Every transition taken is legal and leaves no feed that is over, and
a feed that is over is the same ever after. -/
theorem telemetry_agrees (cfg : FeedConfig) (wireSymbols : List String) (subs : Subscriptions)
    (inputs : List FeedWorkerInput) :
    ((machine cfg wireSymbols).run (start subs) inputs).1.Agrees ∧
      (∀ t ∈ ((machine cfg wireSymbols).run (start subs) inputs).2,
        t.1.canTransitionTo t.2 = true ∧ t.1.isTerminal = false) ∧
      ∀ more, ∀ f ∈ ((machine cfg wireSymbols).run (start subs) inputs).1.feeds.feeds,
        f.state.isTerminal = true →
          f ∈ ((machine cfg wireSymbols).run (start subs) (inputs ++ more)).1.feeds.feeds := by
  obtain ⟨hsound, hlegal⟩ := sound_run cfg wireSymbols (sound_start subs) inputs
  refine ⟨hsound.agrees, fun t ht => ?_, fun more f hf hover => ?_⟩
  · exact ⟨hlegal t ht, FeedState.not_isTerminal_of_canTransitionTo (hlegal t ht)⟩
  · rw [Machine.fst_run_append]
    exact stays_run hsound more hf hover

/-- A book that is seeded, gaps, and is closed while it waits for its next seed. -/
example : ((machine ⟨.restVenue, fun _ => none⟩ ["BTCUSDT"]).run
      (start ⟨[(⟨"BTC", "USDT"⟩, .orders)], by decide⟩)
      [.connect .table .table 0,
        .runtime (.turn { body := .event (.book (.snap 10 [("1", "1")] [("2", "1")])) }),
        .runtime (.turn (.frame 20 21 [("1", "2")] [])), .runtime (.turn { body := .shutdown }),
        .joined .completed true, .drain, .flushed]).2
    = [(.requested, .subscribing), (.subscribing, .live), (.live, .resubscribing),
      (.resubscribing, .draining), (.draining, .closed)] := by
  decide

end FeedWorker

end Telemetry
