import Aetelier.Driver
import Aetelier.FrameworkWorker

/-!
# The teardown of a worker

A worker that leaves its loop waits for its upstream task to end, and three
of the workers keep the receiving end of their channel while they wait. If
the upstream task then waits in a send for room in that channel, neither goes
on: the send is made inside a select arm, out of reach of the shutdown
signal. (The framework path of the market worker drops its receiver first.)

There are two arrangements. The framework path of the data worker reads the
channel of a drive loop; the legacy paths of the data worker and of the market
worker read the channel of a pipeline stage, which reads the channel of the
ingestion core, and wait for the core. Each is a machine over the steps of a
schedule. Whether it wedges is a matter of room: it does not if, when the
worker leaves and whenever the task takes something up afterwards, what the
task holds fits into the channel (`teardown_never_wedges`), and it does, after
a few sends, if it does not fit (`DataWorkerSystem.wedges_of_not_fits`,
`LegacySystem.wedges_of_not_fits`).
-/

/-- Where the loop of a worker is. -/
inductive WorkerLoop where
  /-- In its loop. -/
  | looping
  /-- Waiting for the upstream task, to stop or to reconnect. -/
  | joining (stop : Bool)
  | ended
deriving DecidableEq, Repr

/-- The worker waits for the upstream task. -/
def WorkerLoop.isJoining : WorkerLoop → Bool
  | joining _ => true
  | _ => false

/-! ## The framework path of the data worker -/

variable {E : Type}

/-- **The data worker and its drive loop.** The worker holds the receiving end
of the loop's channel. -/
structure DataWorkerSystem (E : Type) where
  /-- The drive loop. -/
  driver : Driver E
  /-- The worker. -/
  worker : WorkerLoop
  /-- Shutdown is signalled. -/
  signalled : Bool

/-- A step of a schedule. -/
inductive DataWorkerStep (E : Type) where
  /-- Shutdown is signalled. -/
  | signal
  /-- The drive loop or its transport. -/
  | driver (i : DriverStep E)
  /-- The worker takes an event. -/
  | take
  /-- It is told to stop or to restart. -/
  | command
  /-- It sees shutdown. -/
  | seeShutdown
  /-- It finds the channel closed. -/
  | closed
  /-- The drive loop has ended, and the worker goes on. -/
  | joined

namespace DataWorkerSystem

variable (dc : DriverConfig E)

/-- The first connection. -/
def start : DataWorkerSystem E := ⟨.start, .looping, false⟩

/-- After the join: the end, or the next connection. -/
def afterJoin (s : DataWorkerSystem E) (stop : Bool) (exit : TaskExit) : DataWorkerSystem E :=
  if exit = .exhausted ∨ stop ∨ s.signalled then { s with worker := .ended }
  else { s with driver := .start, worker := .looping }

/-- **One step of the schedule.** A step that is not possible does nothing;
a connection gap is taken out of the channel and ends the loop. -/
def step (s : DataWorkerSystem E) (i : DataWorkerStep E) : DataWorkerSystem E × List Unit :=
  match i with
  | .signal => ({ s with signalled := true }, [])
  | .driver i => ({ s with driver := s.driver.step dc s.signalled false i }, [])
  | .take =>
    match s.worker, s.driver.out.queue with
    | .looping, ev :: _ =>
      ({ s with
          driver := { s.driver with out := s.driver.out.pop }
          worker := if ev matches .connectionGap _ then .joining false else .looping }, [])
    | _, _ => (s, [])
  | .command => if s.worker = .looping then ({ s with worker := .joining true }, []) else (s, [])
  | .seeShutdown =>
    if s.worker = .looping ∧ s.signalled then ({ s with worker := .joining true }, []) else (s, [])
  | .closed =>
    if s.worker = .looping ∧ s.driver.isOver ∧ s.driver.out.queue = [] then
      ({ s with worker := .joining false }, [])
    else (s, [])
  | .joined =>
    match s.worker, s.driver.phase with
    | .joining stop, .exited exit => (s.afterJoin stop exit, [])
    | _, _ => (s, [])

/-- The worker and the drive loop as a machine. -/
def machine : Machine (DataWorkerSystem E) (DataWorkerStep E) Unit := ⟨step dc⟩

/-- **A wedge**: the worker waits for the drive loop, and the loop waits for
room in the channel that the worker holds and does not read. -/
def Wedged (s : DataWorkerSystem E) : Prop :=
  s.worker.isJoining = true ∧ s.driver.isOver = false ∧ s.driver.out.Stuck dc.capacity

/-- **A step that leaves room**: when the worker leaves, what the drive loop
holds fits into the channel, and so does what it takes up later. -/
def Roomy (s : DataWorkerSystem E) : DataWorkerStep E → Prop
  | .take => s.worker = .looping → ∀ ev ∈ s.driver.out.queue.head?,
      (ev matches .connectionGap _) = true → s.driver.out.pop.Fits dc.capacity
  | .command => s.worker = .looping → s.driver.out.Fits dc.capacity
  | .seeShutdown => s.worker = .looping → s.signalled = true → s.driver.out.Fits dc.capacity
  | .driver .take => s.worker.isJoining = true → ∀ ev ∈ s.driver.next?,
      (s.driver.out.load (dc.normalize ev)).Fits dc.capacity
  | _ => True

variable {dc}

variable (dc) in
/-- While the worker waits for a drive loop that runs, what the loop holds
fits. -/
def Room (s : DataWorkerSystem E) : Prop :=
  s.worker.isJoining = true → s.driver.isOver = false → s.driver.out.Fits dc.capacity

theorem Room.not_wedged {s : DataWorkerSystem E} (h : Room dc s) : ¬ s.Wedged dc := by
  rintro ⟨hjoin, hover, hstuck⟩
  exact Outlet.not_stuck_of_fits (h hjoin hover) hstuck

theorem room_step (s : DataWorkerSystem E) (i : DataWorkerStep E) (h : Room dc s)
    (hi : s.Roomy dc i) : Room dc (s.step dc i).1 := by
  unfold step
  cases i with
  | signal => exact h
  | driver i =>
    intro hjoin hover
    have hbefore : s.driver.isOver = false := by
      refine Bool.eq_false_iff.mpr (fun hdone => ?_)
      exact Bool.noConfusion ((Driver.isOver_step hdone s.signalled false i).symm.trans hover)
    refine Driver.fits_step hover (h hjoin hbefore) (fun htake => ?_)
    subst htake
    exact hi hjoin
  | take =>
    dsimp only
    split
    · next ev rest hloop hqueue =>
      intro hjoin _
      refine hi hloop ev (by rw [hqueue]; rfl) ?_
      -- it left because of a connection gap
      by_contra hother
      rw [if_neg hother] at hjoin
      exact Bool.noConfusion hjoin
    · exact h
  | command =>
    dsimp only
    split
    · next hloop => exact fun _ _ => hi hloop
    · exact h
  | seeShutdown =>
    dsimp only
    split
    · next hsee => exact fun _ _ => hi hsee.1 hsee.2
    · exact h
  | closed =>
    dsimp only
    split
    · next hclosed =>
      intro _ hover
      exact Bool.noConfusion (hclosed.2.1.symm.trans hover)
    · exact h
  | joined =>
    dsimp only
    split
    · unfold afterJoin
      split <;> exact fun hjoin => Bool.noConfusion hjoin
    · exact h

/-- A run of sends. -/
theorem run_sends {s : DataWorkerSystem E} (hover : s.driver.isOver = false) (n : ℕ) :
    ((machine dc).run s (List.replicate n (.driver .send))).1
      = { s with driver :=
          { s.driver with out := (Outlet.push dc.capacity)^[n] s.driver.out } } := by
  induction n generalizing s with
  | zero => rfl
  | succ n ih =>
    have hsend : (s.step dc (.driver .send)).1
        = { s with driver := { s.driver with out := s.driver.out.push dc.capacity } } := by
      show { s with driver := s.driver.step dc s.signalled false .send } = _
      unfold Driver.step
      dsimp only
      by_cases hhand : s.driver.out.hand = []
      · rw [if_neg (fun h => h.2 hhand), Outlet.push_of_nil hhand]
      · rw [if_pos ⟨hover, hhand⟩, if_neg Bool.false_ne_true]
    rw [List.replicate_succ, Function.iterate_succ_apply]
    show ((machine dc).run (s.step dc (.driver .send)).1 _).1 = _
    rw [hsend]
    exact ih hover

/-- **What does not fit wedges**: sends alone lead there. -/
theorem wedges_of_not_fits {s : DataWorkerSystem E} (hjoin : s.worker.isJoining = true)
    (hover : s.driver.isOver = false) (hfits : ¬ s.driver.out.Fits dc.capacity)
    (hroom : s.driver.out.queue.length ≤ dc.capacity) :
    ∃ n, Wedged dc ((machine dc).run s (List.replicate n (.driver .send))).1 := by
  refine ⟨dc.capacity - s.driver.out.queue.length, ?_⟩
  rw [run_sends hover]
  exact ⟨hjoin, hover, Outlet.exists_stuck hfits hroom⟩

end DataWorkerSystem

/-! ## The legacy paths -/

/-- A message of the ingestion core: the topic and what arrived. -/
structure TopicMessage (P : Type) where
  /-- Topic. -/
  topic : String
  /-- Receipt time. -/
  receivedAtUs : ℕ
  /-- Name of the exchange. -/
  exchange : String
  /-- The event. -/
  payload : P

/-- **A pipeline stage**: what it forwards for a message of the core, and for
the result of the request it may have made. A result without an answer ends
the stage. -/
structure EventPipeline (M S R : Type) where
  /-- A message arrived. -/
  onMessage : S → M → S × List M
  /-- The request returned. -/
  onResult : S → R → Option (S × List M)
  /-- The stage watches the shutdown signal. -/
  watchesShutdown : Bool

/-- The state of the stage that initializes books. -/
inductive InitState (M : Type) where
  /-- Waiting for the snapshot. -/
  | buffering (buffer : List M)
  /-- Forwarding. -/
  | synced (lastUpdateId : ℕ)

/-- The result of the snapshot request. -/
inductive SnapshotResult (M : Type) where
  /-- A snapshot, as a message, and its id. -/
  | ok (snapshot : M) (lastUpdateId : ℕ)
  | failed
  | panicked

namespace EventPipeline

variable {P : Type}

/-- Forward everything. -/
def passthrough : EventPipeline (TopicMessage P) (InitState (TopicMessage P))
    (SnapshotResult (TopicMessage P)) where
  onMessage := fun s msg => (s, [msg])
  onResult := fun s _ => some (s, [])
  watchesShutdown := false

/-- Hold the book messages back until the snapshot is there, then forward it
and those it does not cover. -/
def bookInitializer (lastUpdateId : TopicMessage P → Option ℕ) (obTopic : String) :
    EventPipeline (TopicMessage P) (InitState (TopicMessage P))
      (SnapshotResult (TopicMessage P)) where
  onMessage := fun s msg =>
    if msg.topic ≠ obTopic then (s, [msg])
    else
      match s with
      | .buffering buffer => (.buffering (buffer ++ [msg]), [])
      | .synced id => (.synced ((lastUpdateId msg).getD id), [msg])
  onResult := fun s result =>
    match s, result with
    | .synced id, _ => some (.synced id, [])
    | .buffering buffer, .ok snapshot snapId =>
      some (.synced snapId,
        snapshot :: buffer.filter (fun msg => !(lastUpdateId msg).any (· ≤ snapId)))
    | .buffering buffer, .failed => some (.synced 0, buffer)
    | .buffering _, .panicked => none
  watchesShutdown := true

/-- The stage of an exchange: Binance, where books are enabled, needs the
initializer. -/
def build (lastUpdateId : TopicMessage P → Option ℕ) (binance orderbook : Bool) (depth : ℕ)
    (symbol : String) :
    EventPipeline (TopicMessage P) (InitState (TopicMessage P))
      (SnapshotResult (TopicMessage P)) :=
  if binance ∧ orderbook then
    bookInitializer lastUpdateId ("orderbook." ++ toString depth ++ "." ++ symbol)
  else passthrough

end EventPipeline

variable {M S R : Type}

/-- **A legacy worker, the pipeline stage and the ingestion core.** The worker
holds the receiving end of the stage's channel and waits for the core. -/
structure LegacySystem (M S : Type) where
  /-- The core's channel to the stage. -/
  core : Outlet M
  /-- The core has ended. -/
  coreOver : Bool
  /-- The state of the stage. -/
  stage : S
  /-- The stage's channel to the worker. -/
  pipe : Outlet M
  /-- The stage has ended. -/
  pipeOver : Bool
  /-- The worker. -/
  worker : WorkerLoop
  /-- Shutdown is signalled. -/
  signalled : Bool

/-- A step of a schedule. -/
inductive LegacyStep (M R : Type) where
  /-- Shutdown is signalled. -/
  | signal
  /-- The core takes up an event, as a message for each of its topics. -/
  | coreTake (messages : List M)
  /-- The core sends one. -/
  | coreSend
  /-- The core sees shutdown or gives up. -/
  | coreEnd
  /-- The stage takes a message. -/
  | pipeTake
  /-- The request of the stage returns. -/
  | pipeResult (result : R)
  /-- The stage sends. -/
  | pipeSend
  /-- The stage finds its input closed, or sees shutdown. -/
  | pipeEnd
  /-- The worker takes a message. -/
  | take
  /-- It is told to stop or to restart. -/
  | command
  /-- It finds the channel closed. -/
  | closed
  /-- The core has ended, and the worker returns. -/
  | joined

namespace LegacySystem

variable (p : EventPipeline M S R) (capacity : ℕ)

/-- The start of the three tasks. -/
def start (stage : S) : LegacySystem M S :=
  ⟨.empty, false, stage, .empty, false, .looping, false⟩

/-- The stage takes something up. -/
def takeUp (s : LegacySystem M S) (r : S × List M) : LegacySystem M S :=
  { s with stage := r.1, pipe := s.pipe.load r.2 }

/-- **One step of the schedule.** A step that is not possible does
nothing. -/
def step (s : LegacySystem M S) (i : LegacyStep M R) : LegacySystem M S × List Unit :=
  match i with
  | .signal => ({ s with signalled := true }, [])
  | .coreTake messages =>
    if s.coreOver = false ∧ s.core.hand = [] then ({ s with core := s.core.load messages }, [])
    else (s, [])
  | .coreSend =>
    if s.coreOver = false ∧ s.core.hand ≠ [] then
      if s.pipeOver then ({ s with coreOver := true, core := { s.core with hand := [] } }, [])
      else ({ s with core := s.core.push capacity }, [])
    else (s, [])
  | .coreEnd => if s.core.hand = [] then ({ s with coreOver := true }, []) else (s, [])
  | .pipeTake =>
    if s.pipeOver = false ∧ s.pipe.hand = [] then
      match s.core.queue with
      | msg :: _ => ({ s with core := s.core.pop }.takeUp (p.onMessage s.stage msg), [])
      | [] => (s, [])
    else (s, [])
  | .pipeResult result =>
    if s.pipeOver = false ∧ s.pipe.hand = [] then
      match p.onResult s.stage result with
      | some r => (s.takeUp r, [])
      | none => ({ s with pipeOver := true }, [])
    else (s, [])
  | .pipeSend =>
    if s.pipeOver = false ∧ s.pipe.hand ≠ [] then
      if s.worker = .ended then
        ({ s with pipeOver := true, pipe := { s.pipe with hand := [] } }, [])
      else ({ s with pipe := s.pipe.push capacity }, [])
    else (s, [])
  | .pipeEnd =>
    if s.pipe.hand = [] ∧
        (s.coreOver ∧ s.core.queue = [] ∨ p.watchesShutdown ∧ s.signalled) then
      ({ s with pipeOver := true }, [])
    else (s, [])
  | .take => if s.worker = .looping then ({ s with pipe := s.pipe.pop }, []) else (s, [])
  | .command => if s.worker = .looping then ({ s with worker := .joining true }, []) else (s, [])
  | .closed =>
    if s.worker = .looping ∧ s.pipeOver ∧ s.pipe.queue = [] then
      ({ s with worker := .joining true }, [])
    else (s, [])
  | .joined =>
    if s.worker.isJoining ∧ s.coreOver then ({ s with worker := .ended }, []) else (s, [])

/-- The three tasks as a machine. -/
def machine : Machine (LegacySystem M S) (LegacyStep M R) Unit := ⟨step p capacity⟩

/-- **A wedge**: the worker waits for the core, and the stage waits for room in
the channel that the worker holds and does not read. -/
def Wedged (s : LegacySystem M S) : Prop :=
  s.worker.isJoining = true ∧ s.coreOver = false ∧ s.pipeOver = false ∧ s.pipe.Stuck capacity

/-- **A step that leaves room**: when the worker leaves, what the stage holds
fits into the channel, and so does what it takes up later. -/
def Roomy (s : LegacySystem M S) : LegacyStep M R → Prop
  | .command => s.worker = .looping → s.pipe.Fits capacity
  | .pipeTake => s.worker.isJoining = true → s.pipe.hand = [] → ∀ msg ∈ s.core.queue.head?,
      (s.pipe.load (p.onMessage s.stage msg).2).Fits capacity
  | .pipeResult result => s.worker.isJoining = true → s.pipe.hand = [] →
      ∀ r ∈ p.onResult s.stage result, (s.pipe.load r.2).Fits capacity
  | _ => True

variable {p capacity}

variable (capacity) in
/-- While the worker waits and the stage runs, what the stage holds fits. -/
def Room (s : LegacySystem M S) : Prop :=
  s.worker.isJoining = true → s.pipeOver = false → s.pipe.Fits capacity

theorem Room.not_wedged {s : LegacySystem M S} (h : Room capacity s) : ¬ s.Wedged capacity := by
  rintro ⟨hjoin, -, hover, hstuck⟩
  exact Outlet.not_stuck_of_fits (h hjoin hover) hstuck

theorem room_step (s : LegacySystem M S) (i : LegacyStep M R) (h : Room capacity s)
    (hi : s.Roomy p capacity i) : Room capacity (s.step p capacity i).1 := by
  unfold step
  cases i with
  | signal => exact h
  | coreTake messages =>
    dsimp only
    split <;> exact h
  | coreSend =>
    dsimp only
    split
    · split <;> exact h
    · exact h
  | coreEnd =>
    dsimp only
    split <;> exact h
  | pipeTake =>
    dsimp only
    split
    · next hfree =>
      split
      · next msg rest hqueue =>
        exact fun hjoin _ => hi hjoin hfree.2 msg (by rw [hqueue]; rfl)
      · exact h
    · exact h
  | pipeResult result =>
    dsimp only
    split
    · next hfree =>
      split
      · next r hresult => exact fun hjoin _ => hi hjoin hfree.2 r hresult
      · exact fun _ hover => Bool.noConfusion hover
    · exact h
  | pipeSend =>
    dsimp only
    split
    · split
      · exact fun _ hover => Bool.noConfusion hover
      · exact fun hjoin hover => Outlet.fits_push (h hjoin hover)
    · exact h
  | pipeEnd =>
    dsimp only
    split
    · exact fun _ hover => Bool.noConfusion hover
    · exact h
  | take =>
    dsimp only
    split
    · next hloop =>
      intro hjoin
      have hloop' : s.worker.isJoining = true := hjoin
      rw [hloop] at hloop'
      exact Bool.noConfusion hloop'
    · exact h
  | command =>
    dsimp only
    split
    · next hloop => exact fun _ _ => hi hloop
    · exact h
  | closed =>
    dsimp only
    split
    · next hclosed => exact fun _ hover => Bool.noConfusion (hclosed.2.1.symm.trans hover)
    · exact h
  | joined =>
    dsimp only
    split
    · exact fun hjoin => Bool.noConfusion hjoin
    · exact h

/-- A run of sends. -/
theorem run_sends {s : LegacySystem M S} (hjoin : s.worker.isJoining = true)
    (hover : s.pipeOver = false) (n : ℕ) :
    ((machine p capacity).run s (List.replicate n .pipeSend)).1
      = { s with pipe := (Outlet.push capacity)^[n] s.pipe } := by
  induction n generalizing s with
  | zero => rfl
  | succ n ih =>
    have hheld : s.worker ≠ .ended := by
      intro hend
      rw [hend] at hjoin
      exact Bool.noConfusion hjoin
    have hsend : (s.step p capacity .pipeSend).1 = { s with pipe := s.pipe.push capacity } := by
      unfold step
      dsimp only
      by_cases hhand : s.pipe.hand = []
      · rw [if_neg (fun h => h.2 hhand), Outlet.push_of_nil hhand]
      · rw [if_pos ⟨hover, hhand⟩, if_neg hheld]
    rw [List.replicate_succ, Function.iterate_succ_apply]
    show ((machine p capacity).run (s.step p capacity .pipeSend).1 _).1 = _
    rw [hsend]
    exact ih hjoin hover

/-- **What does not fit wedges**: sends alone lead there. -/
theorem wedges_of_not_fits {s : LegacySystem M S} (hjoin : s.worker.isJoining = true)
    (hcore : s.coreOver = false) (hover : s.pipeOver = false) (hfits : ¬ s.pipe.Fits capacity)
    (hroom : s.pipe.queue.length ≤ capacity) :
    ∃ n, Wedged capacity ((machine p capacity).run s (List.replicate n .pipeSend)).1 := by
  refine ⟨capacity - s.pipe.queue.length, ?_⟩
  rw [run_sends hjoin hover]
  exact ⟨hjoin, hcore, hover, Outlet.exists_stuck hfits hroom⟩

end LegacySystem

/-- **Teardown does not wedge where there is room.** For every channel
capacity and in every state that a schedule of the worker and its upstream
tasks reaches, if each step so far has left room: the framework path of the
data worker, with any normalizer, and the legacy paths of both workers, with
any pipeline stage. -/
theorem teardown_never_wedges {M S R : Type} (dc : DriverConfig E)
    (steps : List (DataWorkerStep E)) (p : EventPipeline M S R) (capacity : ℕ) (stage : S)
    (legacySteps : List (LegacyStep M R)) :
    ((DataWorkerSystem.machine dc).Meets (fun s i => s.Roomy dc i) .start steps →
      ¬ DataWorkerSystem.Wedged dc ((DataWorkerSystem.machine dc).run .start steps).1) ∧
    ((LegacySystem.machine p capacity).Meets (fun s i => s.Roomy p capacity i) (.start stage)
        legacySteps →
      ¬ LegacySystem.Wedged capacity
        ((LegacySystem.machine p capacity).run (.start stage) legacySteps).1) := by
  constructor
  · intro hsteps
    exact ((DataWorkerSystem.machine dc).forall_of_invariant (I := DataWorkerSystem.Room dc)
      (Q := fun _ => True)
      (fun s i h hi => ⟨DataWorkerSystem.room_step s i h hi, fun _ _ => trivial⟩)
      (fun hjoin => Bool.noConfusion hjoin) hsteps).1.not_wedged
  · intro hsteps
    exact ((LegacySystem.machine p capacity).forall_of_invariant (I := LegacySystem.Room capacity)
      (Q := fun _ => True)
      (fun s i h hi => ⟨LegacySystem.room_step s i h hi, fun _ _ => trivial⟩)
      (fun hjoin => Bool.noConfusion hjoin) hsteps).1.not_wedged

/-! ## A sample -/

section Sample

open FrameworkWorker (btcPrint)

/-- A channel for one event. -/
def oneSlot : DriverConfig DomainEvent := ⟨fun ev => [ev], defaultRawBuffer, 1⟩

/-- Two prints are decoded and the worker is told to stop before it takes the
first. -/
def stopWhileFull : List (DataWorkerStep DomainEvent) :=
  [.driver (.decode (.trade (btcPrint "7") none)), .driver (.decode (.trade (btcPrint "8") none)),
    .driver .take, .driver .send, .driver .take, .command]

/-- **The worker and the drive loop wait for each other.** -/
theorem wedged_by_stop :
    DataWorkerSystem.Wedged oneSlot
      ((DataWorkerSystem.machine oneSlot).run .start stopWhileFull).1 := by
  refine ⟨rfl, rfl, List.cons_ne_nil _ _, ?_⟩
  decide

/-- One print is decoded, and the worker is told to stop while the loop holds
it. -/
def stopWithRoom : List (DataWorkerStep DomainEvent) :=
  [.driver (.decode (.trade (btcPrint "7") none)), .driver .take, .command, .driver .send]

/-- The pipeline of one symbol. -/
abbrev btcPipeline : EventPipeline (TopicMessage Unit) (InitState (TopicMessage Unit))
    (SnapshotResult (TopicMessage Unit)) :=
  EventPipeline.build (fun _ => none) false true 50 "BTCUSDT"

/-- The same with the ingestion core and its pipeline. -/
def legacyStopWithRoom :
    List (LegacyStep (TopicMessage Unit) (SnapshotResult (TopicMessage Unit))) :=
  [.coreTake [⟨"trade.all.BTCUSDT", 0, "bybit", ()⟩], .coreSend, .pipeTake, .command, .pipeSend]

/-- The worker is told to stop when there is room for what the loop holds. -/
theorem not_wedged_with_room :
    ¬ DataWorkerSystem.Wedged oneSlot
        ((DataWorkerSystem.machine oneSlot).run .start stopWithRoom).1 ∧
      ¬ LegacySystem.Wedged 1
        ((LegacySystem.machine btcPipeline 1).run (.start (.synced 0)) legacyStopWithRoom).1 := by
  obtain ⟨hdata, hlegacy⟩ :=
    teardown_never_wedges oneSlot stopWithRoom btcPipeline 1 (.synced 0) legacyStopWithRoom
  refine ⟨hdata ?_, hlegacy ?_⟩
  · refine ⟨trivial, fun hjoin => Bool.noConfusion hjoin, fun _ => ?_, trivial, trivial⟩
    show 0 + 1 ≤ 1
    exact le_refl 1
  · refine ⟨trivial, trivial, fun hjoin => Bool.noConfusion hjoin, fun _ => ?_, trivial, trivial⟩
    show 0 + 1 ≤ 1
    exact le_refl 1

end Sample
