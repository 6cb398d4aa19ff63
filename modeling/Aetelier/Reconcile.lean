import Aetelier.FrameworkWorker

/-!
# The reconcile task

Beside the worker runs a task that repairs gaps over REST. The worker sends
it a trigger when a gap incident closes, that is, while it handles the first
event of the new connection; the task then reads the last position the
worker has noted for the pair and fetches what the venue traded after it. The
position lives in a map the two share: the very handler that sent the
trigger, if its event is a trade, and every later print move it on. So the
fetch is anchored where the gap opened only if no print moves the position
between the opening of the gap and the read (`ReconcileSystem.anchored`);
otherwise the prints lost in the gap are not asked for.

The two tasks are one machine whose inputs are the steps of a schedule. The
handling of an event is two steps, since the other task may run between the
trigger and the delivery. Ghosts that no transition reads are the last print
delivered, as the calls of the synchronizer tell it, and the anchors of the
incidents: the print that was the last when the gap opened goes with the gap,
with its trigger and with the fetch it causes.
-/

/-- Room in the trigger channel. -/
def triggerCapacity : ℕ := 4

/-- Room in the channel of recovered prints. -/
def recoveredCapacity : ℕ := 1024

/-- The last print that was delivered before an incident, if any was; it is
where the incident should be repaired from. -/
abbrev Anchor := Option TradePos

/-- What the reconcile task is doing. The ghost is the anchor of the incident
it is busy with, none for a periodic sweep. -/
inductive ReconcileTask where
  /-- Waiting for a trigger, a sweep or shutdown. -/
  | idle
  /-- Awake, the position not read yet. -/
  | woken (incident : Option Anchor)
  /-- Fetching what was traded after a position. -/
  | fetching (incident : Option Anchor) (pos : TradePos)
  /-- Handing recovered prints to the worker. -/
  | sending (trades : List Trade)
  | ended
deriving DecidableEq

/-- **The worker and its reconcile task.** -/
structure ReconcileSystem where
  /-- The worker. -/
  worker : FrameworkWorker
  /-- The event the worker is handling: the gap is closed, the event not yet
  delivered. -/
  handling : Option ReconstructedEvent
  /-- The last print of the pair that was delivered. -/
  lastPrint : Anchor
  /-- The anchor of the open gap window. -/
  gapAnchor : Anchor
  /-- The triggers in the channel, with the anchors of their incidents. -/
  triggers : List Anchor
  /-- The task. -/
  task : ReconcileTask
  /-- The recovered prints in the channel. -/
  recovered : List Trade

/-- A step of a schedule. -/
inductive ReconcileStep where
  /-- The worker takes something other than an event or a recovered print. -/
  | worker (input : WorkerInput)
  /-- The worker takes an event and closes the gap. -/
  | arrive (ev : ReconstructedEvent) (nowUs : ℕ)
  /-- The worker delivers the event it has taken. -/
  | deliver
  /-- The worker takes a recovered print. -/
  | takeRecovered
  /-- The task takes a trigger. -/
  | wake
  /-- The sweep wakes the task. -/
  | sweep
  /-- The task reads the position. -/
  | read
  /-- The fetch returns. -/
  | fetched (result : Except String (List Trade))
  /-- The task hands a print over. -/
  | send
  /-- The task sees shutdown. -/
  | shutdown

/-- What is observed of the task. -/
inductive ReconcileEffect where
  /-- It read a position, for an incident or a sweep. -/
  | read (incident : Option Anchor) (pos : Anchor)
  /-- It fetched trades, for an incident or a sweep. -/
  | fetched (incident : Option Anchor) (trades : List Trade)
deriving DecidableEq

namespace ReconcileSystem

variable (cfg : WorkerConfig) (pair : TradingPair)

/-- The position the worker has noted for the pair. -/
def noted (s : ReconcileSystem) : Anchor := s.worker.lastPos.get? pair

/-- Before the first connection. The task is spawned only where the worker
reconciles. -/
def start (hasher : RandomState TradingPair) : ReconcileSystem where
  worker := FrameworkWorker.start cfg hasher
  handling := none
  lastPrint := none
  gapAnchor := none
  triggers := []
  task := if cfg.reconcileActive then .idle else .ended
  recovered := []

/-- A live print that is handed over is the last one, if its id is a number. -/
def afterLive (last : Anchor) : WorkerEffect → Anchor
  | .call (.onTrade t) =>
    if t.pair = pair then ((parseU64 t.id).map (⟨·, t.sourceTradeTsUs⟩)).or last else last
  | _ => last

/-- A recovered print that is handed over is the last one if its id is past that of the
last. -/
def afterRecovered (last : Anchor) : WorkerEffect → Anchor
  | .call (.onTrade t) =>
    if t.pair = pair ∧ (last.getD {}).id < (parseU64 t.id).getD 0 then
      some ⟨(parseU64 t.id).getD 0, t.sourceTradeTsUs⟩
    else last
  | _ => last

/-- The worker takes an input that is no event and no recovered print. A gap
that opens is given the last print delivered. -/
def stepWorker (s : ReconcileSystem) (input : WorkerInput) : ReconcileSystem :=
  match input with
  | .event .. | .recovered .. => s
  | _ =>
    let w := (s.worker.step cfg input).1
    { s with
      worker := w
      gapAnchor :=
        if s.worker.gapOpen = none ∧ w.gapOpen ≠ none then s.lastPrint else s.gapAnchor }

/-- A trigger was sent. -/
def isTrigger : WorkerEffect → Bool
  | .trigger => true
  | _ => false

/-- The worker takes an event: the gap closes, and the trigger goes into the
channel if it has room. -/
def stepArrive (s : ReconcileSystem) (ev : ReconstructedEvent) (nowUs : ℕ) : ReconcileSystem :=
  let r := s.worker.arrive cfg nowUs
  { s with
    worker := r.1
    handling := some ev
    triggers :=
      if r.2.any isTrigger ∧ s.triggers.length < triggerCapacity then s.triggers ++ [s.gapAnchor]
      else s.triggers }

/-- The task reads the position; without one there is nothing to fetch
after. -/
def stepRead (s : ReconcileSystem) (incident : Option Anchor) :
    ReconcileSystem × List ReconcileEffect :=
  ({ s with
      task := match s.noted pair with
        | some pos => .fetching incident pos
        | none => .idle },
    [.read incident (s.noted pair)])

/-- **One step of the schedule.** A step that is not possible does
nothing. -/
def step (s : ReconcileSystem) : ReconcileStep → ReconcileSystem × List ReconcileEffect
  | .worker input => if s.handling.isSome then (s, []) else (s.stepWorker cfg input, [])
  | .arrive ev nowUs =>
    if s.handling.isSome ∨ s.worker.ended then (s, []) else (s.stepArrive cfg ev nowUs, [])
  | .deliver =>
    match s.handling with
    | none => (s, [])
    | some ev =>
      let r := s.worker.handle cfg ev
      ({ s with
          worker := r.1
          handling := none
          lastPrint := r.2.foldl (afterLive pair) s.lastPrint }, [])
  | .takeRecovered =>
    match s.recovered with
    | [] => (s, [])
    | t :: rest =>
      if s.handling.isSome ∨ s.worker.ended then (s, [])
      else
        let r := s.worker.onRecovered t
        ({ s with
            worker := r.1
            recovered := rest
            lastPrint := r.2.foldl (afterRecovered pair) s.lastPrint }, [])
  | .wake =>
    match s.task, s.triggers with
    | .idle, anchor :: rest => ({ s with task := .woken (some anchor), triggers := rest }, [])
    | _, _ => (s, [])
  | .sweep =>
    match s.task with
    | .idle => ({ s with task := .woken none }, [])
    | _ => (s, [])
  | .read =>
    match s.task with
    | .woken incident => s.stepRead pair incident
    | _ => (s, [])
  | .fetched result =>
    match s.task, result with
    | .fetching incident _, .ok trades =>
      ({ s with task := .sending trades }, [.fetched incident trades])
    | .fetching _ _, .error _ => ({ s with task := .idle }, [])
    | _, _ => (s, [])
  | .send =>
    match s.task with
    | .sending [] => ({ s with task := .idle }, [])
    | .sending (t :: rest) =>
      if s.recovered.length < recoveredCapacity then
        ({ s with task := .sending rest, recovered := s.recovered ++ [t] }, [])
      else (s, [])
    | _ => (s, [])
  | .shutdown =>
    match s.task with
    | .idle => ({ s with task := .ended }, [])
    | _ => (s, [])

/-- The two tasks as a machine. -/
def machine : Machine ReconcileSystem ReconcileStep ReconcileEffect := ⟨step cfg pair⟩

/-! ## The prints that move the position -/

/-- The position a live event notes for the pair: that of a trade with a
numeric id, unless the worker is paused or the replay filter knows it. -/
def livePos (w : FrameworkWorker) : ReconstructedEvent → Option TradePos
  | .trade t =>
    if w.paused = false ∧ cfg.reconcileActive ∧ t.pair = pair then
      match parseU64 t.id, w.seenTradeIds with
      | some idn, some seen =>
        if idn ∈ seen.order then none else some ⟨idn, t.sourceTradeTsUs⟩
      | some idn, none => some ⟨idn, t.sourceTradeTsUs⟩
      | none, _ => none
    else none
  | _ => none

/-- The position a recovered print notes for the pair: its own, if its id was
not delivered lately and is past the position noted. -/
def recoveredPos (w : FrameworkWorker) (t : Trade) : Option TradePos :=
  let idn := (parseU64 t.id).getD 0
  if w.paused ∨ t.pair ≠ pair ∨ idn ∈ w.recentIds ∨
      idn ≤ ((w.lastPos.get? pair).getD {}).id then none
  else some ⟨idn, t.sourceTradeTsUs⟩

/-- **A print moves the position**: the worker delivers a live event, or takes
a recovered print, that notes another one. -/
def Moves (s : ReconcileSystem) : ReconcileStep → Prop
  | .deliver => ∃ ev pos, s.handling = some ev ∧ livePos cfg pair s.worker ev = some pos ∧
      s.noted pair ≠ some pos
  | .takeRecovered => s.handling = none ∧ s.worker.ended = false ∧
      ∃ t rest pos, s.recovered = t :: rest ∧ recoveredPos pair s.worker t = some pos
  | _ => False

variable {cfg pair}

theorem lastPos_deliverLive (w : FrameworkWorker) (t : Trade) :
    (w.deliverLive cfg t).1.lastPos.get? pair
      = if cfg.reconcileActive ∧ t.pair = pair then
          ((parseU64 t.id).map (⟨·, t.sourceTradeTsUs⟩)).or (w.lastPos.get? pair)
        else w.lastPos.get? pair := by
  unfold FrameworkWorker.deliverLive
  cases cfg.reconcileActive with
  | false => simp
  | true =>
    cases parseU64 t.id with
    | none => simp
    | some idn => simp [eq_comm]

/-- A live event notes its position, or leaves the one noted. -/
theorem lastPos_handle (w : FrameworkWorker) (ev : ReconstructedEvent) :
    (w.handle cfg ev).1.lastPos.get? pair
      = (livePos cfg pair w ev).or (w.lastPos.get? pair) := by
  unfold FrameworkWorker.handle livePos
  cases hpaused : w.paused with
  | true => cases ev <;> simp
  | false =>
    cases ev with
    | trade t =>
      simp only [Bool.false_eq_true, if_false, true_and]
      unfold FrameworkWorker.onLiveTrade
      by_cases hnotes : cfg.reconcileActive = true ∧ t.pair = pair
      · cases hid : parseU64 t.id with
        | none => cases w.seenTradeIds <;> simp [lastPos_deliverLive, hid]
        | some idn =>
          cases w.seenTradeIds with
          | none => simp [lastPos_deliverLive, hid, hnotes]
          | some seen =>
            by_cases hmem : idn ∈ seen.order
            · simp [SeenTradeIds.insert, hmem]
            · simp [SeenTradeIds.insert, hmem, lastPos_deliverLive, hid, hnotes]
      · rw [if_neg hnotes]
        split
        · dsimp only
          split
          · simp [lastPos_deliverLive, hnotes]
          · rfl
        · simp [lastPos_deliverLive, hnotes]
    | _ => rfl

/-- A recovered print likewise. -/
theorem lastPos_onRecovered (w : FrameworkWorker) (t : Trade) :
    (w.onRecovered t).1.lastPos.get? pair
      = (recoveredPos pair w t).or (w.lastPos.get? pair) := by
  unfold FrameworkWorker.onRecovered recoveredPos
  generalize (parseU64 t.id).getD 0 = idn
  by_cases hdrop : w.paused = true ∨ idn ≠ 0 ∧ idn ∈ w.recentIds
  · rw [if_pos hdrop, if_pos]
    · rfl
    · rcases hdrop with h | h
      · exact Or.inl h
      · exact Or.inr (Or.inr (Or.inl h.2))
  · rw [if_neg hdrop]
    obtain ⟨hpaused, hnew⟩ := not_or.mp hdrop
    by_cases hzero : idn = 0
    · simp [hzero]
    · have hmem : idn ∉ w.recentIds := fun h => hnew ⟨hzero, h⟩
      rw [if_neg hzero]
      by_cases hpair : t.pair = pair
      · subst hpair
        by_cases hlt : ((w.lastPos.get? t.pair).getD {}).id < idn
        · simp [hpaused, hmem, hlt, not_le.mpr hlt]
        · -- the entry is there, since its id is positive, and is written back
          cases hget : w.lastPos.get? t.pair with
          | none =>
            rw [hget] at hlt
            exact absurd (Nat.pos_of_ne_zero hzero) hlt
          | some pos =>
            have hle : idn ≤ pos.id := by simpa [hget] using hlt
            simp [hle, not_lt.mpr hle]
      · have hne : pair ≠ t.pair := fun h => hpair h.symm
        rw [if_pos (Or.inr (Or.inl hpair)), Option.none_or]
        dsimp only
        split <;> simp [hne]

/-- **What a live event delivers is what is noted**, where the worker reconciles. -/
theorem afterLive_handle (hactive : cfg.reconcileActive = true) (w : FrameworkWorker)
    (ev : ReconstructedEvent) :
    (w.handle cfg ev).2.foldl (afterLive pair) (w.lastPos.get? pair)
      = (w.handle cfg ev).1.lastPos.get? pair := by
  have hdrain : ∀ last, (FrameworkWorker.drainAndEmit cfg).foldl (afterLive pair) last = last := by
    intro last
    unfold FrameworkWorker.drainAndEmit
    split <;> rfl
  have hdeliver : ∀ (w : FrameworkWorker) (t : Trade),
      ((w.deliverLive cfg t).2 ++ FrameworkWorker.drainAndEmit cfg).foldl (afterLive pair)
          (w.lastPos.get? pair)
        = (w.deliverLive cfg t).1.lastPos.get? pair := by
    intro w t
    have hcall : (w.deliverLive cfg t).2 = [.call (.onTrade t)] := by
      unfold FrameworkWorker.deliverLive
      split <;> rfl
    rw [List.foldl_append, hdrain, hcall, lastPos_deliverLive]
    simp only [List.foldl_cons, List.foldl_nil, afterLive, hactive, true_and]
  unfold FrameworkWorker.handle
  split
  · rfl
  · cases ev with
    | trade t =>
      dsimp only
      unfold FrameworkWorker.onLiveTrade
      split
      · next seen tid _ _ =>
        dsimp only
        split
        · exact hdeliver { w with seenTradeIds := some (seen.insert tid).1 } t
        · rfl
      · exact hdeliver w t
    | _ => exact hdrain _

/-- And so is what a recovered print delivers. -/
theorem afterRecovered_onRecovered (w : FrameworkWorker) (t : Trade) :
    (w.onRecovered t).2.foldl (afterRecovered pair) (w.lastPos.get? pair)
      = (w.onRecovered t).1.lastPos.get? pair := by
  unfold FrameworkWorker.onRecovered
  generalize hidn : (parseU64 t.id).getD 0 = idn
  by_cases hdrop : w.paused = true ∨ idn ≠ 0 ∧ idn ∈ w.recentIds
  · rw [if_pos hdrop]
    rfl
  · rw [if_neg hdrop]
    dsimp only
    rw [List.foldl_cons, List.foldl_nil]
    unfold afterRecovered
    dsimp only
    rw [hidn]
    by_cases hpair : t.pair = pair
    · subst hpair
      by_cases hlt : ((w.lastPos.get? t.pair).getD {}).id < idn
      · rw [if_pos ⟨rfl, hlt⟩, if_neg (Nat.ne_zero_of_lt hlt), if_pos hlt,
          HashMap.get?_insert, if_pos rfl]
      · rw [if_neg fun h => hlt h.2]
        split
        · rfl
        · next hzero =>
          -- the entry is there, since the id is positive, and is written back
          dsimp only
          rw [HashMap.get?_insert, if_pos rfl]
          cases hget : w.lastPos.get? t.pair with
          | none =>
            rw [hget] at hlt
            exact absurd (Nat.pos_of_ne_zero hzero) hlt
          | some pos => rfl
    · rw [if_neg fun h => hpair h.1]
      split
      · rfl
      · dsimp only
        split <;> rw [HashMap.get?_insert, if_neg (Ne.symm hpair)]

theorem lastPos_stepWorker (s : ReconcileSystem) (input : WorkerInput) :
    (s.stepWorker cfg input).worker.lastPos = s.worker.lastPos := by
  unfold stepWorker
  cases input with
  | event => rfl
  | recovered => rfl
  | timer =>
    dsimp only
    unfold FrameworkWorker.step
    split
    · rfl
    · dsimp only
      split <;> rfl
  | connectionLost =>
    dsimp only
    unfold FrameworkWorker.step
    split
    · rfl
    · dsimp only
      unfold FrameworkWorker.openGap
      split <;> rfl
  | _ =>
    dsimp only
    unfold FrameworkWorker.step
    split <;> rfl

theorem lastPos_arrive (w : FrameworkWorker) (nowUs : ℕ) :
    (w.arrive cfg nowUs).1.lastPos = w.lastPos := by
  unfold FrameworkWorker.arrive
  split
  · rfl
  · split <;> rfl

/-- A recovered print that notes a position notes another one. -/
theorem recoveredPos_ne {w : FrameworkWorker} {t : Trade} {pos : TradePos}
    (h : recoveredPos pair w t = some pos) : w.lastPos.get? pair ≠ some pos := by
  intro hget
  unfold recoveredPos at h
  rw [hget] at h
  simp only [Option.getD_some] at h
  split at h
  · exact absurd h (Option.some_ne_none pos).symm
  · next hnew =>
    -- its id is past that of the position, which is its own
    have hid : (parseU64 t.id).getD 0 = pos.id := congrArg TradePos.id (Option.some.inj h)
    exact hnew (Or.inr (Or.inr (Or.inr hid.le)))

/-- **Only such a print moves the position.** -/
theorem moves_iff (s : ReconcileSystem) (i : ReconcileStep) :
    s.Moves cfg pair i ↔ (s.step cfg pair i).1.noted pair ≠ s.noted pair := by
  unfold Moves step
  cases i with
  | worker input =>
    dsimp only
    split
    · simp
    · simp [noted, lastPos_stepWorker]
  | arrive ev nowUs =>
    dsimp only
    split
    · simp
    · simp [noted, stepArrive, lastPos_arrive]
  | deliver =>
    cases hev : s.handling with
    | none => simp
    | some ev =>
      -- a live print is noted where it is not the one already there
      simp only [noted, lastPos_handle, Option.some.injEq]
      cases hpos : livePos cfg pair s.worker ev with
      | none => simp [hpos]
      | some pos => simp [hpos, eq_comm]
  | takeRecovered =>
    cases hrec : s.recovered with
    | nil => simp
    | cons t rest =>
      dsimp only
      split
      · next hbusy =>
        -- the worker is at another event, or has ended
        refine ⟨fun h => ?_, fun h => absurd rfl h⟩
        rcases hbusy with hbusy | hbusy
        · rw [h.1] at hbusy
          exact Bool.noConfusion hbusy
        · rw [h.2.1] at hbusy
          exact Bool.noConfusion hbusy
      · next hfree =>
        have hhandling : s.handling = none := by
          simpa using fun h => hfree (Or.inl h)
        have hended : s.worker.ended = false := by
          simpa using fun h => hfree (Or.inr h)
        simp only [noted, lastPos_onRecovered, List.cons.injEq, hhandling, hended, true_and]
        cases hpos : recoveredPos pair s.worker t with
        | none => simp [hpos]
        | some pos => simpa [hpos] using (recoveredPos_ne hpos).symm
  | send =>
    dsimp only
    split
    · simp [noted]
    · split <;> simp [noted]
    · simp
  | _ =>
    dsimp only
    split <;> simp [stepRead, noted]

/-! ## When a fetch is anchored where its gap opened -/

/-- An incident waits for its read: its gap is open, its trigger is in the
channel, or the task is awake for it. -/
def Awaited (s : ReconcileSystem) : Prop :=
  s.worker.gapOpen ≠ none ∨ s.triggers ≠ [] ∨ ∃ anchor, s.task = .woken (some anchor)

variable (cfg pair) in
/-- **The position stands still** while an incident waits for its read: no
print that is delivered moves it. -/
def Still (s : ReconcileSystem) (i : ReconcileStep) : Prop :=
  s.Awaited → ¬ s.Moves cfg pair i

/-- What a fetch returns: every trade of the venue after the position it is
anchored at. -/
def Complete (traded : Trade → Prop) (after : TradePos → Trade → Prop) (s : ReconcileSystem) :
    ReconcileStep → Prop
  | .fetched (.ok trades) => ∀ incident pos, s.task = .fetching incident pos →
      ∀ t, traded t → after pos t → t ∈ trades
  | _ => True

/-- **An anchored observation**: a read for an incident finds the position
noted when the gap opened, and a fetch for an incident returns every trade of
the venue after it. -/
def Anchored (traded : Trade → Prop) (after : TradePos → Trade → Prop) : ReconcileEffect → Prop
  | .read (some anchor) pos => pos = anchor
  | .fetched (some anchor) trades => ∃ pos, anchor = some pos ∧
      ∀ t, traded t → after pos t → t ∈ trades
  | _ => True

variable (pair) in
/-- **The position noted is that of the last print delivered**, and so is every anchor that
waits; a fetch under way for an incident is anchored there. -/
structure AnchorsKept (s : ReconcileSystem) : Prop where
  last : s.lastPrint = s.noted pair
  gap : s.worker.gapOpen ≠ none → s.gapAnchor = s.noted pair
  triggers : ∀ anchor ∈ s.triggers, anchor = s.noted pair
  woken : ∀ anchor, s.task = .woken (some anchor) → anchor = s.noted pair
  fetching : ∀ anchor pos, s.task = .fetching (some anchor) pos → anchor = some pos

theorem anchorsKept_start (hasher : RandomState TradingPair) :
    AnchorsKept pair (start cfg hasher) where
  last := rfl
  gap := fun h => absurd rfl h
  triggers := fun _ h => absurd h List.not_mem_nil
  woken := by
    intro anchor h
    unfold start at h
    dsimp only at h
    split at h <;> exact ReconcileTask.noConfusion h
  fetching := by
    intro anchor pos h
    unfold start at h
    dsimp only at h
    split at h <;> exact ReconcileTask.noConfusion h

/-- A step of the worker that keeps the gap, and the position while an
incident waits. -/
theorem AnchorsKept.of_worker {s s' : ReconcileSystem} (h : AnchorsKept pair s)
    (hlast : s'.lastPrint = s'.noted pair) (hnoted : s.Awaited → s'.noted pair = s.noted pair)
    (hgap : s'.worker.gapOpen = s.worker.gapOpen) (hanchor : s'.gapAnchor = s.gapAnchor)
    (htriggers : s'.triggers = s.triggers) (htask : s'.task = s.task) : AnchorsKept pair s' where
  last := hlast
  gap := by
    intro hopen
    rw [hgap] at hopen
    rw [hanchor, hnoted (Or.inl hopen)]
    exact h.gap hopen
  triggers := by
    intro anchor hmem
    rw [htriggers] at hmem
    rw [hnoted (Or.inr (Or.inl (List.ne_nil_of_mem hmem)))]
    exact h.triggers anchor hmem
  woken := by
    intro anchor hwoken
    rw [htask] at hwoken
    rw [hnoted (Or.inr (Or.inr ⟨anchor, hwoken⟩))]
    exact h.woken anchor hwoken
  fetching := by
    intro anchor pos hfetch
    rw [htask] at hfetch
    exact h.fetching anchor pos hfetch

/-- A step of the task that is not a wake-up for an incident. -/
theorem AnchorsKept.of_task {s : ReconcileSystem} (h : AnchorsKept pair s) {task : ReconcileTask}
    {recovered : List Trade} (hwoken : ∀ anchor, task ≠ .woken (some anchor))
    (hfetching : ∀ anchor pos, task = .fetching (some anchor) pos → anchor = some pos) :
    AnchorsKept pair { s with task := task, recovered := recovered } :=
  ⟨h.last, h.gap, h.triggers, fun anchor heq => absurd heq (hwoken anchor), hfetching⟩

/-- The gap is closed by the event that triggers. -/
theorem arrive_cases (cfg : WorkerConfig) (w : FrameworkWorker) (nowUs : ℕ) :
    ((w.arrive cfg nowUs).1.gapOpen = w.gapOpen ∧ (w.arrive cfg nowUs).2.any isTrigger = false) ∨
      (w.gapOpen ≠ none ∧ (w.arrive cfg nowUs).1.gapOpen = none) := by
  unfold FrameworkWorker.arrive
  split
  · exact Or.inl ⟨rfl, rfl⟩
  · split
    · exact Or.inl ⟨rfl, rfl⟩
    · next g hgap => exact Or.inr ⟨by rw [hgap]; exact Option.some_ne_none g, rfl⟩

theorem AnchorsKept.arrive {s : ReconcileSystem} (h : AnchorsKept pair s)
    (ev : ReconstructedEvent) (nowUs : ℕ) : AnchorsKept pair (s.stepArrive cfg ev nowUs) := by
  have hnoted : (s.stepArrive cfg ev nowUs).noted pair = s.noted pair := by
    unfold noted stepArrive
    rw [lastPos_arrive]
  rcases arrive_cases cfg s.worker nowUs with ⟨hgap, hquiet⟩ | ⟨hopen, hclosed⟩
  · refine h.of_worker (h.last.trans hnoted.symm) (fun _ => hnoted) hgap rfl ?_ rfl
    unfold stepArrive
    simp [hquiet]
  · refine ⟨h.last.trans hnoted.symm, fun hne => absurd hclosed hne, fun anchor hmem => ?_,
      fun anchor hwoken => ?_, h.fetching⟩
    · rw [hnoted]
      unfold stepArrive at hmem
      dsimp only at hmem
      split at hmem
      · rcases List.mem_append.mp hmem with hmem | hmem
        · exact h.triggers anchor hmem
        · rw [List.mem_singleton.mp hmem]
          exact h.gap hopen
      · exact h.triggers anchor hmem
    · rw [hnoted]
      exact h.woken anchor hwoken

theorem AnchorsKept.worker {s : ReconcileSystem} (h : AnchorsKept pair s) (input : WorkerInput) :
    AnchorsKept pair (s.stepWorker cfg input) := by
  have hnoted : (s.stepWorker cfg input).noted pair = s.noted pair := by
    unfold noted
    rw [lastPos_stepWorker]
  cases input with
  | event => exact h
  | recovered => exact h
  | _ =>
    refine ⟨h.last.trans hnoted.symm, fun hopen => ?_,
      fun anchor hmem => (h.triggers anchor hmem).trans hnoted.symm,
      fun anchor hwoken => (h.woken anchor hwoken).trans hnoted.symm, h.fetching⟩
    rw [hnoted]
    unfold stepWorker at hopen ⊢
    dsimp only at hopen ⊢
    split
    · exact h.last
    · next hkept =>
      exact h.gap (fun hnone => hkept ⟨hnone, hopen⟩)

/-- The task is woken with the oldest trigger. -/
theorem AnchorsKept.wake {s : ReconcileSystem} (h : AnchorsKept pair s) {anchor : Anchor}
    {rest : List Anchor} (htriggers : s.triggers = anchor :: rest) :
    AnchorsKept pair { s with task := .woken (some anchor), triggers := rest } := by
  refine ⟨h.last, h.gap, fun a ha => ?_, fun a ha => ?_, fun a pos ha => ?_⟩
  · exact h.triggers a (htriggers ▸ List.mem_cons_of_mem anchor ha)
  · obtain rfl : anchor = a := by
      injection ha with ha
      exact Option.some.inj ha
    exact h.triggers anchor (htriggers ▸ List.mem_cons_self)
  · exact ReconcileTask.noConfusion ha

/-- The position read is the anchor the task was woken with. -/
theorem AnchorsKept.read {s : ReconcileSystem} (h : AnchorsKept pair s) {incident : Option Anchor}
    (htask : s.task = .woken incident) (traded : Trade → Prop) (after : TradePos → Trade → Prop) :
    AnchorsKept pair (s.stepRead pair incident).1 ∧
      ∀ e ∈ (s.stepRead pair incident).2, Anchored traded after e := by
  unfold stepRead
  constructor
  · cases hpos : s.noted pair with
    | none => exact h.of_task (by simp) (by simp)
    | some pos =>
      refine h.of_task (by simp) (fun anchor p heq => ?_)
      injection heq with hinc hp
      rw [h.woken anchor (by rw [htask, hinc]), hpos, hp]
  · intro e he
    rw [List.mem_singleton.mp he]
    cases incident with
    | none => trivial
    | some anchor => exact (h.woken anchor htask).symm

/-- **One step**, where the worker reconciles. -/
theorem anchored_step (hactive : cfg.reconcileActive = true) {traded : Trade → Prop}
    {after : TradePos → Trade → Prop} (s : ReconcileSystem) (i : ReconcileStep)
    (h : AnchorsKept pair s) (hi : s.Still cfg pair i ∧ s.Complete traded after i) :
    AnchorsKept pair (s.step cfg pair i).1 ∧
      ∀ e ∈ (s.step cfg pair i).2, Anchored traded after e := by
  obtain ⟨hstill, hcomplete⟩ := hi
  have hnoted : s.Awaited → (s.step cfg pair i).1.noted pair = s.noted pair := by
    intro hawaited
    by_contra hne
    exact hstill hawaited ((moves_iff s i).mpr hne)
  have hsilent : ∀ e ∈ ([] : List ReconcileEffect), Anchored traded after e :=
    fun e he => absurd he List.not_mem_nil
  unfold step at hnoted ⊢
  cases i with
  | worker input =>
    dsimp only
    split
    · exact ⟨h, hsilent⟩
    · exact ⟨h.worker input, hsilent⟩
  | arrive ev nowUs =>
    dsimp only
    split
    · exact ⟨h, hsilent⟩
    · exact ⟨h.arrive ev nowUs, hsilent⟩
  | deliver =>
    dsimp only at hnoted ⊢
    cases hev : s.handling with
    | none => exact ⟨h, hsilent⟩
    | some ev =>
      rw [hev] at hnoted
      refine ⟨h.of_worker ?_ hnoted (s.worker.window_handle ev).1 rfl rfl rfl, hsilent⟩
      dsimp only
      rw [h.last]
      exact afterLive_handle hactive s.worker ev
  | takeRecovered =>
    dsimp only at hnoted ⊢
    cases hrec : s.recovered with
    | nil => exact ⟨h, hsilent⟩
    | cons t rest =>
      rw [hrec] at hnoted
      dsimp only at hnoted ⊢
      split
      · exact ⟨h, hsilent⟩
      · next hfree =>
        rw [if_neg hfree] at hnoted
        refine ⟨h.of_worker ?_ hnoted (s.worker.window_onRecovered t).1 rfl rfl rfl, hsilent⟩
        dsimp only
        rw [h.last]
        exact afterRecovered_onRecovered s.worker t
  | wake =>
    dsimp only
    split
    · next anchor rest htask htriggers => exact ⟨h.wake htriggers, hsilent⟩
    · exact ⟨h, hsilent⟩
  | sweep =>
    dsimp only
    split
    · exact ⟨h.of_task (by simp) (by simp), hsilent⟩
    · exact ⟨h, hsilent⟩
  | read =>
    dsimp only
    split
    · next incident htask => exact h.read htask traded after
    · exact ⟨h, hsilent⟩
  | fetched result =>
    dsimp only
    split
    · next incident pos trades htask =>
      refine ⟨h.of_task (by simp) (by simp), fun e he => ?_⟩
      rw [List.mem_singleton.mp he]
      cases incident with
      | none => trivial
      | some anchor =>
        exact ⟨pos, h.fetching anchor pos htask, hcomplete (some anchor) pos htask⟩
    · exact ⟨h.of_task (by simp) (by simp), hsilent⟩
    · exact ⟨h, hsilent⟩
  | send =>
    dsimp only
    split
    · exact ⟨h.of_task (by simp) (by simp), hsilent⟩
    · split
      · exact ⟨h.of_task (by simp) (by simp), hsilent⟩
      · exact ⟨h, hsilent⟩
    · exact ⟨h, hsilent⟩
  | shutdown =>
    dsimp only
    split
    · exact ⟨h.of_task (by simp) (by simp), hsilent⟩
    · exact ⟨h, hsilent⟩

/-- A task that has ended does nothing more. -/
theorem step_of_ended (s : ReconcileSystem) (i : ReconcileStep) (h : s.task = .ended) :
    (s.step cfg pair i).1.task = .ended ∧ (s.step cfg pair i).2 = [] := by
  unfold step
  cases i with
  | worker input =>
    dsimp only
    split
    · exact ⟨h, rfl⟩
    · unfold stepWorker
      split <;> exact ⟨h, rfl⟩
  | arrive ev nowUs =>
    dsimp only
    split <;> exact ⟨h, rfl⟩
  | deliver =>
    dsimp only
    split <;> exact ⟨h, rfl⟩
  | takeRecovered =>
    dsimp only
    split
    · exact ⟨h, rfl⟩
    · split <;> exact ⟨h, rfl⟩
  | _ =>
    dsimp only
    rw [h]
    exact ⟨h, rfl⟩

/-- **Reconciliation covers the gap** in every schedule of worker and task in
which no print moves the position while an incident waits for its read: the
task then reads, for each incident, the position of the last print that was
delivered before its gap opened, and if the venue's endpoint returns every trade
after the position it is given, every trade after that one is among those fetched. -/
theorem anchored (cfg : WorkerConfig) (pair : TradingPair) (hasher : RandomState TradingPair)
    (traded : Trade → Prop) (after : TradePos → Trade → Prop) (steps : List ReconcileStep)
    (hsteps : (machine cfg pair).Meets
      (fun s i => s.Still cfg pair i ∧ s.Complete traded after i) (start cfg hasher) steps) :
    ∀ e ∈ ((machine cfg pair).run (start cfg hasher) steps).2, Anchored traded after e := by
  cases hactive : cfg.reconcileActive with
  | true =>
    exact ((machine cfg pair).forall_of_invariant (anchored_step hactive)
      (anchorsKept_start hasher) hsteps).2
  | false =>
    -- the task is not spawned
    have hended : (start cfg hasher).task = .ended := by
      unfold start
      dsimp only
      rw [hactive]
      rfl
    refine ((machine cfg pair).forall_of_invariant (I := fun s => s.task = .ended)
      (fun s i h _ => ?_) hended hsteps).2
    obtain ⟨htask, hsilent⟩ := @step_of_ended cfg pair s i h
    refine ⟨htask, fun e he => ?_⟩
    have hnil : e ∈ ([] : List ReconcileEffect) := hsilent ▸ he
    exact absurd hnil List.not_mem_nil

/-! ## A sample -/

section Sample

open FrameworkWorker (reconciling btc btcPrint)

/-- The prints of the sample venue. -/
def samplePrints : List Trade := [btcPrint "5", btcPrint "7", btcPrint "9"]

/-- A trade of the venue after a position. -/
def SampleAfter (pos : TradePos) (t : Trade) : Prop :=
  ∃ idn, parseU64 t.id = some idn ∧ pos.id < idn

/-- Print 7 is lost in a gap, and the first event of the new connection is
print 9. -/
def tradeFirst : List ReconcileStep :=
  [.worker .connected, .arrive (.trade (btcPrint "5")) 1, .deliver,
    .worker (.connectionLost .finished 2), .worker .connected, .arrive (.trade (btcPrint "9")) 3,
    .deliver, .wake, .read, .fetched (.ok [])]

/-- **The fetch is anchored at print 9**, so it does not return print 7. -/
theorem anchored_past_gap :
    (machine reconciling btc).Meets (Complete (· ∈ samplePrints) SampleAfter)
        (start reconciling RandomState.table) tradeFirst ∧
      ¬ ∀ e ∈ ((machine reconciling btc).run (start reconciling RandomState.table)
          tradeFirst).2, Anchored (· ∈ samplePrints) SampleAfter e := by
  have hrun : ((machine reconciling btc).run (start reconciling RandomState.table)
      tradeFirst).2
        = [.read (some (some ⟨5, 7⟩)) (some ⟨9, 7⟩), .fetched (some (some ⟨5, 7⟩)) []] := by
    decide
  refine ⟨⟨trivial, trivial, trivial, trivial, trivial, trivial, trivial, trivial, trivial, ?_,
    trivial⟩, fun h => ?_⟩
  · -- the fetch is anchored at print 9, after which nothing was traded
    rintro incident pos htask t ht ⟨idn, hid, hlt⟩
    have hfetching : ((machine reconciling btc).run (start reconciling RandomState.table)
        (tradeFirst.take 9)).1.task = .fetching (some (some ⟨5, 7⟩)) ⟨9, 7⟩ := by decide
    injection hfetching.symm.trans htask with hincident hpos
    subst hpos
    simp only [samplePrints, List.mem_cons, List.not_mem_nil, or_false] at ht
    rcases ht with rfl | rfl | rfl
    · obtain rfl : 5 = idn := Option.some.inj (by rw [← hid]; decide)
      exact absurd hlt (by decide)
    · obtain rfl : 7 = idn := Option.some.inj (by rw [← hid]; decide)
      exact absurd hlt (by decide)
    · obtain rfl : 9 = idn := Option.some.inj (by rw [← hid]; decide)
      exact absurd hlt (by decide)
  · rw [hrun] at h
    exact absurd (h _ List.mem_cons_self) (by decide : ¬ (some (⟨9, 7⟩ : TradePos) = some ⟨5, 7⟩))

/-- The first event of the new connection is a book, and the task reads
before the next print. -/
def bookFirst : List ReconcileStep :=
  [.worker .connected, .arrive (.trade (btcPrint "5")) 1, .deliver,
    .worker (.connectionLost .finished 2), .worker .connected,
    .arrive (.book btc 3 (Orderbook.empty btc "binance")) 3, .deliver, .wake, .read,
    .fetched (.ok samplePrints)]

/-- The fetch is anchored at print 5. -/
theorem anchored_of_book_first :
    (∀ e ∈ ((machine reconciling btc).run (start reconciling RandomState.table) bookFirst).2,
        Anchored (· ∈ samplePrints) SampleAfter e) ∧
      ((machine reconciling btc).run (start reconciling RandomState.table) bookFirst).2
        = [.read (some (some ⟨5, 7⟩)) (some ⟨5, 7⟩),
          .fetched (some (some ⟨5, 7⟩)) samplePrints] := by
  refine ⟨?_, by decide⟩
  with_reducible
    refine anchored reconciling btc RandomState.table (· ∈ samplePrints) SampleAfter bookFirst ?_
  have hquiet : ∀ (s : ReconcileSystem) (i : ReconcileStep), ¬ s.Moves reconciling btc i →
      s.Still reconciling btc i := fun s i h _ => h
  refine ⟨⟨hquiet _ _ id, trivial⟩, ⟨hquiet _ _ id, trivial⟩, ⟨?_, trivial⟩,
    ⟨hquiet _ _ id, trivial⟩, ⟨hquiet _ _ id, trivial⟩, ⟨hquiet _ _ id, trivial⟩,
    ⟨hquiet _ _ ?_, trivial⟩, ⟨hquiet _ _ id, trivial⟩, ⟨hquiet _ _ id, trivial⟩,
    ⟨hquiet _ _ id, fun _ _ _ t ht _ => ht⟩, trivial⟩
  · -- no gap has opened before the first print
    rintro (h | h | ⟨anchor, h⟩)
    · exact absurd rfl h
    · exact absurd rfl h
    · exact ReconcileTask.noConfusion h
  · -- a book notes no position
    rintro ⟨ev, pos, hev, hpos, -⟩
    cases hev
    exact absurd hpos (Option.some_ne_none pos).symm

end Sample

end ReconcileSystem
