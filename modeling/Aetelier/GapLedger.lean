import Aetelier.FrameworkWorker
import Aetelier.PairInvariants

/-!
# The coverage ledger

A book becomes unusable inside a runtime: an update does not apply, or the
run ends. It is usable again when the runtime next emits it. The worker, which
keeps the ledger of these spans, sees neither: it opens a window when it has
torn a connection down and closes it when it takes the first event of a later
one. A book that is reseeded in place leaves no trace in the ledger, a trade
that comes before the book closes the window too early, and the teardown comes
after the failure.

The worker, the runtime of its connection and the channel between them are
one machine here, whose inputs are the steps of a schedule with the clock each
of them reads. Ghosts keep the spans: since when the book of the pair is
unusable, and the spans that have ended. Where none of the three happens
(`CoverageSystem.Seamless`) the ledger is what it should be: each span lies in
exactly one incident, and no two incidents overlap
(`CoverageSystem.ledger_covers`). A ledger is configured, and every append to it
succeeds: the worker counts one that fails and goes on without it.
-/

/-- **The worker and the runtime of its connection.** -/
structure CoverageSystem where
  /-- The runtime. -/
  runtime : SourceRuntime
  /-- The events it has emitted and the worker has not taken. -/
  channel : List ReconstructedEvent
  /-- The worker. -/
  worker : FrameworkWorker
  /-- The worker has left the connection and not made the next. -/
  tornDown : Bool
  /-- The incidents recorded. -/
  ledger : List GapIncident
  /-- The last clock reading. -/
  clock : ℕ
  /-- Since when the book of the pair is unusable. -/
  broken : Option ℕ
  /-- The spans during which it was, from the failure to the next book. -/
  spans : List (ℕ × ℕ)

/-- A step of a schedule, with the clock it reads. -/
inductive CoverageStep where
  /-- The runtime takes an input. -/
  | run (body : InputBody) (nowUs : ℕ)
  /-- The worker takes an event. -/
  | take (nowUs : ℕ)
  /-- The worker takes a recovered print, a tick, a pause or a resume. -/
  | other (input : WorkerInput)
  /-- The worker finds the channel closed and leaves the connection. -/
  | teardown (nowUs : ℕ)
  /-- It makes the next one. -/
  | reconnect (hasher : RandomState TradingPair) (nowUs : ℕ)
  /-- It stops. -/
  | stop (nowUs : ℕ)

/-- The incidents among the effects of a worker. -/
def WorkerEffect.incidents (effects : List WorkerEffect) : List GapIncident :=
  effects.filterMap (fun
    | .incident i => some i
    | _ => none)

namespace CoverageSystem

variable (rc : RuntimeConfig) (wc : WorkerConfig) (pair : TradingPair)

/-- What an effect of the runtime says of the book of the pair. A span that
begins and ends at one reading of the clock is none. -/
def observe (nowUs : ℕ) (seen : Option ℕ × List (ℕ × ℕ)) : Effect → Option ℕ × List (ℕ × ℕ)
  | .applied p _ (.error _) => if p = pair then (seen.1.or (some nowUs), seen.2) else seen
  | .sent (.book p _ _) =>
    if p = pair then
      (none, seen.2 ++ ((seen.1.filter (· < nowUs)).map (fun t => (t, nowUs))).toList)
    else seen
  | _ => seen

/-- The first connection. -/
def start (carry hasher : RandomState TradingPair) (nowUs : ℕ) : CoverageSystem where
  runtime := (SourceRuntime.start rc hasher nowUs [wc.symbol]).1
  channel := []
  worker := ((FrameworkWorker.start wc carry).step wc .connected).1
  tornDown := false
  ledger := []
  clock := nowUs
  broken := none
  spans := []

/-- The runtime takes an input. -/
def stepRun (s : CoverageSystem) (body : InputBody) (nowUs : ℕ) : CoverageSystem :=
  let r := s.runtime.step rc ⟨body, nowUs, none⟩
  let seen := r.2.foldl (observe pair nowUs) (s.broken, s.spans)
  { s with
    runtime := r.1
    channel := s.channel ++ Effect.events r.2
    clock := nowUs
    broken := if r.1.outcome.isSome then seen.1.or (some nowUs) else seen.1
    spans := seen.2 }

/-- The worker takes an input. -/
def stepWorker (s : CoverageSystem) (input : WorkerInput) : CoverageSystem :=
  let r := s.worker.step wc input
  { s with worker := r.1, ledger := s.ledger ++ WorkerEffect.incidents r.2 }

/-- **One step of the schedule.** A step that is not possible does
nothing. -/
def step (s : CoverageSystem) (i : CoverageStep) : CoverageSystem × List Unit :=
  if s.worker.ended then (s, [])
  else
    match i with
    | .run body nowUs =>
      if s.tornDown ∨ s.runtime.outcome.isSome then (s, []) else (s.stepRun rc pair body nowUs, [])
    | .take nowUs =>
      match s.tornDown, s.channel with
      | false, ev :: rest =>
        ({ s with channel := rest, clock := nowUs }.stepWorker wc (.event ev nowUs), [])
      | _, _ => (s, [])
    | .other input =>
      match input with
      | .recovered .. | .timer .. | .pause | .resume =>
        if s.tornDown then (s, []) else (s.stepWorker wc input, [])
      | _ => (s, [])
    | .teardown nowUs =>
      match s.tornDown, s.channel, s.runtime.outcome with
      | false, [], some outcome =>
        ({ s with tornDown := true, clock := nowUs }.stepWorker wc
          (.connectionLost outcome nowUs), [])
      | _, _, _ => (s, [])
    | .reconnect hasher nowUs =>
      if s.tornDown then
        ({ s with
            runtime := (SourceRuntime.start rc hasher nowUs [wc.symbol]).1
            tornDown := false
            clock := nowUs }.stepWorker wc .connected, [])
      else (s, [])
    | .stop nowUs => ({ s with clock := nowUs }.stepWorker wc (.stopped nowUs), [])

/-- The two as a machine. -/
def machine : Machine CoverageSystem CoverageStep Unit := ⟨step rc wc pair⟩

/-! ## When the ledger is right -/

/-- **A step that leaves no hole.** The clock does not go back. An update that
does not apply in a runtime that goes on finds a window open. The worker
closes a window when the book has been emitted (or, if the run is over again,
at the very reading of its end), and opens one at the reading of the
failure. -/
def Seamless (s : CoverageSystem) : CoverageStep → Prop
  | .run body nowUs => s.clock ≤ nowUs ∧
      (s.worker.gapOpen = none →
        (s.runtime.step rc ⟨body, nowUs, none⟩).1.outcome = none →
        ∀ d e, Effect.applied pair d (.error e) ∉ (s.runtime.step rc ⟨body, nowUs, none⟩).2)
  | .take nowUs => s.clock ≤ nowUs ∧
      (s.worker.connectionLive = false → s.worker.gapOpen ≠ none →
        ∀ t ∈ s.broken, t = nowUs ∧ s.runtime.outcome ≠ none)
  | .other _ => True
  | .teardown nowUs => s.clock ≤ nowUs ∧
      (s.worker.gapOpen = none → ∀ t ∈ s.broken, t = nowUs)
  | .reconnect _ nowUs => s.clock ≤ nowUs
  | .stop nowUs => s.clock ≤ nowUs

variable {rc wc pair}

/-! ## What the worker's steps do to the window -/

theorem incidents_handle (w : FrameworkWorker) (ev : ReconstructedEvent) :
    WorkerEffect.incidents (w.handle wc ev).2 = [] := by
  refine List.filterMap_eq_nil_iff.mpr (fun e he => ?_)
  obtain ⟨c, rfl⟩ := FrameworkWorker.call_of_mem_handle he
  rfl

/-- **An event closes the window or leaves it**: it closes one that is open if
it is the first of its connection. -/
theorem event_cases (wc : WorkerConfig) {w : FrameworkWorker} (hended : w.ended = false)
    (ev : ReconstructedEvent) (nowUs : ℕ) :
    ((w.step wc (.event ev nowUs)).1.gapOpen = w.gapOpen ∧
        WorkerEffect.incidents (w.step wc (.event ev nowUs)).2 = []) ∨
      ∃ g, w.connectionLive = false ∧ w.gapOpen = some g ∧
        (w.step wc (.event ev nowUs)).1.gapOpen = none ∧
        WorkerEffect.incidents (w.step wc (.event ev nowUs)).2
          = [FrameworkWorker.incidentOf wc g nowUs] := by
  have hstep : w.step wc (.event ev nowUs)
      = (((w.arrive wc nowUs).1.handle wc ev).1,
          (w.arrive wc nowUs).2 ++ ((w.arrive wc nowUs).1.handle wc ev).2) := by
    unfold FrameworkWorker.step
    simp [hended]
  have hincidents : WorkerEffect.incidents (w.step wc (.event ev nowUs)).2
      = WorkerEffect.incidents (w.arrive wc nowUs).2 := by
    rw [hstep]
    show WorkerEffect.incidents (_ ++ _) = _
    unfold WorkerEffect.incidents
    rw [List.filterMap_append]
    exact (congrArg _ (incidents_handle _ ev)).trans (List.append_nil _)
  have hgap : (w.step wc (.event ev nowUs)).1.gapOpen = (w.arrive wc nowUs).1.gapOpen := by
    rw [hstep]
    exact (FrameworkWorker.window_handle _ ev).1
  rw [hincidents, hgap]
  unfold FrameworkWorker.arrive
  cases hlive : w.connectionLive with
  | true => exact Or.inl ⟨rfl, rfl⟩
  | false =>
    cases hopen : w.gapOpen with
    | none => exact Or.inl ⟨rfl, rfl⟩
    | some g =>
      refine Or.inr ⟨g, rfl, rfl, rfl, ?_⟩
      simp only [Bool.false_eq_true, if_false]
      split <;> rfl


/-- The other inputs inside a connection leave it. -/
theorem other_window (wc : WorkerConfig) (w : FrameworkWorker) {input : WorkerInput}
    (h : (∃ t, input = .recovered t) ∨ (∃ nowUs, input = .timer nowUs) ∨ input = .pause ∨
      input = .resume ∨ input = .connected) :
    (w.step wc input).1.gapOpen = w.gapOpen ∧ (w.step wc input).1.ended = w.ended ∧
      WorkerEffect.incidents (w.step wc input).2 = [] := by
  unfold FrameworkWorker.step
  split
  · exact ⟨rfl, rfl, rfl⟩
  · rcases h with ⟨t, rfl⟩ | ⟨nowUs, rfl⟩ | rfl | rfl | rfl
    · dsimp only
      split
      · refine ⟨(w.window_onRecovered t).1, (w.window_onRecovered t).2, ?_⟩
        unfold FrameworkWorker.onRecovered
        dsimp only
        split <;> rfl
      · exact ⟨rfl, rfl, rfl⟩
    · dsimp only
      split <;> exact ⟨rfl, rfl, rfl⟩
    all_goals exact ⟨rfl, rfl, rfl⟩

/-! ## The invariant -/

/-- An incident covers a span. -/
def Covers (i : GapIncident) (span : ℕ × ℕ) : Prop :=
  i.openedEpochUs ≤ span.1 ∧ span.2 ≤ i.closedEpochUs

/-- **The ledger so far**: its incidents follow each other; a span that has
ended is covered, or will be when the window that is open closes; and a book
that is unusable is so since a window opened, unless its run is over and not
torn down yet. -/
structure Kept (s : CoverageSystem) : Prop where
  ordered : s.ledger.Pairwise (fun i j => i.closedEpochUs ≤ j.openedEpochUs)
  past : ∀ i ∈ s.ledger, i.closedEpochUs ≤ s.clock
  window : ∀ g ∈ s.worker.gapOpen,
    g.openedUs ≤ s.clock ∧ ∀ i ∈ s.ledger, i.closedEpochUs ≤ g.openedUs
  spans : ∀ p ∈ s.spans, p.1 < p.2 ∧ p.2 ≤ s.clock ∧
    ((∃ i ∈ s.ledger, Covers i p) ∨ ∃ g ∈ s.worker.gapOpen, g.openedUs ≤ p.1)
  broken : s.worker.ended = false → ∀ t ∈ s.broken, t ≤ s.clock ∧
    ((∃ g ∈ s.worker.gapOpen, g.openedUs ≤ t) ∨
      (s.worker.gapOpen = none ∧ s.runtime.outcome ≠ none ∧ s.tornDown = false))
  torn : s.worker.ended = false → s.tornDown = true → s.worker.gapOpen ≠ none

theorem kept_start (carry hasher : RandomState TradingPair) (nowUs : ℕ) :
    Kept (start rc wc carry hasher nowUs) where
  ordered := List.Pairwise.nil
  past := fun _ h => absurd h List.not_mem_nil
  window := fun _ h => absurd h (Option.not_mem_none _)
  spans := fun _ h => absurd h List.not_mem_nil
  broken := fun _ _ h => absurd h (Option.not_mem_none _)
  torn := fun _ h => Bool.noConfusion h

/-- A step that leaves ledger, window and spans. -/
theorem Kept.of_quiet {s s' : CoverageSystem} (h : Kept s) (hledger : s'.ledger = s.ledger)
    (hgap : s'.worker.gapOpen = s.worker.gapOpen) (hspans : s'.spans = s.spans)
    (hbroken : s'.broken = s.broken) (hclock : s.clock ≤ s'.clock)
    (hended : s'.worker.ended = false → s.worker.ended = false)
    (hover : s.runtime.outcome ≠ none ∧ s.tornDown = false →
      s'.runtime.outcome ≠ none ∧ s'.tornDown = false)
    (htorn : s'.tornDown = true → s.tornDown = true) : Kept s' where
  ordered := by
    rw [hledger]
    exact h.ordered
  past := by
    intro i hi
    rw [hledger] at hi
    exact (h.past i hi).trans hclock
  window := by
    intro g hg
    rw [hgap] at hg
    rw [hledger]
    exact ⟨(h.window g hg).1.trans hclock, (h.window g hg).2⟩
  spans := by
    intro p hp
    rw [hspans] at hp
    rw [hledger, hgap]
    obtain ⟨hlt, hle, hcov⟩ := h.spans p hp
    exact ⟨hlt, hle.trans hclock, hcov⟩
  broken := by
    intro hend t ht
    rw [hbroken] at ht
    rw [hgap]
    obtain ⟨hle, hcov⟩ := h.broken (hended hend) t ht
    exact ⟨hle.trans hclock, hcov.imp id (And.imp id hover)⟩
  torn := by
    intro hend ht
    rw [hgap]
    exact h.torn (hended hend) (htorn ht)

/-- A step that closes the window. -/
theorem Kept.of_close {s s' : CoverageSystem} (h : Kept s) {g : GapWindow} {nowUs : ℕ}
    (hopen : s.worker.gapOpen = some g)
    (hledger : s'.ledger = s.ledger ++ [FrameworkWorker.incidentOf wc g nowUs])
    (hgap : s'.worker.gapOpen = none) (hspans : s'.spans = s.spans)
    (hclock : s.clock ≤ nowUs) (hnow : s'.clock = nowUs)
    (hbroken : s'.worker.ended = false → s'.tornDown = false ∧
      ∀ t ∈ s'.broken, t = nowUs ∧ s'.runtime.outcome ≠ none) : Kept s' where
  ordered := by
    rw [hledger, List.pairwise_append]
    refine ⟨h.ordered, List.pairwise_singleton _ _, fun i hi j hj => ?_⟩
    rw [List.mem_singleton.mp hj]
    exact (h.window g hopen).2 i hi
  past := by
    intro i hi
    rw [hledger] at hi
    rw [hnow]
    rcases List.mem_append.mp hi with hi | hi
    · exact (h.past i hi).trans hclock
    · rw [List.mem_singleton.mp hi]
      exact le_refl nowUs
  window := by
    intro g' hg'
    rw [hgap] at hg'
    exact absurd hg' (Option.not_mem_none g')
  spans := by
    intro p hp
    rw [hspans] at hp
    obtain ⟨hlt, hle, hcov⟩ := h.spans p hp
    refine ⟨hlt, by rw [hnow]; exact hle.trans hclock, Or.inl ?_⟩
    rw [hledger]
    rcases hcov with ⟨i, hi, hcov⟩ | ⟨g', hg', hcov⟩
    · exact ⟨i, List.mem_append_left _ hi, hcov⟩
    · -- a span that waited for this window ended before now
      obtain rfl : g = g' := Option.some.inj (hopen.symm.trans hg')
      exact ⟨_, List.mem_append_right _ List.mem_cons_self, hcov, hle.trans hclock⟩
  broken := by
    intro hend t ht
    obtain ⟨htorn, hbrok⟩ := hbroken hend
    obtain ⟨rfl, hover⟩ := hbrok t ht
    exact ⟨hnow.ge, Or.inr ⟨hgap, hover, htorn⟩⟩
  torn := by
    intro hend ht
    rw [(hbroken hend).1] at ht
    exact Bool.noConfusion ht

/-! ## What the runtime's steps do to the spans -/

/-- What a list of effects, read at one clock, says of the book: since when it
is unusable is as before or now, and so is where a new span begins. -/
theorem foldl_observe (pair : TradingPair) {P : ℕ → Prop} {nowUs : ℕ} (hnow : P nowUs)
    (effects : List Effect) (seen : Option ℕ × List (ℕ × ℕ)) (hseen : ∀ t ∈ seen.1, P t) :
    (∀ t ∈ (effects.foldl (observe pair nowUs) seen).1, P t) ∧
      ∀ p ∈ (effects.foldl (observe pair nowUs) seen).2,
        p ∈ seen.2 ∨ (P p.1 ∧ p.1 < p.2 ∧ p.2 = nowUs) := by
  induction effects generalizing seen with
  | nil => exact ⟨hseen, fun p hp => Or.inl hp⟩
  | cons e effects ih =>
    have hone : (∀ t ∈ (observe pair nowUs seen e).1, P t) ∧
        ∀ p ∈ (observe pair nowUs seen e).2,
          p ∈ seen.2 ∨ (P p.1 ∧ p.1 < p.2 ∧ p.2 = nowUs) := by
      unfold observe
      split
      · split
        · refine ⟨fun t ht => ?_, fun p hp => Or.inl hp⟩
          rcases Option.or_eq_some_iff.mp ht with ht | ⟨-, ht⟩
          · exact hseen t ht
          · exact Option.some.inj ht ▸ hnow
        · exact ⟨hseen, fun p hp => Or.inl hp⟩
      · split
        · refine ⟨fun t ht => absurd ht (Option.not_mem_none t), fun p hp => ?_⟩
          rcases List.mem_append.mp hp with hp | hp
          · exact Or.inl hp
          · obtain ⟨t, ht, rfl⟩ := Option.map_eq_some_iff.mp (Option.mem_toList.mp hp)
            obtain ⟨hmem, hlt⟩ := Option.filter_eq_some_iff.mp ht
            exact Or.inr ⟨hseen t hmem, of_decide_eq_true hlt, rfl⟩
        · exact ⟨hseen, fun p hp => Or.inl hp⟩
      · exact ⟨hseen, fun p hp => Or.inl hp⟩
    obtain ⟨hbroken, hspans⟩ := ih _ hone.1
    refine ⟨hbroken, fun p hp => ?_⟩
    rcases hspans p hp with hp | hp
    · exact hone.2 p hp
    · exact Or.inr hp

/-- Where every update applies, a usable book stays usable. -/
theorem foldl_observe_none (nowUs : ℕ) (spans : List (ℕ × ℕ)) {effects : List Effect}
    (h : ∀ d e, Effect.applied pair d (.error e) ∉ effects) :
    (effects.foldl (observe pair nowUs) (none, spans)).1 = none := by
  induction effects generalizing spans with
  | nil => rfl
  | cons e effects ih =>
    have hone : (observe pair nowUs (none, spans) e).1 = none := by
      unfold observe
      split
      · next p d err =>
        split
        · next hp => exact absurd (hp ▸ List.mem_cons_self) (h d err)
        · rfl
      · split <;> rfl
      · rfl
    have hpair : observe pair nowUs (none, spans) e
        = (none, (observe pair nowUs (none, spans) e).2) := Prod.ext hone rfl
    rw [List.foldl_cons, hpair]
    exact ih _ (fun d err hmem => h d err (List.mem_cons_of_mem _ hmem))

/-- A failure that the window reaches back to, or one of this very reading
while there is no window. -/
def Tracked (s : CoverageSystem) (nowUs t : ℕ) : Prop :=
  t ≤ nowUs ∧ ((∃ g ∈ s.worker.gapOpen, g.openedUs ≤ t) ∨ (s.worker.gapOpen = none ∧ t = nowUs))

theorem Kept.tracked_now {s : CoverageSystem} (h : Kept s) {nowUs : ℕ} (hclock : s.clock ≤ nowUs) :
    s.Tracked nowUs nowUs := by
  refine ⟨le_refl nowUs, ?_⟩
  cases hopen : s.worker.gapOpen with
  | none => exact Or.inr ⟨rfl, rfl⟩
  | some g => exact Or.inl ⟨g, rfl, (h.window g hopen).1.trans hclock⟩

/-- **The runtime takes an input.** -/
theorem Kept.run {s : CoverageSystem} (h : Kept s) (hended : s.worker.ended = false)
    (hrunning : s.runtime.outcome = none) (htorn : s.tornDown = false) {body : InputBody}
    {nowUs : ℕ} (hseam : s.Seamless rc pair (.run body nowUs)) :
    Kept (s.stepRun rc pair body nowUs) := by
  obtain ⟨hclock, hplace⟩ := hseam
  -- an unusable book of a run that goes on is covered by the window
  have hbase : ∀ t ∈ s.broken, ∃ g ∈ s.worker.gapOpen, g.openedUs ≤ t := by
    intro t ht
    exact (h.broken hended t ht).2.resolve_right (fun hover => hover.2.1 hrunning)
  obtain ⟨hbroken, hspans⟩ := foldl_observe pair (P := s.Tracked nowUs) (h.tracked_now hclock)
    (s.runtime.step rc ⟨body, nowUs, none⟩).2 (s.broken, s.spans)
    (fun t ht => ⟨(h.broken hended t ht).1.trans hclock, Or.inl (hbase t ht)⟩)
  refine ⟨h.ordered, fun i hi => (h.past i hi).trans hclock,
    fun g hg => ⟨(h.window g hg).1.trans hclock, (h.window g hg).2⟩, fun p hp => ?_,
    fun _ t ht => ?_, fun _ ht => ?_⟩
  · rcases hspans p hp with hp | ⟨⟨-, hbegin⟩, hlt, hend⟩
    · obtain ⟨hlt, hle, hcov⟩ := h.spans p hp
      exact ⟨hlt, hle.trans hclock, hcov⟩
    · refine ⟨hlt, hend.le, ?_⟩
      rcases hbegin with hbegin | ⟨-, hbegin⟩
      · exact Or.inr hbegin
      · -- a span does not begin and end at one reading
        rw [hbegin, hend] at hlt
        exact absurd hlt (lt_irrefl nowUs)
  · have htracked : s.Tracked nowUs t := by
      unfold stepRun at ht
      dsimp only at ht
      split at ht
      · rcases Option.or_eq_some_iff.mp ht with ht | ⟨-, ht⟩
        · exact hbroken t ht
        · exact Option.some.inj ht ▸ h.tracked_now hclock
      · exact hbroken t ht
    refine ⟨htracked.1, ?_⟩
    rcases htracked.2 with hcov | ⟨hopen, -⟩
    · exact Or.inl hcov
    · -- without a window the run must be over: else nothing failed in it
      refine Or.inr ⟨hopen, fun hover => ?_, htorn⟩
      have husable : s.broken = none := by
        refine Option.eq_none_iff_forall_not_mem.mpr (fun t ht => ?_)
        obtain ⟨g, hg, -⟩ := hbase t ht
        rw [hopen] at hg
        exact Option.not_mem_none g hg
      have hnone := foldl_observe_none nowUs s.spans (hplace hopen hover)
      unfold stepRun at ht hover
      dsimp only at ht hover
      rw [hover, husable, hnone] at ht
      exact Option.not_mem_none t ht
  · have hkept : (s.stepRun rc pair body nowUs).tornDown = s.tornDown := rfl
    rw [hkept, htorn] at ht
    exact Bool.noConfusion ht

/-- **The worker leaves a connection.** -/
theorem Kept.teardown {s : CoverageSystem} (h : Kept s) (hended : s.worker.ended = false)
    {outcome : RuntimeOutcome} {nowUs : ℕ} (hclock : s.clock ≤ nowUs)
    (hsame : s.worker.gapOpen = none → ∀ t ∈ s.broken, t = nowUs) :
    Kept ({ s with tornDown := true, clock := nowUs }.stepWorker wc
      (.connectionLost outcome nowUs)) := by
  have hstep : s.worker.step wc (.connectionLost outcome nowUs)
      = (s.worker.openGap outcome nowUs, []) := by
    unfold FrameworkWorker.step
    simp [hended]
  unfold stepWorker
  dsimp only
  rw [hstep]
  have hledger : s.ledger ++ WorkerEffect.incidents [] = s.ledger := List.append_nil _
  rw [hledger]
  unfold FrameworkWorker.openGap
  cases hopen : s.worker.gapOpen with
  | some g =>
    -- the window that is open goes on
    refine ⟨h.ordered, fun i hi => (h.past i hi).trans hclock, fun g' hg' => ?_, fun p hp => ?_,
      fun _ t ht => ?_, fun _ _ => ?_⟩
    · obtain ⟨hbegin, hlast⟩ := h.window g' hg'
      exact ⟨hbegin.trans hclock, hlast⟩
    · obtain ⟨hlt, hle, hcov⟩ := h.spans p hp
      exact ⟨hlt, hle.trans hclock, hcov⟩
    · obtain ⟨hle, hcov⟩ := h.broken hended t ht
      refine ⟨hle.trans hclock, Or.inl (hcov.resolve_right (fun hover => ?_))⟩
      exact Option.some_ne_none g (hopen.symm.trans hover.1)
    · show s.worker.gapOpen ≠ none
      rw [hopen]
      exact Option.some_ne_none g
  | none =>
    -- one opens now
    refine ⟨h.ordered, fun i hi => (h.past i hi).trans hclock, fun g' hg' => ?_, fun p hp => ?_,
      fun _ t ht => ?_, fun _ _ => Option.some_ne_none _⟩
    · obtain rfl := Option.some.inj hg'
      exact ⟨le_refl nowUs, fun i hi => (h.past i hi).trans hclock⟩
    · obtain ⟨hlt, hle, hcov⟩ := h.spans p hp
      refine ⟨hlt, hle.trans hclock, Or.inl (hcov.resolve_right ?_)⟩
      rintro ⟨g, hg, -⟩
      rw [hopen] at hg
      exact Option.not_mem_none g hg
    · obtain rfl := hsame hopen t ht
      exact ⟨le_refl t, Or.inl ⟨_, rfl, le_refl t⟩⟩

/-- The other inputs keep the ledger, whatever they find. -/
theorem Kept.other {s s' : CoverageSystem} (h : Kept s) {input : WorkerInput}
    (hinput : (∃ t, input = .recovered t) ∨ (∃ nowUs, input = .timer nowUs) ∨ input = .pause ∨
      input = .resume ∨ input = .connected)
    (hworker : s'.worker = (s.worker.step wc input).1)
    (hledger : s'.ledger = s.ledger ++ WorkerEffect.incidents (s.worker.step wc input).2)
    (hspans : s'.spans = s.spans) (hbroken : s'.broken = s.broken) (hclock : s.clock ≤ s'.clock)
    (hover : s.runtime.outcome ≠ none ∧ s.tornDown = false →
      s'.runtime.outcome ≠ none ∧ s'.tornDown = false)
    (htorn : s'.tornDown = true → s.tornDown = true) : Kept s' := by
  obtain ⟨hgap, hended, hquiet⟩ := other_window wc s.worker hinput
  rw [hquiet, List.append_nil] at hledger
  exact h.of_quiet hledger (by rw [hworker, hgap]) hspans hbroken hclock
    (by rw [hworker, hended]; exact id) hover htorn

/-- **The worker stops**: what is open is recorded. -/
theorem Kept.stop {s : CoverageSystem} (h : Kept s) (hended : s.worker.ended = false) {nowUs : ℕ}
    (hclock : s.clock ≤ nowUs) :
    Kept ({ s with clock := nowUs }.stepWorker wc (.stopped nowUs)) := by
  have hstep : s.worker.step wc (.stopped nowUs) = s.worker.stop wc nowUs := by
    unfold FrameworkWorker.step
    simp [hended]
  unfold stepWorker
  dsimp only
  rw [hstep]
  have hover : (s.worker.stop wc nowUs).1.ended = true := rfl
  cases hopen : s.worker.gapOpen with
  | none =>
    have hquiet : WorkerEffect.incidents (s.worker.stop wc nowUs).2 = [] := by
      unfold FrameworkWorker.stop
      rw [hopen]
      rfl
    rw [hquiet, List.append_nil]
    exact h.of_quiet rfl hopen.symm rfl rfl hclock (fun hend => by rw [hover] at hend; cases hend)
      id id
  | some g =>
    have hone : WorkerEffect.incidents (s.worker.stop wc nowUs).2
        = [FrameworkWorker.incidentOf wc g nowUs] := by
      unfold FrameworkWorker.stop
      rw [hopen]
      rfl
    rw [hone]
    exact h.of_close hopen rfl rfl rfl hclock rfl (fun hend => by rw [hover] at hend; cases hend)

/-- **Every step that leaves no hole keeps the ledger.** -/
theorem kept_step (s : CoverageSystem) (i : CoverageStep) (h : Kept s)
    (hi : s.Seamless rc pair i) : Kept (s.step rc wc pair i).1 := by
  unfold step
  split
  · exact h
  · next hend =>
    have hended : s.worker.ended = false := Bool.eq_false_iff.mpr hend
    cases i with
    | run body nowUs =>
      dsimp only
      split
      · exact h
      · next hrun =>
        obtain ⟨htorn, hover⟩ := not_or.mp hrun
        exact h.run hended (Option.not_isSome_iff_eq_none.mp hover) (Bool.eq_false_iff.mpr htorn) hi
    | take nowUs =>
      obtain ⟨hclock, hclose⟩ := hi
      dsimp only
      split
      · next ev rest htorn hchannel =>
        unfold stepWorker
        dsimp only
        rcases event_cases wc hended ev nowUs with
          ⟨hgap, hquiet⟩ | ⟨g, hlive, hopen, hgap, hone⟩
        · rw [hquiet, List.append_nil]
          exact h.of_quiet rfl hgap rfl rfl hclock (fun _ => hended) id id
        · rw [hone]
          refine h.of_close hopen rfl hgap rfl hclock rfl (fun _ => ⟨htorn, ?_⟩)
          exact hclose hlive (by rw [hopen]; exact Option.some_ne_none g)
      · exact h
    | other input =>
      have hkeep : (∃ t, input = .recovered t) ∨ (∃ nowUs, input = .timer nowUs) ∨
          input = .pause ∨ input = .resume ∨ input = .connected →
          Kept (if s.tornDown then (s, ([] : List Unit)) else (s.stepWorker wc input, [])).1 := by
        intro hinput
        split
        · exact h
        · exact h.other hinput rfl rfl rfl rfl (le_refl _) id id
      cases input with
      | recovered t => exact hkeep (Or.inl ⟨t, rfl⟩)
      | timer nowUs => exact hkeep (Or.inr (Or.inl ⟨nowUs, rfl⟩))
      | pause => exact hkeep (Or.inr (Or.inr (Or.inl rfl)))
      | resume => exact hkeep (Or.inr (Or.inr (Or.inr (Or.inl rfl))))
      | _ => exact h
    | teardown nowUs =>
      dsimp only
      split
      · exact h.teardown hended hi.1 hi.2
      · exact h
    | reconnect hasher nowUs =>
      dsimp only
      split
      · next htorn =>
        refine h.other (Or.inr (Or.inr (Or.inr (Or.inr rfl)))) rfl rfl rfl rfl hi ?_ ?_
        · rintro ⟨-, hfalse⟩
          rw [htorn] at hfalse
          exact Bool.noConfusion hfalse
        · exact fun _ => htorn
      · exact h
    | stop nowUs => exact h.stop hended hi

/-! ## Whole runs -/

theorem closed_step (s : CoverageSystem) (i : CoverageStep)
    (h : s.worker.ended = true → s.worker.gapOpen = none) :
    (s.step rc wc pair i).1.worker.ended = true →
      (s.step rc wc pair i).1.worker.gapOpen = none := by
  have hworker : (s.step rc wc pair i).1.worker = s.worker ∨
      ∃ input, (s.step rc wc pair i).1.worker = (s.worker.step wc input).1 := by
    unfold step
    split
    · exact Or.inl rfl
    · cases i with
      | run body nowUs =>
        dsimp only
        split <;> exact Or.inl rfl
      | other input =>
        dsimp only
        split
        all_goals
          first
          | exact Or.inl rfl
          | split
            · exact Or.inl rfl
            · exact Or.inr ⟨_, rfl⟩
      | stop nowUs => exact Or.inr ⟨_, rfl⟩
      | _ =>
        dsimp only
        split
        · exact Or.inr ⟨_, rfl⟩
        · exact Or.inl rfl
  rcases hworker with heq | ⟨input, heq⟩
  · rw [heq]
    exact h
  · rw [heq]
    exact FrameworkWorker.gapOpen_of_ended h input

/-- The worker has stopped after a stop. -/
theorem ended_of_stop (rc : RuntimeConfig) (wc : WorkerConfig) (pair : TradingPair)
    (s : CoverageSystem) (steps : List CoverageStep) (stopUs : ℕ) :
    ((machine rc wc pair).run s (steps ++ [.stop stopUs])).1.worker.ended = true := by
  rw [Machine.run_append_singleton]
  generalize ((machine rc wc pair).run s steps).1 = t
  show (t.step rc wc pair (.stop stopUs)).1.worker.ended = true
  unfold step
  split
  · next hended => exact hended
  · next hrunning =>
    show (t.worker.step wc (.stopped stopUs)).1.ended = true
    unfold FrameworkWorker.step
    rw [if_neg hrunning]
    rfl

/-- Incidents that follow each other: a span lies in one at most. -/
theorem covers_unique {ledger : List GapIncident} {span : ℕ × ℕ}
    (h : ledger.Pairwise (fun i j => i.closedEpochUs ≤ j.openedEpochUs)) (hspan : span.1 < span.2)
    {m n : Fin ledger.length} (hm : Covers (ledger.get m) span) (hn : Covers (ledger.get n) span) :
    m = n := by
  have hno : ∀ a b : Fin ledger.length, a < b → Covers (ledger.get a) span →
      ¬ Covers (ledger.get b) span := by
    intro a b hab ha hb
    have horder := List.pairwise_iff_get.mp h a b hab
    exact absurd (ha.2.trans (horder.trans hb.1)) (not_le.mpr hspan)
  rcases Nat.lt_trichotomy m n with hlt | heq | hlt
  · exact absurd hn (hno m n hlt hm)
  · exact Fin.ext heq
  · exact absurd hm (hno n m hlt hn)

/-- **The coverage ledger never under-reports**, where no step leaves a hole:
in every run of the worker that is so and that has stopped, over any number of
connections, each span from the failure of the pair's book to the next book
emitted lies in exactly one recorded incident, and the incidents do not
overlap. -/
theorem ledger_covers (rc : RuntimeConfig) (wc : WorkerConfig) (pair : TradingPair)
    (carry hasher : RandomState TradingPair) (startUs stopUs : ℕ) (steps : List CoverageStep)
    (hsteps : (machine rc wc pair).Meets (fun s i => s.Seamless rc pair i)
      (start rc wc carry hasher startUs) (steps ++ [.stop stopUs])) :
    (∀ span ∈ ((machine rc wc pair).run (start rc wc carry hasher startUs)
        (steps ++ [.stop stopUs])).1.spans,
      ∃! n, Covers (((machine rc wc pair).run (start rc wc carry hasher startUs)
        (steps ++ [.stop stopUs])).1.ledger.get n) span) ∧
    ((machine rc wc pair).run (start rc wc carry hasher startUs)
      (steps ++ [.stop stopUs])).1.ledger.Pairwise
        (fun i j => i.closedEpochUs ≤ j.openedEpochUs) := by
  obtain ⟨⟨hkept, hclosed⟩, -⟩ := (machine rc wc pair).forall_of_invariant
    (I := fun s => Kept s ∧ (s.worker.ended = true → s.worker.gapOpen = none)) (Q := fun _ => True)
    (fun s i h hi => ⟨⟨kept_step s i h.1 hi, closed_step s i h.2⟩, fun _ _ => trivial⟩)
    ⟨kept_start carry hasher startUs, fun _ => rfl⟩ hsteps
  have hended := ended_of_stop rc wc pair (start rc wc carry hasher startUs) steps stopUs
  generalize ((machine rc wc pair).run (start rc wc carry hasher startUs)
    (steps ++ [.stop stopUs])).1 = s at hkept hclosed hended ⊢
  refine ⟨fun span hspan => ?_, hkept.ordered⟩
  obtain ⟨hlt, -, hcov⟩ := hkept.spans span hspan
  rcases hcov with ⟨i, hi, hcov⟩ | ⟨g, hg, -⟩
  · obtain ⟨n, rfl⟩ := List.get_of_mem hi
    exact ⟨n, hcov, fun m hm => covers_unique hkept.ordered hlt hm hcov⟩
  · rw [hclosed hended] at hg
    exact absurd hg (Option.not_mem_none g)

/-! ## A sample -/

section Sample

open FrameworkWorker (reconciling btc)

/-- The sample worker, at its first connection. -/
abbrev sample : CoverageSystem :=
  start .restVenue reconciling RandomState.table RandomState.table 0

/-- A seed, a frame that does not follow it, and the seed fetched for it. -/
def reseededInPlace : List CoverageStep :=
  [.run (Input.seed 5 [("99", "1")] [("101", "2")]).body 10, .take 11,
    .run (Input.frame 9 9 [("100", "1")] []).body 20,
    .run (Input.seed 9 [("100", "1")] [("101", "2")]).body 30, .take 31]

/-- **A book reseeded in place is in no incident**: it was unusable from 20 to
30, and the ledger is empty. -/
theorem reseed_not_recorded :
    (20, 30) ∈ ((machine .restVenue reconciling btc).run sample
        (reseededInPlace ++ [.stop 40])).1.spans ∧
      ¬ ∃ n, Covers (((machine .restVenue reconciling btc).run sample
        (reseededInPlace ++ [.stop 40])).1.ledger.get n) (20, 30) := by
  refine ⟨by decide, ?_⟩
  rintro ⟨n, -⟩
  have hempty : ((machine .restVenue reconciling btc).run sample
      (reseededInPlace ++ [.stop 40])).1.ledger.length = 0 := by decide
  exact Nat.not_lt_zero _ (n.isLt.trans_eq hempty)

/-- A connection that ends, and the next. -/
def reconnectedAtOnce : List CoverageStep :=
  [.run (Input.seed 5 [("99", "1")] [("101", "2")]).body 10, .take 11, .run .eventsClosed 20,
    .teardown 20, .reconnect RandomState.table 25,
    .run (Input.seed 9 [("100", "1")] [("101", "2")]).body 30, .take 31]

theorem seamless_run {s : CoverageSystem} {body : InputBody} {nowUs : ℕ} (hclock : s.clock ≤ nowUs)
    (h : (Effect.applies (s.runtime.step rc ⟨body, nowUs, none⟩).2).all Prod.snd = true) :
    s.Seamless rc pair (.run body nowUs) := by
  refine ⟨hclock, fun _ _ d e hmem => ?_⟩
  have hfalse : (d.updateId, false) ∈ Effect.applies (s.runtime.step rc ⟨body, nowUs, none⟩).2 :=
    List.mem_filterMap.mpr ⟨_, hmem, rfl⟩
  exact Bool.noConfusion (List.all_eq_true.mp h _ hfalse)

/-- The book is unusable from 20 to 30, and the incident is from 20 to 31. -/
theorem ledger_covers_reconnect :
    (∀ span ∈ ((machine .restVenue reconciling btc).run sample
        (reconnectedAtOnce ++ [.stop 40])).1.spans,
      ∃! n, Covers (((machine .restVenue reconciling btc).run sample
        (reconnectedAtOnce ++ [.stop 40])).1.ledger.get n) span) ∧
    ((machine .restVenue reconciling btc).run sample
      (reconnectedAtOnce ++ [.stop 40])).1.ledger.Pairwise
        (fun i j => i.closedEpochUs ≤ j.openedEpochUs) := by
  with_reducible
    refine ledger_covers .restVenue reconciling btc RandomState.table RandomState.table 0 40
      reconnectedAtOnce ?_
  have husable : ∀ {s : CoverageSystem} {nowUs : ℕ}, s.clock ≤ nowUs → s.broken = none →
      s.Seamless .restVenue btc (.take nowUs) := by
    intro s nowUs hclock hnone
    refine ⟨hclock, fun _ _ t ht => ?_⟩
    rw [hnone] at ht
    exact absurd ht (Option.not_mem_none t)
  refine ⟨seamless_run (by decide) (by decide),
    husable (by decide) (by decide),
    seamless_run (by decide) (by decide), ⟨by decide, ?_⟩,
    (by decide : _ ≤ 25), seamless_run (by decide) (by decide),
    husable (by decide) (by decide), (by decide : _ ≤ 40), trivial⟩
  -- the teardown reads the clock of the failure
  intro _ t ht
  have hsince : ((machine .restVenue reconciling btc).run sample
      (reconnectedAtOnce.take 3)).1.broken = some 20 := by decide
  exact Option.some.inj (ht.symm.trans hsince)

end Sample

end CoverageSystem
