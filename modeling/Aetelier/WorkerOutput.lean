import Aetelier.BufferedSink
import Aetelier.FrameworkWorker
import Aetelier.MarketFinalize

/-!
# The output of a worker

A worker calls its synchronizer and, after each call that may have completed
rows, drains it: the rows go to every sink of its set, and when enough of them
have gone since the last time, the set is flushed. At the stop the synchronizer
is closed, what it holds goes to the sinks, the set is flushed once more and
the worker returns its report.

This module reads the effects a worker writes – the framework worker or the
older one, which share all of this – and adds the environment: what the
flushers answer, and whether the gap ledger could be appended to. What it
writes is one `FlushCycle` per flush of the set.

A sink that fails to flush returns an error. The set logs it and returns `Ok`,
so the caller can neither count it nor return it: a run shows its failures
exactly if it has none (`WorkerOutput.visible_iff`).
-/

/-- What a flusher answers: the bytes and files it wrote, or an error. -/
abbrev FlushReport := Except String (ℕ × ℕ)

/-- **A sink.** Only the buffered one keeps what it is given, and only it has a
flush of its own. -/
inductive OutputSink where
  /-- A channel or the terminal. -/
  | plain (name : String)
  | buffered (sink : BufferedSink)

namespace OutputSink

/-- `name`. -/
def name : OutputSink → String
  | plain name => name
  | buffered _ => "buffered"

/-- `emit_snapshot`. -/
def emitSnapshot (snapshot : MarketSnapshot) : OutputSink → OutputSink
  | plain name => plain name
  | buffered sink => buffered (sink.emitSnapshot snapshot)

/-- `flush`, given what the flusher would answer. An empty buffer is not handed
to it. -/
def flush (answer : FlushReport) : OutputSink → OutputSink × Except String Unit
  | plain name => (plain name, .ok ())
  | buffered sink =>
    if sink.buffer.isEmpty then (buffered sink, .ok ())
    else
      match answer with
      | .ok (bytes, files) => (buffered (sink.flushed bytes files), .ok ())
      | .error e => (buffered sink.flushFailed, .error e)

/-- The sink holds rows. -/
def Holds : OutputSink → Prop
  | plain _ => False
  | buffered sink => sink.buffer ≠ []

instance : DecidablePred Holds
  | plain _ => inferInstanceAs (Decidable False)
  | buffered sink => inferInstanceAs (Decidable (sink.buffer ≠ []))

/-- A sink that rows can stay in. -/
def isBuffered : OutputSink → Bool
  | plain _ => false
  | buffered _ => true

end OutputSink

/-- **A set of sinks.** -/
structure OutputSinkSet where
  /-- The sinks, in the order they were added. -/
  sinks : List OutputSink

namespace OutputSinkSet

/-- `emit_snapshot`: to every sink. -/
def emitSnapshot (set : OutputSinkSet) (snapshot : MarketSnapshot) : OutputSinkSet :=
  ⟨set.sinks.map (OutputSink.emitSnapshot snapshot)⟩

/-- Every sink of a list is flushed; a failure is a warning with the name of
the sink and the error. -/
def flushSinks (answers : ℕ → FlushReport) :
    List OutputSink → List OutputSink × List (String × String)
  | [] => ([], [])
  | sink :: rest =>
    let r := sink.flush (answers 0)
    let later := flushSinks (fun k => answers (k + 1)) rest
    match r.2 with
    | .ok () => (r.1 :: later.1, later.2)
    | .error e => (r.1 :: later.1, (sink.name, e) :: later.2)

/-- `flush`: the set, the warnings, and what is returned. -/
def flush (set : OutputSinkSet) (answers : ℕ → FlushReport) :
    OutputSinkSet × List (String × String) × Except String Unit :=
  let r := flushSinks answers set.sinks
  (⟨r.1⟩, r.2, .ok ())

end OutputSinkSet

/-- What a worker returns when it finishes. -/
structure MarketWorkerReport where
  /-- Rows produced. -/
  snapshotsProduced : ℕ
  /-- Flush cycles completed. -/
  flushes : ℕ
deriving DecidableEq

/-- **The output of a worker.** -/
structure WorkerOutput where
  /-- The synchronizer. -/
  sync : MarketSynchronizer
  /-- The sinks. -/
  set : OutputSinkSet
  /-- Rows produced. -/
  snapshotsProduced : ℕ
  /-- Rows since the last flush. -/
  snapshotsSinceFlush : ℕ
  /-- Flush cycles. -/
  flushes : ℕ
  /-- The metric `flush_failures`. -/
  flushFailures : ℕ
  /-- The synchronizer is being closed. -/
  closing : Bool
  /-- What the worker has returned. -/
  returned : Option (Except String MarketWorkerReport)

/-- What an effect meets. -/
structure OutputEnv where
  /-- What the flusher of each sink would answer. -/
  answers : ℕ → FlushReport
  /-- The gap ledger, if there is one, can be appended to. -/
  appended : Bool

/-- **A flush of the set**, as seen from outside. -/
structure FlushCycle where
  /-- The sinks that failed, and their errors. -/
  failed : List (String × String)
  /-- By how much `flush_failures` rose. -/
  counted : ℕ
  /-- The worker returned an error. -/
  returned : Bool
  /-- It is the one at the stop. -/
  final : Bool

namespace WorkerOutput

/-- A worker that starts. -/
def start (sync : MarketSynchronizer) (sinks : List OutputSink) : WorkerOutput :=
  ⟨sync, ⟨sinks⟩, 0, 0, 0, 0, false, none⟩

/-- `drain_and_emit`: the rows go to every sink and are counted. -/
def drainAndEmit (o : WorkerOutput) : WorkerOutput :=
  { o with
    sync := o.sync.drain.1
    set := o.sync.drain.2.foldl OutputSinkSet.emitSnapshot o.set
    snapshotsProduced := o.snapshotsProduced + o.sync.drain.2.length }

/-- The same, with the rows counted towards the next flush. -/
def drainTowardsFlush (o : WorkerOutput) : WorkerOutput :=
  { o.drainAndEmit with
    snapshotsSinceFlush := o.snapshotsSinceFlush + o.sync.drain.2.length }

/-- Enough rows have gone since the last flush. -/
def Due (threshold : ℕ) (o : WorkerOutput) : Prop :=
  0 < threshold ∧ threshold ≤ o.snapshotsSinceFlush

instance (threshold : ℕ) (o : WorkerOutput) : Decidable (o.Due threshold) :=
  inferInstanceAs (Decidable (_ ∧ _))

/-- The cycle that took one state to another. -/
def cycle (o o' : WorkerOutput) (failed : List (String × String)) (final : Bool) : FlushCycle where
  failed := failed
  counted := o'.flushFailures - o.flushFailures
  returned := match o'.returned with
    | some (.error _) => true
    | _ => false
  final := final

/-- `maybe_flush`. An error of the set is returned. -/
def maybeFlush (threshold : ℕ) (o : WorkerOutput) (answers : ℕ → FlushReport) :
    WorkerOutput × List FlushCycle :=
  if o.Due threshold then
    let (set, failed, result) := o.set.flush answers
    let o' := match result with
      | .error e => { o with set := set, returned := some (.error e) }
      | .ok () => { o with set := set, snapshotsSinceFlush := 0, flushes := o.flushes + 1 }
    (o', [cycle o o' failed false])
  else (o, [])

/-- The final flush and the report. -/
def finish (o : WorkerOutput) (answers : ℕ → FlushReport) : WorkerOutput × List FlushCycle :=
  let (set, failed, result) := o.set.flush answers
  let o' := match result with
    | .error e => { o with set := set, returned := some (.error e) }
    | .ok () =>
      { o with
        set := set
        flushes := o.flushes + 1
        returned := some (.ok ⟨o.snapshotsProduced, o.flushes + 1⟩) }
  (o', [cycle o o' failed true])

/-- **An effect of the worker.** The drain after the synchronizer is closed is
the last one. -/
def step (threshold : ℕ) (o : WorkerOutput) (i : WorkerEffect × OutputEnv) :
    WorkerOutput × List FlushCycle :=
  if o.returned.isSome then (o, [])
  else
    match i.1 with
    | .call .drain =>
      if o.closing then o.drainAndEmit.finish i.2.answers
      else o.drainTowardsFlush.maybeFlush threshold i.2.answers
    | .call c => ({ o with sync := (o.sync.call c).1 }, [])
    | .finalize => ({ o with sync := o.sync.finalize, closing := true }, [])
    | .incident _ =>
      (if i.2.appended then o else { o with flushFailures := o.flushFailures + 1 }, [])
    | .trigger => (o, [])

/-- The output as a machine. -/
def machine (threshold : ℕ) : Machine WorkerOutput (WorkerEffect × OutputEnv) FlushCycle :=
  ⟨step threshold⟩

/-- **A run shows its failures.** Each failed flush of a sink is counted in
`flush_failures` or returned; the flushes reported are cycles in which every
sink flushed; a run whose final flush failed does not return a report. -/
structure Visible (r : WorkerOutput × List FlushCycle) : Prop where
  counted : ∀ c ∈ r.2, c.failed.length ≤ c.counted ∨ c.returned = true
  flushes : ∀ report, r.1.returned = some (.ok report) →
    report.flushes ≤ r.2.countP (fun c => c.failed.isEmpty)
  final : ∀ c ∈ r.2, c.final = true → c.failed ≠ [] → ∀ report, r.1.returned ≠ some (.ok report)

/-- **Every flusher that is called answers `Ok`**: a flush is made when a drain
reaches the threshold and at the last drain, and the flushers called are those
of the sinks that hold rows or are given some. -/
def Answered (threshold : ℕ) (o : WorkerOutput) (i : WorkerEffect × OutputEnv) : Prop :=
  match o.returned, i.1 with
  | none, .call .drain =>
    o.closing = true ∨ (0 < threshold ∧ threshold ≤ o.snapshotsSinceFlush + o.sync.buffer.length) →
      ∀ k sink, o.set.sinks[k]? = some sink →
        sink.Holds ∨ (sink.isBuffered = true ∧ o.sync.buffer ≠ []) →
          ∃ written, i.2.answers k = .ok written
  | _, _ => True

/-! ## Who is called -/

theorem holds_emitSnapshot (sink : OutputSink) (snapshot : MarketSnapshot) :
    (sink.emitSnapshot snapshot).Holds ↔ sink.isBuffered = true := by
  cases sink with
  | plain name => exact iff_of_false not_false Bool.false_ne_true
  | buffered sink => exact iff_of_true (by simp [OutputSink.emitSnapshot, OutputSink.Holds,
      BufferedSink.emitSnapshot]) rfl

theorem isBuffered_emitSnapshot (sink : OutputSink) (snapshot : MarketSnapshot) :
    (sink.emitSnapshot snapshot).isBuffered = sink.isBuffered := by
  cases sink <;> rfl

theorem isBuffered_of_holds {sink : OutputSink} (h : sink.Holds) : sink.isBuffered = true := by
  cases sink with
  | plain name => exact absurd h not_false
  | buffered sink => rfl

/-- A sink after some rows. -/
theorem holds_foldl_emitSnapshot (sink : OutputSink) (rows : List MarketSnapshot) :
    (rows.foldl (fun s row => OutputSink.emitSnapshot row s) sink).Holds
      ↔ sink.Holds ∨ (sink.isBuffered = true ∧ rows ≠ []) := by
  induction rows generalizing sink with
  | nil => simp
  | cons row rows ih =>
    rw [List.foldl_cons, ih, holds_emitSnapshot, isBuffered_emitSnapshot]
    constructor
    · rintro (h | h)
      · exact Or.inr ⟨h, List.cons_ne_nil _ _⟩
      · exact Or.inr ⟨h.1, List.cons_ne_nil _ _⟩
    · rintro (h | h)
      · exact Or.inl (isBuffered_of_holds h)
      · exact Or.inl h.1

theorem sinks_foldl_emitSnapshot (set : OutputSinkSet) (rows : List MarketSnapshot) :
    (rows.foldl OutputSinkSet.emitSnapshot set).sinks
      = set.sinks.map (fun sink =>
          rows.foldl (fun s row => OutputSink.emitSnapshot row s) sink) := by
  induction rows generalizing set with
  | nil => exact (List.map_id _).symm
  | cons row rows ih =>
    rw [List.foldl_cons, ih]
    show (set.sinks.map _).map _ = _
    rw [List.map_map]
    rfl

/-- A flush is an error if the flusher is called and fails. -/
theorem flush_eq_ok_iff (sink : OutputSink) (answer : FlushReport) :
    (sink.flush answer).2 = .ok () ↔ (sink.Holds → ∃ written, answer = .ok written) := by
  cases sink with
  | plain name => exact iff_of_true rfl (fun h => absurd h not_false)
  | buffered sink =>
    show (if sink.buffer.isEmpty then (OutputSink.buffered sink, Except.ok ()) else _).2 = _
      ↔ (sink.buffer ≠ [] → _)
    by_cases hempty : sink.buffer = []
    · rw [if_pos (List.isEmpty_iff.mpr hempty)]
      exact iff_of_true rfl (fun h => absurd hempty h)
    · rw [if_neg (fun h => hempty (List.isEmpty_iff.mp h))]
      cases answer with
      | ok written => exact iff_of_true rfl (fun _ => ⟨written, rfl⟩)
      | error e =>
        refine iff_of_false (fun h => nomatch h) (fun h => ?_)
        obtain ⟨written, hok⟩ := h hempty
        cases hok

/-- **No sink of a list fails** if every flusher that is called answers
`Ok`. -/
theorem flushSinks_eq_nil_iff (answers : ℕ → FlushReport) (sinks : List OutputSink) :
    (OutputSinkSet.flushSinks answers sinks).2 = []
      ↔ ∀ k sink, sinks[k]? = some sink → sink.Holds → ∃ written, answers k = .ok written := by
  induction sinks generalizing answers with
  | nil => exact iff_of_true rfl (fun k sink hk => by simp at hk)
  | cons sink sinks ih =>
    have hsplit : (OutputSinkSet.flushSinks answers (sink :: sinks)).2 = []
        ↔ (sink.flush (answers 0)).2 = .ok () ∧
          (OutputSinkSet.flushSinks (fun k => answers (k + 1)) sinks).2 = [] := by
      rw [OutputSinkSet.flushSinks]
      cases (sink.flush (answers 0)).2 with
      | ok _ => exact ⟨fun h => ⟨rfl, h⟩, fun h => h.2⟩
      | error e => exact iff_of_false (List.cons_ne_nil _ _) (fun h => nomatch h.1)
    rw [hsplit, flush_eq_ok_iff, ih]
    constructor
    · rintro ⟨hfirst, hrest⟩ k s hk
      cases k with
      | zero => exact Option.some.inj hk ▸ hfirst
      | succ k => exact hrest k s hk
    · intro h
      exact ⟨h 0 sink rfl, fun k s hk => h (k + 1) s hk⟩

/-- The sinks a drain has given its rows. -/
theorem flush_drainAndEmit (o : WorkerOutput) (answers : ℕ → FlushReport) :
    (o.drainAndEmit.set.flush answers).2.1 = [] ↔ ∀ k sink, o.set.sinks[k]? = some sink →
      sink.Holds ∨ (sink.isBuffered = true ∧ o.sync.buffer ≠ []) →
        ∃ written, answers k = .ok written := by
  show (OutputSinkSet.flushSinks answers (o.sync.buffer.foldl OutputSinkSet.emitSnapshot
    o.set).sinks).2 = [] ↔ _
  rw [flushSinks_eq_nil_iff, sinks_foldl_emitSnapshot]
  simp only [List.getElem?_map]
  constructor
  · intro h k sink hk hholds
    exact h k _ (by rw [hk]; rfl) ((holds_foldl_emitSnapshot sink _).mpr hholds)
  · intro h k sink' hk hholds
    obtain ⟨sink, hsink, rfl⟩ := Option.map_eq_some_iff.mp hk
    exact h k sink hsink ((holds_foldl_emitSnapshot sink _).mp hholds)

/-! ## A step -/

/-- **What a step is to the outside.** -/
inductive Outcome (threshold : ℕ) (o : WorkerOutput) (i : WorkerEffect × OutputEnv) : Prop where
  /-- No flush is made, and nothing returned. -/
  | quiet (hcycles : (o.step threshold i).2 = [])
      (hflushes : (o.step threshold i).1.flushes = o.flushes)
      (hreturned : (o.step threshold i).1.returned = o.returned)
      (hanswered : o.Answered threshold i)
  /-- A flush is made, and the counter counts it. -/
  | flush (failed : List (String × String)) (final : Bool)
      (hcycles : (o.step threshold i).2 = [⟨failed, 0, false, final⟩])
      (hflushes : (o.step threshold i).1.flushes = o.flushes + 1)
      (hreturned : ∀ result, (o.step threshold i).1.returned = some result →
        ∃ rows, result = .ok ⟨rows, o.flushes + 1⟩)
      (hrunning : o.returned = none)
      (hanswered : o.Answered threshold i ↔ failed = [])

/-- A flush that is due: the set returns `Ok`, so it is counted. -/
theorem maybeFlush_of_due {threshold : ℕ} {o : WorkerOutput} (hover : o.returned = none)
    (hdue : o.Due threshold) (answers : ℕ → FlushReport) :
    o.maybeFlush threshold answers
      = ({ o with
            set := (o.set.flush answers).1
            snapshotsSinceFlush := 0
            flushes := o.flushes + 1 },
          [⟨(o.set.flush answers).2.1, 0, false, false⟩]) := by
  unfold maybeFlush
  rw [if_pos hdue]
  unfold OutputSinkSet.flush cycle
  dsimp only
  rw [Nat.sub_self, hover]

/-- The last one. -/
theorem finish_eq (o : WorkerOutput) (answers : ℕ → FlushReport) :
    o.finish answers
      = ({ o with
            set := (o.set.flush answers).1
            flushes := o.flushes + 1
            returned := some (.ok ⟨o.snapshotsProduced, o.flushes + 1⟩) },
          [⟨(o.set.flush answers).2.1, 0, false, true⟩]) := by
  unfold finish OutputSinkSet.flush cycle
  dsimp only
  rw [Nat.sub_self]

/-- The last drain. -/
theorem outcome_finish {threshold : ℕ} {o : WorkerOutput} (hover : o.returned = none)
    (hclosing : o.closing = true) (env : OutputEnv) :
    Outcome threshold o (.call .drain, env) := by
  have hstep : o.step threshold (.call .drain, env) = o.drainAndEmit.finish env.answers :=
    (if_neg (by rw [hover]; exact Bool.false_ne_true)).trans (if_pos hclosing)
  rw [finish_eq] at hstep
  refine .flush (o.drainAndEmit.set.flush env.answers).2.1 true ?_ ?_ ?_ hover ?_
  · rw [hstep]
  · rw [hstep]
    rfl
  · rw [hstep]
    intro result hresult
    exact ⟨_, (Option.some.inj hresult).symm⟩
  · rw [flush_drainAndEmit]
    unfold Answered
    rw [hover]
    exact ⟨fun h => h (Or.inl hclosing), fun h _ => h⟩

/-- A drain before that. -/
theorem outcome_maybeFlush {threshold : ℕ} {o : WorkerOutput} (hover : o.returned = none)
    (hclosing : o.closing = false) (env : OutputEnv) :
    Outcome threshold o (.call .drain, env) := by
  have hanswered : o.Answered threshold (.call .drain, env)
      ↔ (o.drainTowardsFlush.Due threshold →
        (o.drainTowardsFlush.set.flush env.answers).2.1 = []) := by
    show _ ↔ (_ → (o.drainAndEmit.set.flush env.answers).2.1 = [])
    rw [flush_drainAndEmit]
    unfold Answered
    rw [hover, hclosing]
    exact ⟨fun h hdue => h (Or.inr hdue), fun h hdue => h (hdue.resolve_left Bool.false_ne_true)⟩
  have hstep : o.step threshold (.call .drain, env)
      = o.drainTowardsFlush.maybeFlush threshold env.answers :=
    (if_neg (by rw [hover]; exact Bool.false_ne_true)).trans
      (if_neg (by rw [hclosing]; exact Bool.false_ne_true))
  by_cases hdue : o.drainTowardsFlush.Due threshold
  · rw [maybeFlush_of_due (o := o.drainTowardsFlush) hover hdue] at hstep
    refine .flush (o.drainTowardsFlush.set.flush env.answers).2.1 false ?_ ?_ ?_ hover ?_
    · rw [hstep]
    · rw [hstep]
      rfl
    · rw [hstep]
      intro result hresult
      cases hover.symm.trans hresult
    · rw [hanswered]
      exact ⟨fun h => h hdue, fun h _ => h⟩
  · have hquiet : o.drainTowardsFlush.maybeFlush threshold env.answers
        = (o.drainTowardsFlush, []) := if_neg hdue
    rw [hquiet] at hstep
    exact .quiet (by rw [hstep]) (by rw [hstep]; rfl) (by rw [hstep]; rfl)
      (hanswered.mpr (fun h => absurd h hdue))

theorem outcome_step (threshold : ℕ) (o : WorkerOutput) (i : WorkerEffect × OutputEnv) :
    Outcome threshold o i := by
  obtain ⟨effect, env⟩ := i
  by_cases hover : o.returned = none
  · have hstep : ∀ e, o.step threshold (e, env) = _ := fun e =>
      if_neg (by rw [hover]; exact Bool.false_ne_true)
    cases effect with
    | trigger => exact .quiet (by rw [hstep]) (by rw [hstep]) (by rw [hstep]) (by simp [Answered])
    | finalize => exact .quiet (by rw [hstep]) (by rw [hstep]) (by rw [hstep]) (by simp [Answered])
    | incident gap =>
      refine .quiet (by rw [hstep]) ?_ ?_ (by simp [Answered])
      · rw [hstep]
        dsimp only
        split <;> rfl
      · rw [hstep]
        dsimp only
        split <;> rfl
    | call c =>
      cases c with
      | drain =>
        cases hclosing : o.closing with
        | true => exact outcome_finish hover hclosing env
        | false => exact outcome_maybeFlush hover hclosing env
      | _ => exact .quiet (by rw [hstep]) (by rw [hstep]) (by rw [hstep]) (by simp [Answered])
  · have hstep : o.step threshold (effect, env) = (o, []) :=
      if_pos (Option.isSome_iff_ne_none.mpr hover)
    refine .quiet (by rw [hstep]) (by rw [hstep]) (by rw [hstep]) ?_
    unfold Answered
    split
    · next hnone _ => exact absurd hnone hover
    · trivial

/-! ## A run -/

/-- **Every failure stays inside.** No flush of a run is counted in
`flush_failures` or returned, the worker returns no error, and every cycle is
counted as a flush. -/
structure Silent (flushes : ℕ) (r : WorkerOutput × List FlushCycle) : Prop where
  uncounted : ∀ c ∈ r.2, c.counted = 0 ∧ c.returned = false
  flushes : r.1.flushes = flushes + r.2.length
  report : ∀ result, r.1.returned = some result → ∃ rows, result = .ok ⟨rows, r.1.flushes⟩

theorem silent_run (threshold : ℕ) (o : WorkerOutput)
    (hreport : ∀ result, o.returned = some result → ∃ rows, result = .ok ⟨rows, o.flushes⟩)
    (steps : List (WorkerEffect × OutputEnv)) :
    Silent o.flushes ((machine threshold).run o steps) := by
  induction steps generalizing o with
  | nil => exact ⟨fun c hc => absurd hc List.not_mem_nil, rfl, hreport⟩
  | cons i steps ih =>
    have hrun : (machine threshold).run o (i :: steps)
        = (((machine threshold).run (o.step threshold i).1 steps).1,
          (o.step threshold i).2 ++ ((machine threshold).run (o.step threshold i).1 steps).2) := rfl
    rw [hrun]
    cases outcome_step threshold o i with
    | quiet hcycles hflushes hreturned _ =>
      have h := ih (o.step threshold i).1 (by rw [hreturned, hflushes]; exact hreport)
      rw [hcycles, List.nil_append, ← hflushes]
      exact h
    | flush failed final hcycles hflushes hreturned _ _ =>
      have h := ih (o.step threshold i).1 (by rw [hflushes]; exact hreturned)
      rw [hcycles]
      refine ⟨fun c hc => ?_, ?_, h.report⟩
      · rcases List.mem_cons.mp hc with rfl | hc
        · exact ⟨rfl, rfl⟩
        · exact h.uncounted c hc
      · dsimp only
        rw [h.flushes, hflushes, List.length_append, List.length_singleton, Nat.add_assoc]

/-- No sink fails in a run if every flusher called answers `Ok`. -/
theorem answered_iff (threshold : ℕ) (o : WorkerOutput) (steps : List (WorkerEffect × OutputEnv)) :
    (machine threshold).Meets (fun o i => o.Answered threshold i) o steps
      ↔ ∀ c ∈ ((machine threshold).run o steps).2, c.failed = [] := by
  refine (machine threshold).meets_iff_forall (fun o i => ?_) o steps
  show o.Answered threshold i ↔ ∀ c ∈ (o.step threshold i).2, c.failed = []
  cases outcome_step threshold o i with
  | quiet hcycles _ _ hanswered =>
    rw [hcycles]
    exact iff_of_true hanswered (fun c hc => absurd hc List.not_mem_nil)
  | flush failed final hcycles _ _ _ hanswered =>
    rw [hcycles, hanswered, List.forall_mem_singleton]

/-- **A run shows its failures exactly if it has none**: if every flusher that
is called answers `Ok`. -/
theorem visible_iff (threshold : ℕ) (sync : MarketSynchronizer) (sinks : List OutputSink)
    (steps : List (WorkerEffect × OutputEnv)) :
    Visible ((machine threshold).run (start sync sinks) steps)
      ↔ (machine threshold).Meets (fun o i => o.Answered threshold i) (start sync sinks) steps := by
  have hsilent := silent_run threshold (start sync sinks) (fun _ h => nomatch h) steps
  rw [answered_iff]
  constructor
  · intro hvisible c hc
    obtain ⟨hzero, hfalse⟩ := hsilent.uncounted c hc
    rcases hvisible.counted c hc with hle | htrue
    · exact List.eq_nil_of_length_eq_zero (Nat.le_zero.mp (hzero ▸ hle))
    · exact absurd (hfalse.symm.trans htrue) Bool.false_ne_true
  · intro hclean
    refine ⟨fun c hc => Or.inl ?_, fun report hreport => ?_, fun c hc _ hfailed => ?_⟩
    · rw [hclean c hc]
      exact Nat.zero_le _
    · obtain ⟨rows, hrows⟩ := hsilent.report _ hreport
      obtain rfl := Except.ok.inj hrows
      rw [List.countP_eq_length.mpr (fun c hc => by rw [hclean c hc]; rfl)]
      show _ ≤ _
      rw [hsilent.flushes]
      exact (Nat.zero_add _).le
    · exact absurd (hclean c hc) hfailed

/-! ## A disk that is full -/

/-- Two prints, of two periods, and a stop. -/
def twoPrints : List WorkerInput :=
  [.connected, .event (.trade (printAt 5)) 5,
    .event (.trade (printAt 15)) 15, .stopped 20]

/-- What the worker does. -/
def twoPrintsEffects : List WorkerEffect :=
  ((FrameworkWorker.machine FrameworkWorker.reconciling).run
    (FrameworkWorker.start FrameworkWorker.reconciling RandomState.table) twoPrints).2

/-- No flush succeeds. -/
def diskFull : OutputEnv := ⟨fun _ => .error "no space left on device", true⟩

/-- The run: one buffered sink, flushed after every row. -/
def diskFullRun : WorkerOutput × List FlushCycle :=
  (machine 1).run
    (start (tenMicros .tradeDriven 0).start
      [.buffered (.new "data" [.trades])])
    (twoPrintsEffects.map (fun e => (e, diskFull)))

/-- **Both flushes fail, and the run is reported as finished** with two rows and
two flushes: no failure is counted or returned. -/
theorem not_visible_diskFullRun :
    diskFullRun.1.returned = some (.ok ⟨2, 2⟩) ∧ ¬ Visible diskFullRun := by
  have hreturned : diskFullRun.1.returned = some (.ok ⟨2, 2⟩) := by decide
  have hclean : diskFullRun.2.countP (fun c => c.failed.isEmpty) = 0 := by decide
  refine ⟨hreturned, fun hvisible => ?_⟩
  have hflushes := hvisible.flushes _ hreturned
  rw [hclean] at hflushes
  exact absurd hflushes (by decide)

end WorkerOutput
