import Aetelier.SourcedOrderbook
import Aetelier.Trace

/-!
# The life cycle of a book

The states of a book are documented as `Empty → Synced ⇄ Gapped → Closed`: a
gapped book applies nothing until it is seeded again, and closed is the end.
Nothing in `apply` looks at the state. Each model sets it on its own paths, and
the last id survives a gap, so a gapped book treats a frame as it would treat
it in sync: the delta that continues the last id brings it back without a seed.
A closed book is reopened by whatever is applied to it
(`SourcedOrderbook.state_onCall_eq_closed_iff`).

So the life cycle is the caller's to keep. What it has to do is said by
`SourcedOrderbook.Respects`, and `SourcedOrderbook.follows_lifecycle` says that
it is enough, for every model and every order of calls.
-/

/-- A call on a book. -/
inductive BookCall where
  | apply (delta : NormalizedDelta)
  | forceGap
  | close
deriving DecidableEq, Repr

/-- **What a call did**: the book it met, the book it left, and what it
returned if it was an apply. -/
structure CallRecord where
  /-- The book before the call. -/
  before : SourcedOrderbook
  /-- The call. -/
  call : BookCall
  /-- The book after the call. -/
  after : SourcedOrderbook
  /-- The result of an apply. -/
  result : Option (Except ResyncNeeded BookOutput)

namespace SourcedOrderbook

/-- Close the book. -/
def close (sb : SourcedOrderbook) : SourcedOrderbook := { sb with state := .closed }

/-- The model takes a frame for a full book. -/
def TakesAsSnapshot (sb : SourcedOrderbook) (delta : NormalizedDelta) : Prop :=
  sb.model = .fullRefresh ∨ delta.isSnapshot = true

end SourcedOrderbook

/-- **The life cycle** as it is documented. -/
structure CallRecord.FollowsLifecycle (r : CallRecord) : Prop where
  /-- A gapped book applies nothing: a frame that is no snapshot is refused,
  and leaves the book as it was. -/
  inert : r.before.state = .gapped → ∀ delta, r.call = .apply delta →
    ¬ r.before.TakesAsSnapshot delta → r.after = r.before ∧ ∃ e, r.result = some (.error e)
  /-- It comes back through a frame applied as a snapshot. -/
  reseeded : r.before.state = .gapped → r.after.state = .synced →
    ∃ delta, r.call = .apply delta ∧ r.before.TakesAsSnapshot delta ∧
      r.result = some (.ok .snapshot)
  /-- A closed book stays closed. -/
  terminal : r.before.state = .closed → r.after.state = .closed

namespace SourcedOrderbook

section Calls

variable (x : Crates) (u : Unicode)

/-- A call, and its record. -/
def onCall (sb : SourcedOrderbook) : BookCall → SourcedOrderbook × List CallRecord
  | .apply delta =>
    ((sb.apply x u delta).1,
      [⟨sb, .apply delta, (sb.apply x u delta).1, some (sb.apply x u delta).2⟩])
  | .forceGap => (sb.forceGap, [⟨sb, .forceGap, sb.forceGap, none⟩])
  | .close => (sb.close, [⟨sb, .close, sb.close, none⟩])

/-- A book, call after call. -/
def calls : Machine SourcedOrderbook BookCall CallRecord where
  step := onCall x u

/-- The incremental book turns a delta away before it reads a level: it is of
another symbol, or no snapshot has been applied yet. -/
def TurnsAway (sb : SourcedOrderbook) (delta : NormalizedDelta) : Prop :=
  sb.book.acceptsSymbol u delta.symbol = false ∨ sb.book.initialized = false

/-- A delta does not continue the last id, or there is none. -/
def breaksOff (sb : SourcedOrderbook) (predicate : SeqPredicate) (delta : NormalizedDelta) :
    Bool :=
  match sb.last with
  | none => true
  | some last => !continuous predicate last delta

/-- **A frame is stopped**: by the continuity check of the model if it has
one, or at the door of the incremental book. -/
def Stops (sb : SourcedOrderbook) (delta : NormalizedDelta) : Prop :=
  match sb.model with
  | .fullRefresh => False
  | .seqDelta predicate _ => sb.breaksOff predicate delta = true ∨ sb.TurnsAway u delta
  | .checksumDelta _ => sb.TurnsAway u delta
  | .l3 _ => delta.orders = [] ∧ sb.TurnsAway u delta

/-- **A call respects the state of the book**: nothing but a close reaches a
closed book, and what reaches a gapped book is a snapshot or is stopped. -/
def Respects (sb : SourcedOrderbook) : BookCall → Prop
  | .apply delta => sb.state ≠ .closed ∧
      (sb.state = .gapped → sb.TakesAsSnapshot delta ∨ sb.Stops u delta)
  | .forceGap => sb.state ≠ .closed
  | .close => True

instance (sb : SourcedOrderbook) (delta : NormalizedDelta) : Decidable (sb.TurnsAway u delta) :=
  inferInstanceAs (Decidable (_ ∨ _))

instance (sb : SourcedOrderbook) (delta : NormalizedDelta) : Decidable (sb.TakesAsSnapshot delta) :=
  inferInstanceAs (Decidable (_ ∨ _))

instance decidableStops (sb : SourcedOrderbook) (delta : NormalizedDelta) :
    Decidable (sb.Stops u delta) := by
  unfold Stops
  split <;> infer_instance

instance decidableRespects (sb : SourcedOrderbook) : (call : BookCall) →
    Decidable (sb.Respects u call)
  | .apply _ => inferInstanceAs (Decidable (_ ∧ (_ → _)))
  | .forceGap => inferInstanceAs (Decidable (¬ _))
  | .close => isTrue trivial

/-! ## What is stopped leaves no trace -/

variable {x u}

/-- Gapping a gapped book changes nothing. -/
theorem gap_of_gapped {sb : SourcedOrderbook} (h : sb.state = .gapped) (reason : ResyncReason) :
    sb.gap reason = (sb, .error ⟨reason, sb.recovery⟩) := by
  unfold gap
  rw [← h]

/-- A frame that leaves a book as it was and is refused. -/
def Refuses (sb : SourcedOrderbook) (r : Applied) : Prop := ∃ e, r = (sb, .error e)

theorem refuses_gap {sb : SourcedOrderbook} (h : sb.state = .gapped) (reason : ResyncReason) :
    sb.Refuses (sb.gap reason) :=
  ⟨_, gap_of_gapped h reason⟩

/-- A delta turned away leaves no trace on a gapped book. -/
theorem refuses_processed {sb : SourcedOrderbook} {delta : NormalizedDelta}
    (h : sb.state = .gapped) (hdelta : delta.isSnapshot = false) (haway : sb.TurnsAway u delta)
    (next : SourcedOrderbook → Applied) : sb.Refuses (sb.processed x u delta next) := by
  obtain ⟨e, hp⟩ : ∃ e, sb.book.process x u delta = (sb.book, .error e) := by
    cases hsym : sb.book.acceptsSymbol u delta.symbol with
    | false => exact ⟨_, OrderbookDelta.process_of_not_accepts hsym⟩
    | true =>
      have hinit : sb.book.initialized = false := by
        refine haway.resolve_left (fun hfalse => ?_)
        rw [hsym] at hfalse
        cases hfalse
      unfold OrderbookDelta.process OrderbookDelta.applyDelta
      rw [hsym, hdelta, if_neg (by decide), if_neg (by decide), if_pos hinit]
      exact ⟨_, rfl⟩
  unfold processed
  rw [hp]
  exact refuses_gap h _

/-- **A gapped book refuses what is stopped**, and stays as it was. -/
theorem refuses_apply {sb : SourcedOrderbook} {delta : NormalizedDelta}
    (h : sb.state = .gapped) (hsnap : ¬ sb.TakesAsSnapshot delta) (hstops : sb.Stops u delta) :
    sb.Refuses (sb.apply x u delta) := by
  have hdelta : delta.isSnapshot = false := Bool.not_eq_true _ ▸ fun hs => hsnap (.inr hs)
  suffices hmodel : sb.Refuses (sb.applyModel x u delta) by
    obtain ⟨e, he⟩ := hmodel
    exact ⟨e, apply_of_model_error he⟩
  unfold Stops at hstops
  unfold applyModel
  cases hm : sb.model with
  | fullRefresh => exact absurd (.inl hm) hsnap
  | checksumDelta fmt =>
    rw [hm] at hstops
    exact refuses_processed h hdelta hstops _
  | seqDelta predicate source =>
    rw [hm] at hstops
    show sb.Refuses (sb.applySeqDelta x u delta predicate)
    unfold applySeqDelta
    rw [if_neg (by rw [hdelta]; decide)]
    unfold breaksOff at hstops
    cases hlast : sb.last with
    | none => exact refuses_gap h _
    | some last =>
      rw [hlast] at hstops
      show sb.Refuses (if continuous predicate last delta = false then _ else _)
      split
      · exact refuses_gap h _
      · next hcont =>
        -- a delta that continues the last id must have been turned away
        refine refuses_processed h hdelta (hstops.resolve_left (fun hbreak => hcont ?_)) _
        exact Bool.not_eq_true' _ ▸ hbreak
  | l3 source =>
    rw [hm] at hstops
    show sb.Refuses (sb.applyL3 x u delta)
    unfold applyL3
    rw [hdelta, hstops.1]
    show sb.Refuses (if l3MaxOrders < sb.l3Orders.keys.length then sb.gap _ else
      sb.processed x u (L3Fold.levelDelta x ⟨sb.l3Orders, sb.l3Levels, []⟩ delta) _)
    split
    · exact refuses_gap h _
    · have hlevel : (L3Fold.levelDelta x ⟨sb.l3Orders, sb.l3Levels, []⟩ delta).isSnapshot
          = false := hdelta
      exact refuses_processed h hlevel hstops.2 _

/-! ## The state an apply leaves -/

/-- The state that goes with a result. -/
def stateOf : Except ResyncNeeded BookOutput → OrderBookState
  | .ok _ => .synced
  | .error _ => .gapped

/-- **An apply ends in sync or gapped**, whatever the state it began in. -/
theorem state_apply (sb : SourcedOrderbook) (delta : NormalizedDelta) :
    (sb.apply x u delta).1.state = stateOf (sb.apply x u delta).2 := by
  have hends := ends_apply (x := x) (u := u) sb delta
  generalize sb.apply x u delta = r at hends
  cases hends with
  | gap sb' h reason => rfl
  | synced sb' h output => rfl

/-- A frame taken for a full book is reported as a snapshot if it applies. -/
theorem apply_takesAsSnapshot {sb sb' : SourcedOrderbook} {delta : NormalizedDelta}
    {output : BookOutput} (hsnap : sb.TakesAsSnapshot delta)
    (h : sb.apply x u delta = (sb', .ok output)) : output = .snapshot := by
  rcases hsnap with hm | hsnap
  · have hmodel := (apply_ok h).1
    unfold applyModel at hmodel
    rw [hm] at hmodel
    obtain ⟨-, -, hs⟩ := processed_ok hmodel
    cases hs
    rfl
  · exact apply_snapshot hsnap h

/-! ## The life cycle -/

/-- **Closed is what a close leaves, and nothing else**: every other call
reopens a closed book. -/
theorem state_onCall_eq_closed_iff (sb : SourcedOrderbook) (call : BookCall) :
    (sb.onCall x u call).1.state = .closed ↔ call = .close := by
  cases call with
  | forceGap => exact iff_of_false (fun h => by cases h) (fun h => by cases h)
  | close => exact iff_of_true rfl rfl
  | apply delta =>
    refine iff_of_false (fun h => ?_) (fun h => by cases h)
    have hstate := (state_apply (x := x) (u := u) sb delta).symm.trans h
    cases hr : (sb.apply x u delta).2 <;> rw [hr] at hstate <;> cases hstate

/-- A call that respects the state follows the life cycle. -/
theorem followsLifecycle_onCall {sb : SourcedOrderbook} {call : BookCall}
    (h : sb.Respects u call) : ∀ r ∈ (sb.onCall x u call).2, r.FollowsLifecycle := by
  cases call with
  | forceGap =>
    refine List.forall_mem_singleton.mpr ⟨fun _ _ hcall => (by cases hcall),
      fun _ hsync => (by cases hsync), fun hclosed => absurd hclosed h⟩
  | close =>
    exact List.forall_mem_singleton.mpr ⟨fun _ _ hcall => (by cases hcall),
      fun _ hsync => (by cases hsync), fun _ => rfl⟩
  | apply delta =>
    obtain ⟨hopen, hgapped⟩ := h
    refine List.forall_mem_singleton.mpr ⟨fun hgap d hcall hsnap => ?_, fun hgap hsync => ?_,
      fun hclosed => absurd hclosed hopen⟩
    · cases hcall
      obtain ⟨e, he⟩ := refuses_apply (x := x) hgap hsnap ((hgapped hgap).resolve_left hsnap)
      show (sb.apply x u delta).1 = sb ∧ ∃ e, some (sb.apply x u delta).2 = some (.error e)
      rw [he]
      exact ⟨rfl, e, rfl⟩
    · -- a frame that is no snapshot was refused, so the book could not come back
      have hstate := (state_apply (x := x) (u := u) sb delta).symm.trans hsync
      cases hr : (sb.apply x u delta).2 with
      | error e =>
        rw [hr] at hstate
        cases hstate
      | ok output =>
        have hok : sb.apply x u delta = ((sb.apply x u delta).1, .ok output) :=
          Prod.ext rfl hr
        have hsnap : sb.TakesAsSnapshot delta := by
          by_contra hno
          obtain ⟨e, he⟩ := refuses_apply (x := x) hgap hno ((hgapped hgap).resolve_left hno)
          rw [he] at hr
          cases hr
        refine ⟨delta, rfl, hsnap, ?_⟩
        rw [apply_takesAsSnapshot hsnap hok]

/-- **The life cycle is kept by calls that respect it**: for every model and
every sequence of calls, if nothing but closes reaches a closed book and a
gapped book meets only snapshots and deltas that are stopped, then a gapped
book applies nothing and comes back only through a snapshot, and a closed book
stays closed. -/
theorem follows_lifecycle (sb : SourcedOrderbook) (inputs : List BookCall)
    (h : (calls x u).Meets (Respects u) sb inputs) :
    ∀ r ∈ ((calls x u).run sb inputs).2, r.FollowsLifecycle :=
  ((calls x u).forall_of_invariant (I := fun _ => True)
    (fun _ _ _ hcall => ⟨trivial, followsLifecycle_onCall hcall⟩) trivial h).2

end Calls

/-! ## A gap, and the delta after it -/

/-- A frame of a feed, without levels. -/
def emptyFrame (updateId : ℕ) (isSnapshot : Bool) : NormalizedDelta where
  symbol := "BTC/USDT"
  bids := []
  asks := []
  updateId := updateId
  sequence := updateId
  isSnapshot := isSnapshot

/-- A book that is checked by its ids. -/
def monotonicBook : SourcedOrderbook :=
  new ⟨"BTC", "USDT"⟩ (.seqDelta .monotonic .wssSelfSeed) .resubscribe

/-- **The life cycle is not kept by itself**: after a snapshot at 5 a repeated
id 5 is a gap, and the delta at 6 brings the book back without a seed. -/
theorem not_followsLifecycle_deltaAfterGap :
    ¬ ∀ r ∈ ((calls .plain ⟨id, id⟩).run monotonicBook
        [.apply (emptyFrame 5 true), .apply (emptyFrame 5 false),
          .apply (emptyFrame 6 false)]).2, r.FollowsLifecycle := by
  intro h
  have hlast := h _ (List.mem_cons_of_mem _ (List.mem_cons_of_mem _ List.mem_cons_self))
  obtain ⟨delta, -, -, hresult⟩ := hlast.reseeded (by decide) (by decide)
  revert hresult
  decide

/-- The calls of a life: a gap that is seeded again, another, and a close. -/
def reseededLife : List BookCall :=
  [.apply (emptyFrame 5 true), .apply (emptyFrame 5 false), .apply (emptyFrame 5 false),
    .apply (emptyFrame 9 true), .apply (emptyFrame 10 false), .forceGap,
    .apply (emptyFrame 11 false), .close, .close]

/-- **It keeps the life cycle.** -/
theorem follows_lifecycle_reseeded :
    ((calls .plain ⟨id, id⟩).run monotonicBook reseededLife).1.state = .closed ∧
      ∀ r ∈ ((calls .plain ⟨id, id⟩).run monotonicBook reseededLife).2, r.FollowsLifecycle :=
  ⟨by decide, follows_lifecycle monotonicBook _ (by decide)⟩

end SourcedOrderbook
