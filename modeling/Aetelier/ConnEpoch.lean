import Aetelier.Trace
import Mathlib.Algebra.Group.Nat.Defs
import Mathlib.Data.List.Induction
import Mathlib.Data.List.Perm.Basic
import Mathlib.Order.Nat

/-!
# The epoch of a connection

Each connection has an epoch that is stamped on its rows. It is minted when the
socket has opened: the present time in microseconds, or one more than the epoch
before if the clock does not show a later time. The epoch before is in a cell
that any number of tasks read and write; a task reads it, works out the next
one, and writes that only if the cell still holds what it read – otherwise it
begins again with what it found.

The exchange may also fail for no reason. Whatever the order of the turns and the
times of the clock, the epochs that are handed out increase, and the cell holds
the last of them (`SourceMetrics.epochs_run`); at the end of the range of a `u64`
they stay there.
-/

/-! ## The cell -/

/-- The end of the range of a `u64`. -/
def epochMax : ℕ := 2 ^ 64 - 1

/-- A call of `next_conn_epoch_us`. -/
inductive EpochCall where
  /-- The clock is read. -/
  | clocked (nowUs : ℕ)
  /-- The cell is read, or was when the exchange failed. -/
  | loaded (nowUs prev : ℕ)
  /-- It has returned. -/
  | returned (nowUs next : ℕ)
deriving DecidableEq, Repr

/-- What a call has returned. -/
def EpochCall.epoch? : EpochCall → Option ℕ
  | .returned _ next => some next
  | _ => none

/-- The cell, and the calls in the order they were made. -/
structure SourceMetrics where
  connEpochUs : ℕ
  calls : List EpochCall
deriving DecidableEq, Repr

/-- What happens at the cell. -/
inductive EpochInput where
  /-- A call is made, and reads the clock: the microseconds as a `u128`. -/
  | begin (micros : ℕ)
  /-- A call takes a turn; an exchange may fail without a cause. -/
  | turn (call : ℕ) (spurious : Bool)
deriving DecidableEq, Repr

namespace SourceMetrics

def new : SourceMetrics where
  connEpochUs := 0
  calls := []

/-- The epoch after `prev`. -/
def nextEpoch (nowUs prev : ℕ) : ℕ := max nowUs (min (prev + 1) epochMax)

/-- One turn of a call on the cell: the cell and the call after it, and what it returns. -/
def callStep (cell : ℕ) (spurious : Bool) : EpochCall → (ℕ × EpochCall) × List ℕ
  | .clocked nowUs => ((cell, .loaded nowUs cell), [])
  | .loaded nowUs prev =>
    if cell = prev ∧ spurious = false then
      ((nextEpoch nowUs prev, .returned nowUs (nextEpoch nowUs prev)), [nextEpoch nowUs prev])
    else ((cell, .loaded nowUs cell), [])
  | .returned nowUs next => ((cell, .returned nowUs next), [])

/-- **One input.** -/
def step (m : SourceMetrics) : EpochInput → SourceMetrics × List ℕ
  | .begin micros => ({ m with calls := m.calls ++ [.clocked (micros % 2 ^ 64)] }, [])
  | .turn n spurious =>
    match m.calls[n]? with
    | none => (m, [])
    | some c =>
      let turn := callStep m.connEpochUs spurious c
      ({ connEpochUs := turn.1.1, calls := m.calls.set n turn.1.2 }, turn.2)

/-- The cell as a machine; it hands out the epochs. -/
def machine : Machine SourceMetrics EpochInput ℕ where
  step := step

/-! ## The order of the epochs -/

/-- What a call has read and worked out fits a `u64`. -/
def EpochCall.InRange : EpochCall → Prop
  | .clocked nowUs => nowUs ≤ epochMax
  | .loaded nowUs prev => nowUs ≤ epochMax ∧ prev ≤ epochMax
  | .returned nowUs next => nowUs ≤ next ∧ next ≤ epochMax

/-- An epoch comes before another, or they are at the end of the range. -/
def Before (a b : ℕ) : Prop := a < b ∨ a = epochMax ∧ b = epochMax

theorem Before.trans {a b c : ℕ} (hab : Before a b) (hbc : Before b c) : Before a c := by
  unfold Before at *
  omega

theorem before_nextEpoch {nowUs prev : ℕ} (hnow : nowUs ≤ epochMax) (hprev : prev ≤ epochMax) :
    Before prev (nextEpoch nowUs prev) ∧ nowUs ≤ nextEpoch nowUs prev
      ∧ nextEpoch nowUs prev ≤ epochMax := by
  unfold Before nextEpoch
  omega

/-- A call that has not returned yet takes a turn. -/
theorem filterMap_epoch_set {calls : List EpochCall} {n : ℕ} {c : EpochCall}
    (hc : calls[n]? = some c) (hopen : c.epoch? = none) (c' : EpochCall) :
    ((calls.set n c').filterMap EpochCall.epoch?).Perm
      (calls.filterMap EpochCall.epoch? ++ c'.epoch?.toList) := by
  induction calls generalizing n with
  | nil => cases hc
  | cons d calls ih =>
    cases n with
    | zero =>
      obtain rfl : d = c := Option.some.inj hc
      rw [List.set_cons_zero, List.filterMap_cons_none hopen]
      cases hc' : c'.epoch? with
      | none =>
        rw [List.filterMap_cons_none hc', Option.toList_none, List.append_nil]
      | some e =>
        rw [List.filterMap_cons_some hc', Option.toList_some]
        exact (List.perm_append_singleton e _).symm
    | succ n =>
      rw [List.set_cons_succ]
      cases hd : d.epoch? with
      | none =>
        rw [List.filterMap_cons_none hd, List.filterMap_cons_none hd]
        exact ih hc
      | some e =>
        rw [List.filterMap_cons_some hd, List.filterMap_cons_some hd, List.cons_append]
        exact (ih hc).cons e

/-- **The epochs are in order**, the cell holds the last of them, and they are what the
calls have returned. -/
structure Holds (m : SourceMetrics) (epochs : List ℕ) : Prop where
  inRange : ∀ c ∈ m.calls, EpochCall.InRange c
  returned : (m.calls.filterMap EpochCall.epoch?).Perm epochs
  cell_eq : m.connEpochUs = epochs.getLast?.getD 0
  cell_le : m.connEpochUs ≤ epochMax
  ordered : epochs.Pairwise Before

theorem Holds.quiet {m m' : SourceMetrics} {epochs : List ℕ} (h : m.Holds epochs)
    (hcell : m'.connEpochUs = m.connEpochUs) (hcalls : ∀ c ∈ m'.calls, EpochCall.InRange c)
    (hreturned : (m'.calls.filterMap EpochCall.epoch?).Perm
      (m.calls.filterMap EpochCall.epoch?)) : m'.Holds (epochs ++ []) := by
  rw [List.append_nil]
  exact ⟨hcalls, hreturned.trans h.returned, hcell.trans h.cell_eq, hcell.trans_le h.cell_le,
    h.ordered⟩

/-- What is exchanged comes after all that was handed out. -/
theorem Holds.exchanged {m : SourceMetrics} {epochs : List ℕ} (h : m.Holds epochs) {next : ℕ}
    (hnext : Before m.connEpochUs next) (hle : next ≤ epochMax) {calls : List EpochCall}
    (hcalls : ∀ c ∈ calls, EpochCall.InRange c)
    (hreturned : (calls.filterMap EpochCall.epoch?).Perm
      (m.calls.filterMap EpochCall.epoch? ++ [next])) :
    Holds { connEpochUs := next, calls := calls } (epochs ++ [next]) where
  inRange := hcalls
  returned := hreturned.trans (h.returned.append_right [next])
  cell_eq := by
    rw [List.getLast?_concat]
    rfl
  cell_le := hle
  ordered := by
    refine List.pairwise_append.mpr ⟨h.ordered, List.pairwise_singleton _ _, ?_⟩
    intro a ha b hb
    obtain rfl := List.mem_singleton.mp hb
    -- The last epoch is in the cell, and the others come before it.
    rcases List.eq_nil_or_concat' epochs with rfl | ⟨before, last, rfl⟩
    · cases ha
    · have hcell := h.cell_eq
      rw [List.getLast?_concat, Option.getD_some] at hcell
      have hlast : Before last b := hcell ▸ hnext
      rcases List.mem_append.mp ha with ha | ha
      · exact ((List.pairwise_append.mp h.ordered).2.2 a ha last
          (List.mem_singleton.mpr rfl)).trans hlast
      · rw [List.mem_singleton.mp ha]
        exact hlast

theorem Holds.step {m : SourceMetrics} {epochs : List ℕ} (h : m.Holds epochs) (i : EpochInput) :
    (m.step i).1.Holds (epochs ++ (m.step i).2) := by
  cases i with
  | begin micros =>
    refine h.quiet rfl (fun c hc => ?_) ?_
    · rcases List.mem_append.mp hc with hc | hc
      · exact h.inRange c hc
      · rw [List.mem_singleton.mp hc]
        show micros % 2 ^ 64 ≤ epochMax
        unfold epochMax
        omega
    · show ((m.calls ++ [_]).filterMap EpochCall.epoch?).Perm _
      rw [List.filterMap_append]
      exact List.Perm.of_eq (List.append_nil _)
  | turn n spurious =>
    unfold SourceMetrics.step
    dsimp only
    cases hc : m.calls[n]? with
    | none => exact h.quiet rfl h.inRange (List.Perm.refl _)
    | some c =>
      have hset : ∀ c', EpochCall.InRange c' → ∀ d ∈ m.calls.set n c', EpochCall.InRange d := by
        intro c' hc' d hd
        rcases List.mem_or_eq_of_mem_set hd with hd | rfl
        · exact h.inRange d hd
        · exact hc'
      have hrange := h.inRange c (List.mem_of_getElem? hc)
      cases c with
      | clocked nowUs =>
        refine h.quiet rfl (hset _ ⟨hrange, h.cell_le⟩) ?_
        exact (filterMap_epoch_set hc rfl _).trans (List.Perm.of_eq (List.append_nil _))
      | loaded nowUs prev =>
        unfold callStep
        dsimp only
        split
        · next hcas =>
          obtain ⟨hbefore, hnow, hle⟩ := before_nextEpoch hrange.1 hrange.2
          rw [← hcas.1] at hbefore
          exact h.exchanged (hcas.1 ▸ hbefore) hle (hset _ ⟨hnow, hle⟩)
            (filterMap_epoch_set hc rfl _)
        · refine h.quiet rfl (hset _ ⟨hrange.1, h.cell_le⟩) ?_
          exact (filterMap_epoch_set hc rfl _).trans (List.Perm.of_eq (List.append_nil _))
      | returned nowUs next =>
        refine h.quiet rfl (hset _ hrange) (List.Perm.of_eq ?_)
        obtain ⟨hn, hget⟩ := List.getElem?_eq_some_iff.mp hc
        show (m.calls.set n (.returned nowUs next)).filterMap EpochCall.epoch? = _
        rw [← hget, List.set_getElem_self hn]

theorem holds_run (is : List EpochInput) :
    (machine.run new is).1.Holds (machine.run new is).2 := by
  induction is using List.reverseRecOn with
  | nil => exact ⟨fun c hc => absurd hc List.not_mem_nil, List.Perm.nil, rfl, Nat.zero_le _,
      List.Pairwise.nil⟩
  | append_singleton is i ih =>
    have hout : (machine.run new (is ++ [i])).2
        = (machine.run new is).2 ++ ((machine.run new is).1.step i).2 := by
      rw [Machine.run_append]
      exact congrArg (_ ++ ·) (List.append_nil _)
    rw [Machine.run_append_singleton, hout]
    exact ih.step i

/-! ## Progress -/

/-- A turn of a call, when it is made. -/
theorem getElem?_turn {m : SourceMetrics} {n : ℕ} {c : EpochCall} (hc : m.calls[n]? = some c)
    (spurious : Bool) :
    (m.step (.turn n spurious)).1.connEpochUs = (callStep m.connEpochUs spurious c).1.1
      ∧ (m.step (.turn n spurious)).1.calls[n]?
        = some (callStep m.connEpochUs spurious c).1.2 := by
  have hlt : n < m.calls.length := (List.getElem?_eq_some_iff.mp hc).1
  unfold SourceMetrics.step
  dsimp only
  rw [hc]
  exact ⟨rfl, List.getElem?_set_self hlt⟩

/-- **Two turns on end are enough**, if the second exchange does not fail for nothing. -/
theorem returned_of_two_turns (m : SourceMetrics) {n : ℕ} (hn : n < m.calls.length) :
    ∃ nowUs next, (machine.run m [.turn n false, .turn n false]).1.calls[n]?
      = some (.returned nowUs next) := by
  obtain ⟨c, hc⟩ : ∃ c, m.calls[n]? = some c := ⟨_, List.getElem?_eq_getElem hn⟩
  obtain ⟨hcell, hcall⟩ := getElem?_turn hc false
  obtain ⟨-, hcall'⟩ := getElem?_turn hcall false
  show ∃ nowUs next, (((m.step (.turn n false)).1.step (.turn n false)).1).calls[n]? = _
  rw [hcall', hcell]
  cases c with
  | clocked nowUs => exact ⟨nowUs, nextEpoch nowUs m.connEpochUs, by simp [callStep]⟩
  | loaded nowUs prev =>
    by_cases hcas : m.connEpochUs = prev
    · exact ⟨nowUs, nextEpoch nowUs prev, by simp [callStep, hcas]⟩
    · exact ⟨nowUs, nextEpoch nowUs m.connEpochUs, by simp [callStep, hcas]⟩
  | returned nowUs next => exact ⟨nowUs, next, rfl⟩

/-- **The epochs of a source increase.** In every run, whatever the turns of the calls and
the times of the clock: the epochs that are handed out are those the calls return, each
comes after those before it – until the range of a `u64` is used up – and none is before
the time at which its call was made; the cell holds the last one. And a call that takes
two turns on end has returned, if no exchange fails for nothing. -/
theorem epochs_run (is : List EpochInput) :
    ((machine.run new is).1.calls.filterMap EpochCall.epoch?).Perm (machine.run new is).2
      ∧ ((machine.run new is).2).Pairwise Before
      ∧ (∀ nowUs next, EpochCall.returned nowUs next ∈ (machine.run new is).1.calls →
          nowUs ≤ next)
      ∧ (machine.run new is).1.connEpochUs = (machine.run new is).2.getLast?.getD 0
      ∧ ∀ n < (machine.run new is).1.calls.length,
        ∃ nowUs next, (machine.run new (is ++ [.turn n false, .turn n false])).1.calls[n]?
          = some (.returned nowUs next) := by
  have hholds := holds_run is
  refine ⟨hholds.returned, hholds.ordered, fun nowUs next hc => (hholds.inRange _ hc).1,
    hholds.cell_eq, fun n hn => ?_⟩
  rw [Machine.fst_run_append]
  exact returned_of_two_turns _ hn

end SourceMetrics
