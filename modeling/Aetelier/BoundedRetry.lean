import Mathlib.Data.List.Basic

/-!
# Retries under a budget

Something is attempted again and again, until an attempt is final or the
budget of retries is spent. What it comes to is what is reported of the last
attempt made, under its number; the attempts count from zero.

The attempts themselves are a list, as they came to an end. While it comes to
nothing, every attempt in it could be retried and the budget covers them
(`BoundedRetry.outcome_eq_none_iff`); and where it comes to something only
with its last entry, that entry is final, or the one the budget ends with
(`BoundedRetry.exists_last`).
-/

/-- **How attempts are judged.** -/
structure BoundedRetry (α ρ : Type) where
  /-- The retries that are allowed. -/
  budget : ℕ
  /-- No retry follows this, whatever is left of the budget. -/
  isFinal : α → Bool
  /-- What it comes to, if the attempt of the number is the last. -/
  report : ℕ → α → ρ

namespace BoundedRetry

variable {α ρ : Type} (R : BoundedRetry α ρ)

/-- No retry follows the attempt of the number. -/
def isLast (n : ℕ) (a : α) : Bool := R.isFinal a || decide (R.budget ≤ n)

/-- What the attempts come to, if the first of them has the number. -/
def outcomeFrom : ℕ → List α → Option ρ
  | _, [] => none
  | n, a :: as => if R.isLast n a then some (R.report n a) else outcomeFrom (n + 1) as

/-- **What the attempts come to.** -/
def outcome (as : List α) : Option ρ := R.outcomeFrom 0 as

variable {R}

theorem isLast_eq_false_iff {n : ℕ} {a : α} :
    R.isLast n a = false ↔ R.isFinal a = false ∧ n < R.budget := by
  unfold isLast
  rw [Bool.or_eq_false_iff, decide_eq_false_iff_not, Nat.not_le]

theorem outcomeFrom_cons (n : ℕ) (a : α) (as : List α) :
    R.outcomeFrom n (a :: as)
      = if R.isLast n a then some (R.report n a) else R.outcomeFrom (n + 1) as := rfl

/-- Attempts that have come to nothing count towards those that follow. -/
theorem outcomeFrom_append_of_none {n : ℕ} {as : List α} (bs : List α)
    (h : R.outcomeFrom n as = none) :
    R.outcomeFrom n (as ++ bs) = R.outcomeFrom (n + as.length) bs := by
  induction as generalizing n with
  | nil => rfl
  | cons a as ih =>
    rw [outcomeFrom_cons] at h
    split at h
    · cases h
    · next hlast =>
      rw [List.cons_append, outcomeFrom_cons, if_neg hlast, ih h, List.length_cons,
        Nat.add_right_comm, Nat.add_assoc]

/-- What one more attempt adds. -/
theorem outcome_concat {as : List α} (a : α) (h : R.outcome as = none) :
    R.outcome (as ++ [a])
      = if R.isLast as.length a then some (R.report as.length a) else none := by
  unfold outcome at h ⊢
  rw [outcomeFrom_append_of_none [a] h, Nat.zero_add]
  rfl

theorem outcomeFrom_eq_none_iff {n : ℕ} {as : List α} :
    R.outcomeFrom n as = none
      ↔ (∀ a ∈ as, R.isFinal a = false) ∧ (as = [] ∨ n + as.length ≤ R.budget) := by
  induction as generalizing n with
  | nil => exact ⟨fun _ => ⟨fun a ha => absurd ha List.not_mem_nil, .inl rfl⟩, fun _ => rfl⟩
  | cons a as ih =>
    have hstep : R.outcomeFrom n (a :: as) = none
        ↔ R.isLast n a = false ∧ R.outcomeFrom (n + 1) as = none := by
      rw [outcomeFrom_cons]
      cases R.isLast n a with
      | false => exact ⟨fun h => ⟨rfl, h⟩, fun h => h.2⟩
      | true => exact ⟨fun h => (by cases h), fun h => (by cases h.1)⟩
    rw [hstep, isLast_eq_false_iff, ih, List.forall_mem_cons, List.length_cons]
    constructor
    · rintro ⟨⟨hfinal, hlt⟩, hrest, hlen⟩
      refine ⟨⟨hfinal, hrest⟩, .inr ?_⟩
      rcases hlen with rfl | hlen
      · exact hlt
      · omega
    · rintro ⟨⟨hfinal, hrest⟩, hnil | hlen⟩
      · cases hnil
      · exact ⟨⟨hfinal, by omega⟩, hrest, .inr (by omega)⟩

/-- **While it comes to nothing**, every attempt could be retried, and the budget
covers them. -/
theorem outcome_eq_none_iff {as : List α} :
    R.outcome as = none ↔ (∀ a ∈ as, R.isFinal a = false) ∧ as.length ≤ R.budget := by
  unfold outcome
  rw [outcomeFrom_eq_none_iff, Nat.zero_add]
  refine and_congr_right fun _ => ⟨fun h => ?_, .inr⟩
  rcases h with rfl | h
  · exact Nat.zero_le _
  · exact h

/-- **What it has come to is the report of the last attempt**, if the attempts
before that came to nothing. That attempt is final, or the budget ends with it. -/
theorem exists_last {as : List α} {r : ρ} (hbefore : R.outcome as.dropLast = none)
    (h : R.outcome as = some r) :
    ∃ before a, as = before ++ [a] ∧ (∀ b ∈ before, R.isFinal b = false)
      ∧ before.length ≤ R.budget ∧ (R.isFinal a = true ∨ before.length = R.budget)
      ∧ r = R.report before.length a := by
  rcases List.eq_nil_or_concat' as with rfl | ⟨before, a, rfl⟩
  · cases h
  · rw [List.dropLast_concat] at hbefore
    obtain ⟨hretried, hlen⟩ := outcome_eq_none_iff.mp hbefore
    rw [outcome_concat a hbefore] at h
    split at h
    · next hlast =>
      unfold isLast at hlast
      rw [Bool.or_eq_true, decide_eq_true_iff] at hlast
      exact ⟨before, a, rfl, hretried, hlen, hlast.imp_right (Nat.le_antisymm hlen ·),
        (Option.some.inj h).symm⟩
    · cases h

end BoundedRetry
