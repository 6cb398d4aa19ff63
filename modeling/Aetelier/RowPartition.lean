import Mathlib.Algebra.BigOperators.Group.Multiset.Basic
import Mathlib.Algebra.Order.Ring.Nat

/-!
# Cutting a multiset at two bounds

Elements carry a row number. Two bounds cut a multiset into the elements at
or below the lower one, the elements of each row between them, and the
elements above the upper one – and nothing is lost or counted twice
(`Multiset.eq_partition_rows`).
-/

namespace Multiset

variable {α : Type}

/-- The elements of a multiset in the rows `(lo, lo + n]`, row by row. -/
def rows (row : α → ℕ) (lo n : ℕ) (M : Multiset α) : Multiset α :=
  ((List.range' (lo + 1) n).map (fun p => M.filter (fun e => row e = p))).sum

theorem rows_zero (row : α → ℕ) (lo : ℕ) (M : Multiset α) : M.rows row lo 0 = 0 := rfl

theorem rows_succ (row : α → ℕ) (lo n : ℕ) (M : Multiset α) :
    M.rows row lo (n + 1) = M.rows row lo n + M.filter (fun e => row e = lo + n + 1) := by
  unfold rows
  rw [List.range'_concat, List.map_append, List.sum_append]
  simp only [List.map_cons, List.map_nil, List.sum_cons, List.sum_nil, add_zero]
  rw [show lo + 1 + 1 * n = lo + n + 1 by omega]

/-- Raising an upper bound by one moves one row below it. -/
theorem filter_lt_eq_add (row : α → ℕ) (b : ℕ) (M : Multiset α) :
    M.filter (fun e => b < row e)
      = M.filter (fun e => row e = b + 1) + M.filter (fun e => b + 1 < row e) := by
  rw [← filter_add_not (fun e => row e = b + 1) (M.filter (fun e => b < row e)),
    filter_filter, filter_filter]
  congr 1
  · exact filter_congr (fun e _ => by omega)
  · exact filter_congr (fun e _ => by omega)

/-- **Two bounds cut a multiset into three parts**: at or below the lower
bound, row by row between the two, and above the upper bound. -/
theorem eq_partition_rows (row : α → ℕ) (lo n : ℕ) (M : Multiset α) :
    M = M.filter (fun e => row e ≤ lo) + M.rows row lo n
      + M.filter (fun e => lo + n < row e) := by
  induction n with
  | zero =>
    rw [rows_zero, add_zero, Nat.add_zero]
    nth_rewrite 1 [← filter_add_not (fun e => row e ≤ lo) M]
    congr 1
    exact filter_congr (fun e _ => by omega)
  | succ n ih =>
    rw [rows_succ]
    nth_rewrite 1 [ih]
    rw [filter_lt_eq_add row (lo + n) M]
    simp only [add_assoc]

/-- The rows between two bounds hold what lies between them. -/
theorem rows_eq_filter (row : α → ℕ) (lo n : ℕ) (M : Multiset α) :
    M.rows row lo n = M.filter (fun e => lo < row e ∧ row e ≤ lo + n) := by
  induction n with
  | zero =>
    rw [rows_zero, eq_comm, filter_eq_nil]
    intro e _ h
    omega
  | succ n ih =>
    rw [rows_succ, ih, ← filter_add_not (fun e => row e ≤ lo + n)
      (M.filter (fun e => lo < row e ∧ row e ≤ lo + (n + 1))), filter_filter, filter_filter]
    congr 1
    · exact filter_congr (fun e _ => by omega)
    · exact filter_congr (fun e _ => by omega)

end Multiset
