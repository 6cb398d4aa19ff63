import Mathlib.Data.List.Basic
import Mathlib.Order.Nat

/-!
# Binary search by a comparison

`slice::binary_search_by`: the entries of a list are compared with what is
looked for, and a window is halved until one entry is left. What is found
always compares equal. If the comparison ascends along the list – first less,
then equal, then greater – something is found wherever there is something
(`List.isSome_binarySearchBy_iff`).

The window is that of the loop of the standard library: it keeps its lower end
where the middle compares greater, and moves it to the middle elsewhere.
-/

namespace BinarySearch

/-- The entry that is left of a window, with fuel for each time it is halved. -/
def narrow (f : ℕ → Ordering) : ℕ → ℕ → ℕ → ℕ
  | 0, _, base => base
  | fuel + 1, size, base =>
    if 1 < size then
      narrow f fuel (size - size / 2)
        (if f (base + size / 2) = .gt then base else base + size / 2)
    else base

/-- The comparison ascends up to the number. -/
structure Ascending (f : ℕ → Ordering) (n : ℕ) : Prop where
  gt_of_gt : ∀ i j, i < j → j < n → f i = .gt → f j = .gt
  lt_of_lt : ∀ i j, i < j → j < n → f j = .lt → f i = .lt

variable {f : ℕ → Ordering} {n : ℕ}

/-- **Halving keeps what is looked for**: if something in the window compares equal, then
the entry that is left does. -/
theorem narrow_eq (hf : Ascending f n) {fuel size base k : ℕ} (hfuel : size ≤ fuel + 1)
    (hn : base + size ≤ n) (hlo : base ≤ k) (hhi : k < base + size) (hk : f k = .eq) :
    f (narrow f fuel size base) = .eq := by
  induction fuel generalizing size base k with
  | zero =>
    have hkb : k = base := by omega
    rw [← hkb]
    exact hk
  | succ fuel ih =>
    unfold narrow
    split
    · next hsize =>
      split
      · next hgt =>
        -- What compares equal lies before what compares greater.
        have hlt : k < base + size / 2 := by
          by_contra hge
          rcases Nat.eq_or_lt_of_le (Nat.not_lt.mp hge) with heq | hlt
          · rw [heq, hk] at hgt
            cases hgt
          · have hgreater := hf.gt_of_gt _ _ hlt (by omega) hgt
            rw [hk] at hgreater
            cases hgreater
        exact ih (by omega) (by omega) hlo (by omega) hk
      · next hgt =>
        rcases Nat.lt_or_ge k (base + size / 2) with hlt | hge
        · have hmid : f (base + size / 2) = .eq := by
            cases hcmp : f (base + size / 2) with
            | eq => rfl
            | gt => exact absurd hcmp hgt
            | lt =>
              have hless := hf.lt_of_lt _ _ hlt (by omega) hcmp
              rw [hk] at hless
              cases hless
          exact ih (by omega) (by omega) le_rfl (by omega) hmid
        · exact ih (by omega) (by omega) hge (by omega) hk
    · next hsize =>
      have hkb : k = base := by omega
      rw [← hkb]
      exact hk

end BinarySearch

namespace List

variable {α : Type}

/-- The comparison of the entry at a position. -/
def comparisonAt (cmp : α → Ordering) (l : List α) (i : ℕ) : Ordering :=
  (l[i]?.map cmp).getD .gt

/-- `slice::binary_search_by`, the position where something was found. -/
def binarySearchBy (cmp : α → Ordering) (l : List α) : Option ℕ :=
  if l.isEmpty then none
  else
    let base := BinarySearch.narrow (l.comparisonAt cmp) l.length l.length 0
    if l.comparisonAt cmp base = .eq then some base else none

variable {cmp : α → Ordering} {l : List α}

theorem comparisonAt_eq_eq_iff {i : ℕ} :
    l.comparisonAt cmp i = .eq ↔ ∃ a, l[i]? = some a ∧ cmp a = .eq := by
  unfold comparisonAt
  cases l[i]? with
  | none => exact ⟨fun h => (by cases h), fun ⟨a, h, _⟩ => (by cases h)⟩
  | some a => exact ⟨fun h => ⟨a, rfl, h⟩, fun ⟨b, hb, h⟩ => Option.some.inj hb ▸ h⟩

/-- **What is found compares equal.** -/
theorem exists_of_binarySearchBy {i : ℕ} (h : l.binarySearchBy cmp = some i) :
    ∃ a, l[i]? = some a ∧ cmp a = .eq := by
  unfold binarySearchBy at h
  split at h
  · cases h
  · dsimp only at h
    split at h
    · next heq =>
      obtain rfl := Option.some.inj h
      exact comparisonAt_eq_eq_iff.mp heq
    · cases h

/-- **Where the comparison ascends, something is found if there is something.** -/
theorem isSome_binarySearchBy_iff (hl : BinarySearch.Ascending (l.comparisonAt cmp) l.length) :
    (l.binarySearchBy cmp).isSome = true ↔ ∃ a ∈ l, cmp a = .eq := by
  constructor
  · intro h
    obtain ⟨i, hi⟩ := Option.isSome_iff_exists.mp h
    obtain ⟨a, ha, hcmp⟩ := exists_of_binarySearchBy hi
    exact ⟨a, List.mem_of_getElem? ha, hcmp⟩
  · rintro ⟨a, ha, hcmp⟩
    obtain ⟨k, hk⟩ := List.mem_iff_getElem?.mp ha
    have hlen : k < l.length := (List.getElem?_eq_some_iff.mp hk).1
    have hfound := BinarySearch.narrow_eq hl (Nat.le_succ l.length) (Nat.zero_add _).le
      (Nat.zero_le k) (by omega) (comparisonAt_eq_eq_iff.mpr ⟨a, hk, hcmp⟩)
    have hne : l.isEmpty = false := by
      rw [List.isEmpty_eq_false_iff]
      exact List.ne_nil_of_mem ha
    unfold binarySearchBy
    rw [if_neg (by rw [hne]; exact Bool.false_ne_true)]
    dsimp only
    rw [if_pos hfound]
    rfl

end List
