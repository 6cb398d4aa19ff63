import Mathlib.Algebra.BigOperators.Intervals
import Mathlib.Algebra.Order.Group.Nat
import Mathlib.Data.List.GetD
import Mathlib.Tactic.Abel

/-!
# Changes of a series that is cut into batches

A series of entries is cut into batches. Each entry has a value, and a list of
changes holds the difference of each value to the one before – but each batch
starts again, from zero. The changes between two entries then sum up to the
difference of their values and, for each cut between them, the value before the
cut once more (`sum_changeAt`).

Where only the differences between some of the entries matter, those that are
*marked*, this is exact precisely if no cut follows a value other than zero with
a marked entry still to come (`telescopes_iff`).
-/

namespace Batches

variable {α G : Type} [AddCommGroup G] (c : α → G)

/-- The differences of the values, that of the first to `prev`. -/
def changes (prev : G) : List α → List G
  | [] => []
  | a :: rest => (c a - prev) :: changes (c a) rest

/-- The changes of all batches, each from zero on. -/
def allChanges (batches : List (List α)) : List G := batches.flatMap (changes c 0)

/-- The value of the entry `k`, zero if there is none. -/
def valueAt (l : List α) (k : ℕ) : G := (l.map c).getD k 0

/-- The change at the entry `k`, zero if there is none. -/
def changeAt (batches : List (List α)) (k : ℕ) : G := (allChanges c batches).getD k 0

omit [AddCommGroup G] in
/-- A batch begins at the entry `k`. -/
def Cut (batches : List (List α)) (k : ℕ) : Prop :=
  ∃ before after, batches = before ++ after ∧ before.flatten.length = k

variable {c}

theorem length_changes (prev : G) (l : List α) : (changes c prev l).length = l.length := by
  induction l generalizing prev with
  | nil => rfl
  | cons a rest ih =>
    show (changes c (c a) rest).length + 1 = rest.length + 1
    rw [ih]

theorem valueAt_append_right {l l' : List α} {k : ℕ} (h : l.length ≤ k) :
    valueAt c (l ++ l') k = valueAt c l' (k - l.length) := by
  unfold valueAt
  rw [List.map_append, List.getD_append_right _ _ _ _ (by rwa [List.length_map]),
    List.length_map]

theorem valueAt_append {l l' : List α} {k : ℕ} (h : k < l.length) :
    valueAt c (l ++ l') k = valueAt c l k := by
  unfold valueAt
  rw [List.map_append, List.getD_append _ _ _ _ (by rwa [List.length_map])]

theorem valueAt_of_getElem? {l : List α} {k : ℕ} {a : α} (h : l[k]? = some a) :
    valueAt c l k = c a := by
  unfold valueAt
  rw [List.getD_eq_getElem?_getD, List.getElem?_map, h]
  rfl

/-- The changes of one batch. -/
theorem getD_changes (prev : G) {l : List α} {k : ℕ} (hk : k < l.length) :
    (changes c prev l).getD k 0
      = valueAt c l k - if k = 0 then prev else valueAt c l (k - 1) := by
  induction l generalizing prev k with
  | nil => exact absurd hk (Nat.not_lt_zero k)
  | cons a rest ih =>
    cases k with
    | zero => rfl
    | succ k =>
      have hrest := ih (c a) (Nat.lt_of_succ_lt_succ hk)
      have hprev : (if k = 0 then c a else valueAt c rest (k - 1))
          = valueAt c (a :: rest) k := by
        cases k <;> rfl
      show (changes c (c a) rest).getD k 0 = valueAt c rest k - valueAt c (a :: rest) k
      rw [hrest, hprev]

/-! ## Where the batches begin -/

theorem cut_zero (batches : List (List α)) : Cut batches 0 := ⟨[], batches, rfl, rfl⟩

theorem cut_cons_of_lt {b : List α} {rest : List (List α)} {k : ℕ} (hk : k < b.length) :
    Cut (b :: rest) k ↔ k = 0 := by
  constructor
  · rintro ⟨before, after, hsplit, hlen⟩
    cases before with
    | nil => exact hlen.symm
    | cons b' before =>
      obtain ⟨rfl, -⟩ := List.cons.inj hsplit
      rw [List.flatten_cons, List.length_append] at hlen
      omega
  · rintro rfl
    exact cut_zero _

theorem cut_cons_of_le {b : List α} {rest : List (List α)} {k : ℕ} (hk : b.length ≤ k) :
    Cut (b :: rest) k ↔ Cut rest (k - b.length) := by
  constructor
  · rintro ⟨before, after, hsplit, hlen⟩
    cases before with
    | nil =>
      have hzero : k - b.length = 0 := by
        rw [← hlen]
        exact Nat.zero_sub _
      rw [hzero]
      exact cut_zero rest
    | cons b' before =>
      obtain ⟨rfl, hrest⟩ := List.cons.inj hsplit
      refine ⟨before, after, hrest, ?_⟩
      rw [List.flatten_cons, List.length_append] at hlen
      omega
  · rintro ⟨before, after, rfl, hlen⟩
    refine ⟨b :: before, after, rfl, ?_⟩
    rw [List.flatten_cons, List.length_append, hlen]
    omega

open Classical in
/-- **The change at an entry**: the difference to the value before, unless a
batch begins there. -/
theorem changeAt_eq {batches : List (List α)} {k : ℕ} (hk : k < batches.flatten.length) :
    changeAt c batches k = valueAt c batches.flatten k
      - if Cut batches k then 0 else valueAt c batches.flatten (k - 1) := by
  induction batches generalizing k with
  | nil => exact absurd hk (Nat.not_lt_zero k)
  | cons b rest ih =>
    have hsplit : allChanges c (b :: rest) = changes c 0 b ++ allChanges c rest := rfl
    unfold changeAt at ih ⊢
    rw [hsplit, List.flatten_cons]
    by_cases hb : k < b.length
    · rw [List.getD_append _ _ _ _ (by rwa [length_changes]), getD_changes 0 hb,
        valueAt_append hb, valueAt_append (by omega : k - 1 < b.length)]
      simp only [cut_cons_of_lt hb]
    · have hle : b.length ≤ k := by omega
      rw [List.flatten_cons, List.length_append] at hk
      rw [List.getD_append_right _ _ _ _ (by rwa [length_changes]), length_changes,
        ih (by omega), valueAt_append_right hle]
      simp only [cut_cons_of_le hle]
      by_cases hcut : Cut rest (k - b.length)
      · rw [if_pos hcut, if_pos hcut]
      · have hpos : k - b.length ≠ 0 := fun hzero => hcut (hzero ▸ cut_zero rest)
        rw [if_neg hcut, if_neg hcut, valueAt_append_right (by omega : b.length ≤ k - 1),
          Nat.sub_right_comm]

/-! ## Sums of changes -/

open Classical in
variable (c) in
/-- What the change at an entry has too much: the value before, where a batch
begins. -/
noncomputable def lostAt (batches : List (List α)) (k : ℕ) : G :=
  if Cut batches k then valueAt c batches.flatten (k - 1) else 0

theorem lostAt_of_cut {batches : List (List α)} {k : ℕ} (h : Cut batches k) :
    lostAt c batches k = valueAt c batches.flatten (k - 1) := by
  unfold lostAt
  exact if_pos h

theorem changeAt_eq_add_lostAt {batches : List (List α)} {k : ℕ}
    (hk : k < batches.flatten.length) :
    changeAt c batches k = valueAt c batches.flatten k - valueAt c batches.flatten (k - 1)
      + lostAt c batches k := by
  rw [changeAt_eq hk]
  unfold lostAt
  by_cases hcut : Cut batches k
  · rw [if_pos hcut, if_pos hcut, sub_zero, sub_add_cancel]
  · rw [if_neg hcut, if_neg hcut, add_zero]

/-- **The changes after one entry up to another** sum up to the difference of
the two values, and what is lost at the cuts between. -/
theorem sum_changeAt {batches : List (List α)} {i j : ℕ} (hij : i ≤ j)
    (hj : j < batches.flatten.length) :
    ∑ k ∈ Finset.Ioc i j, changeAt c batches k
      = valueAt c batches.flatten j - valueAt c batches.flatten i
        + ∑ k ∈ Finset.Ioc i j, lostAt c batches k := by
  induction j, hij using Nat.le_induction with
  | base => rw [Finset.Ioc_self, Finset.sum_empty, Finset.sum_empty, sub_self, add_zero]
  | succ j hij ih =>
    rw [Finset.sum_Ioc_succ_top hij, Finset.sum_Ioc_succ_top hij, ih (by omega),
      changeAt_eq_add_lostAt hj, Nat.add_sub_cancel]
    abel

/-! ## Exact sums between marked entries -/

variable (c) in
/-- Between any two marked entries, the changes sum up to the difference of
their values. -/
def Telescopes (mark : α → Prop) (batches : List (List α)) : Prop :=
  ∀ i j a b, i < j → batches.flatten[i]? = some a → batches.flatten[j]? = some b →
    mark a → mark b → ∑ k ∈ Finset.Ioc i j, changeAt c batches k = c b - c a

variable (c) in
/-- No cut follows a value other than zero with a marked entry still to come. -/
def Seamless (mark : α → Prop) (batches : List (List α)) : Prop :=
  ∀ before after, batches = before ++ after → ∀ last ∈ before.flatten.getLast?,
    (∃ a ∈ after.flatten, mark a) → c last = 0

variable {mark : α → Prop} {batches : List (List α)}

theorem Seamless.lostAt_eq_zero (h : Seamless c mark batches) {j k : ℕ} {b : α} (hk : k ≤ j)
    (hj : batches.flatten[j]? = some b) (hb : mark b) (hpos : 0 < k) :
    lostAt c batches k = 0 := by
  by_cases hcut : Cut batches k
  · rw [lostAt_of_cut hcut]
    obtain ⟨before, after, rfl, hlen⟩ := hcut
    rw [List.flatten_append, List.getElem?_append_right (by omega)] at hj
    obtain ⟨last, hlast⟩ : ∃ last, before.flatten[k - 1]? = some last :=
      ⟨_, List.getElem?_eq_getElem (by omega)⟩
    have hend : last ∈ before.flatten.getLast? := by
      rw [List.getLast?_eq_getElem?, hlen]
      exact hlast
    have hzero := h before after rfl last hend ⟨b, List.mem_of_getElem? hj, hb⟩
    rw [List.flatten_append, valueAt_append (by omega), valueAt_of_getElem? hlast, hzero]
  · unfold lostAt
    exact if_neg hcut

theorem telescopes_of_seamless (h : Seamless c mark batches) : Telescopes c mark batches := by
  intro i j a b hij hi hj _ hb
  have hlt : j < batches.flatten.length := (List.getElem?_eq_some_iff.mp hj).1
  have hlost : ∑ k ∈ Finset.Ioc i j, lostAt c batches k = 0 := by
    refine Finset.sum_eq_zero (fun k hk => ?_)
    obtain ⟨hlow, hhigh⟩ := Finset.mem_Ioc.mp hk
    exact h.lostAt_eq_zero hhigh hj hb (by omega)
  rw [sum_changeAt hij.le hlt, hlost, add_zero, valueAt_of_getElem? hi, valueAt_of_getElem? hj]

open Classical in
/-- The first marked entry of a list. -/
theorem exists_first_marked {l : List α} (h : ∃ a ∈ l, mark a) :
    ∃ as b bs, l = as ++ b :: bs ∧ mark b ∧ ∀ a ∈ as, ¬ mark a := by
  obtain ⟨x, hx, hmark⟩ := h
  have hfind : (l.find? (fun a => decide (mark a))).isSome :=
    List.find?_isSome.mpr ⟨x, hx, decide_eq_true hmark⟩
  obtain ⟨b, hb⟩ := Option.isSome_iff_exists.mp hfind
  obtain ⟨hb', as, bs, hsplit, hbefore⟩ := List.find?_eq_some_iff_append.mp hb
  exact ⟨as, b, bs, hsplit, of_decide_eq_true hb', fun a ha => by simpa using hbefore a ha⟩

/-- **The sums are exact precisely for seamless batches**, if an entry without
mark has the value zero: after a cut that loses a value, the sum up to the next
marked entry has that value too much. -/
theorem telescopes_iff (hmark : ∀ a, ¬ mark a → c a = 0) :
    Telescopes c mark batches ↔ Seamless c mark batches := by
  refine ⟨fun h before after hsplit last hlast hlater => ?_, telescopes_of_seamless⟩
  subst hsplit
  by_contra hvalue
  obtain ⟨as, b, bs, hafter, hb, has⟩ := exists_first_marked hlater
  have hflat : (before ++ after).flatten = before.flatten ++ (as ++ b :: bs) := by
    rw [List.flatten_append, hafter]
  rw [Option.mem_def, List.getLast?_eq_getElem?] at hlast
  have hpos : before.flatten.length - 1 < before.flatten.length :=
    (List.getElem?_eq_some_iff.mp hlast).1
  have hi : (before ++ after).flatten[before.flatten.length - 1]? = some last := by
    rw [hflat, List.getElem?_append_left hpos, hlast]
  have hj : (before ++ after).flatten[before.flatten.length + as.length]? = some b := by
    rw [hflat, List.getElem?_append_right (by omega), Nat.add_sub_cancel_left,
      List.getElem?_append_right le_rfl, Nat.sub_self]
    rfl
  -- between the cut and the next mark nothing else is lost
  have hlost : ∑ k ∈ Finset.Ioc (before.flatten.length - 1) (before.flatten.length + as.length),
      lostAt c (before ++ after) k = c last := by
    rw [Finset.sum_eq_single before.flatten.length]
    · rw [lostAt_of_cut ⟨before, after, rfl, rfl⟩, valueAt_of_getElem? hi]
    · intro k hk hne
      obtain ⟨hlow, hhigh⟩ := Finset.mem_Ioc.mp hk
      unfold lostAt
      by_cases hcut : Cut (before ++ after) k
      · rw [if_pos hcut, hflat, valueAt_append_right (by omega), valueAt_append (by omega)]
        have hget := List.getElem?_eq_getElem
          (show k - 1 - before.flatten.length < as.length by omega)
        rw [valueAt_of_getElem? hget]
        exact hmark _ (has _ (List.getElem_mem _))
      · exact if_neg hcut
    · intro hout
      exact absurd (Finset.mem_Ioc.mpr ⟨hpos, by omega⟩) hout
  have hlastMark : mark last := by
    by_contra hno
    exact hvalue (hmark last hno)
  have hsum := h _ _ _ _ (by omega) hi hj hlastMark hb
  rw [sum_changeAt (by omega) (List.getElem?_eq_some_iff.mp hj).1, hlost,
    valueAt_of_getElem? hi, valueAt_of_getElem? hj] at hsum
  exact hvalue (add_eq_left.mp hsum)

end Batches
