import Mathlib.Data.BitVec

/-!
# Fields of a machine word

A word of `w` bits holds fields: `n` bits from bit `lo` on. `place` puts the low
bits of a value into a field, `field` reads a field back. A field reads what was
placed in it (`field_place`), nothing of what was placed beside it
(`field_place_of_disjoint`), and the parts of a word put together by `|||` one by
one (`field_or`).
-/

namespace BitVec

variable {w : ℕ}

/-- The word whose lowest `n` bits are set. -/
def lowMask (w n : ℕ) : BitVec w := BitVec.ofNat w (2 ^ n - 1)

/-- The field of `n` bits from bit `lo` on. -/
def field (lo n : ℕ) (x : BitVec w) : BitVec w := (x >>> lo) &&& lowMask w n

/-- The low `n` bits of a value, moved to bit `lo`. -/
def place (lo n : ℕ) (v : BitVec w) : BitVec w := (v &&& lowMask w n) <<< lo

theorem getLsbD_lowMask (n i : ℕ) :
    (lowMask w n).getLsbD i = (decide (i < w) && decide (i < n)) := by
  unfold lowMask
  rw [getLsbD_ofNat, Nat.testBit_two_pow_sub_one]

theorem getLsbD_field (lo n i : ℕ) (x : BitVec w) :
    (field lo n x).getLsbD i = (x.getLsbD (lo + i) && decide (i < n)) := by
  unfold field
  rw [getLsbD_and, getLsbD_ushiftRight, getLsbD_lowMask]
  by_cases hi : i < w
  · simp [hi]
  · simp [hi, getLsbD_of_ge x (lo + i) (by omega)]

theorem getLsbD_place (lo n i : ℕ) (v : BitVec w) :
    (place lo n v).getLsbD i
      = (decide (i < w) && decide (lo ≤ i) && v.getLsbD (i - lo) && decide (i - lo < n)) := by
  unfold place
  rw [getLsbD_shiftLeft, getLsbD_and, getLsbD_lowMask]
  by_cases hi : i < w
  · by_cases hlo : lo ≤ i
    · simp [hi, hlo, show i - lo < w by omega]
    · simp [hlo, show i < lo by omega]
  · simp [hi]

/-- A field reads the parts of a word one by one. -/
theorem field_or (lo n : ℕ) (x y : BitVec w) :
    field lo n (x ||| y) = field lo n x ||| field lo n y := by
  refine eq_of_getLsbD_eq (fun i _ => ?_)
  simp only [getLsbD_field, getLsbD_or, Bool.and_or_distrib_right]

/-- **A field reads what was placed in it.** -/
theorem field_place {lo n : ℕ} (hw : lo + n ≤ w) (v : BitVec w) :
    field lo n (place lo n v) = v &&& lowMask w n := by
  refine eq_of_getLsbD_eq (fun i hi => ?_)
  rw [getLsbD_field, getLsbD_place, getLsbD_and, getLsbD_lowMask]
  by_cases hn : i < n
  · simp [hn, hi, show lo + i < w by omega]
  · simp [hn]

/-- A field reads nothing of what was placed beside it. -/
theorem field_place_of_disjoint {lo n lo' n' : ℕ} (h : lo + n ≤ lo' ∨ lo' + n' ≤ lo)
    (v : BitVec w) : field lo n (place lo' n' v) = 0#w := by
  refine eq_of_getLsbD_eq (fun i _ => ?_)
  rw [getLsbD_field, getLsbD_place, getLsbD_zero]
  by_cases hn : i < n
  · by_cases hlo : lo' ≤ lo + i
    · simp [show ¬ lo + i - lo' < n' by omega]
    · simp [hlo]
  · simp [hn]

theorem place_zero (lo n : ℕ) : place lo n (0#w) = 0#w := by
  unfold place
  rw [zero_and, zero_shiftLeft]

/-- A value below `2 ^ n` is its own low `n` bits. -/
theorem and_lowMask_of_lt {n : ℕ} {v : BitVec w} (hv : v.toNat < 2 ^ n) :
    v &&& lowMask w n = v := by
  refine eq_of_getLsbD_eq (fun i hi => ?_)
  rw [getLsbD_and, getLsbD_lowMask]
  by_cases hn : i < n
  · simp [hi, hn]
  · have hle : 2 ^ n ≤ 2 ^ i := Nat.pow_le_pow_right (by omega) (by omega)
    rw [show v.getLsbD i = false from Nat.testBit_lt_two_pow (lt_of_lt_of_le hv hle)]
    rfl

/-- The lowest field of a word that fits into it is the word. -/
theorem field_zero_of_lt {n : ℕ} {x : BitVec w} (hx : x.toNat < 2 ^ n) : field 0 n x = x := by
  unfold field
  rw [ushiftRight_zero, and_lowMask_of_lt hx]

/-- A field placed from bit `lo` on is the value times `2 ^ lo`. -/
theorem toNat_place {lo n : ℕ} (hw : lo + n ≤ w) {v : BitVec w} (hv : v.toNat < 2 ^ n) :
    (place lo n v).toNat = v.toNat * 2 ^ lo := by
  have hlt : v.toNat * 2 ^ lo < 2 ^ w :=
    calc v.toNat * 2 ^ lo < 2 ^ n * 2 ^ lo := Nat.mul_lt_mul_of_pos_right hv (Nat.two_pow_pos lo)
      _ = 2 ^ (lo + n) := by rw [← pow_add, Nat.add_comm]
      _ ≤ 2 ^ w := Nat.pow_le_pow_right (by omega) hw
  unfold place
  rw [and_lowMask_of_lt hv, toNat_shiftLeft, Nat.shiftLeft_eq, Nat.mod_eq_of_lt hlt]

end BitVec
