import Mathlib.Algebra.Field.Basic
import Mathlib.Algebra.Field.Rat
import Mathlib.Algebra.Order.Ring.Rat
import Aetelier.OrdMap

/-!
# Decimals and the crates that read and hash them

Prices and sizes are decimals of the `rust_decimal` crate: an integer
mantissa and a scale. Two decimals with one value and two scales, `1.0` and
`1.00`, are equal and compare equal, and print differently; both matter
here, since the books are ordered by value and the checksums hash what is
printed. Equality and order are therefore always taken on `Decimal.value`,
and the Lean equality of two `Decimal`s says they are spelled alike.

Reading a decimal from text, printing one and the CRC-32 hash are the work
of third-party crates. They are a parameter, `Crates`, and the results that
rest on how they behave say so in a hypothesis. Arithmetic is exact: the
96-bit bound on the mantissa, past which the crate panics, is left out.
-/

/-- **A decimal of `rust_decimal`**: the number `mantissa / 10 ^ scale`,
together with the scale it is written at. -/
structure Decimal where
  /-- The digits, as an integer. -/
  mantissa : ℤ
  /-- How many of them follow the point. -/
  scale : ℕ
deriving DecidableEq, Repr

namespace Decimal

/-- The number a decimal denotes. -/
def value (d : Decimal) : ℚ := mkRat d.mantissa (10 ^ d.scale)

/-- `Decimal::ZERO`. -/
def zero : Decimal := ⟨0, 0⟩

@[simp] theorem value_zero : zero.value = 0 := by decide

/-- Exact addition, at the larger of the two scales. -/
def add (a b : Decimal) : Decimal :=
  ⟨a.mantissa * 10 ^ (max a.scale b.scale - a.scale)
    + b.mantissa * 10 ^ (max a.scale b.scale - b.scale), max a.scale b.scale⟩

/-- Exact subtraction, at the larger of the two scales. -/
def sub (a b : Decimal) : Decimal := a.add ⟨-b.mantissa, b.scale⟩

theorem value_eq (d : Decimal) : d.value = d.mantissa / 10 ^ d.scale := by
  unfold value
  rw [Rat.mkRat_eq_div]
  push_cast
  rfl

theorem value_add (a b : Decimal) : (a.add b).value = a.value + b.value := by
  have hscale : ∀ (m : ℤ) (s t : ℕ), s ≤ t →
      ((m * 10 ^ (t - s) : ℤ) : ℚ) / 10 ^ t = (m : ℚ) / 10 ^ s := by
    intro m s t hst
    have hten : (10 : ℚ) ≠ 0 := by decide
    rw [div_eq_div_iff (pow_ne_zero t hten) (pow_ne_zero s hten)]
    push_cast
    rw [mul_assoc, ← pow_add, Nat.sub_add_cancel hst]
  rw [value_eq, value_eq, value_eq]
  show ((a.mantissa * 10 ^ (max a.scale b.scale - a.scale)
    + b.mantissa * 10 ^ (max a.scale b.scale - b.scale) : ℤ) : ℚ) / 10 ^ max a.scale b.scale = _
  rw [Int.cast_add, add_div, hscale _ _ _ (le_max_left _ _), hscale _ _ _ (le_max_right _ _)]

theorem value_sub (a b : Decimal) : (a.sub b).value = a.value - b.value := by
  unfold sub
  rw [value_add, value_eq b, value_eq ⟨-b.mantissa, b.scale⟩, sub_eq_add_neg, ← neg_div,
    Int.cast_neg]

end Decimal

/-- **What the engine asks of third-party crates**: reading and printing
decimals (`rust_decimal`) and hashing bytes (`crc32fast`). A failed read
carries the crate's error text. -/
structure Crates where
  /-- `Decimal::from_str`. -/
  fromStr : String → Except String Decimal
  /-- `Decimal::from_str_exact`. -/
  fromStrExact : String → Except String Decimal
  /-- `Decimal::to_string`. -/
  toString : Decimal → String
  /-- `crc32fast::hash`. -/
  crc32 : List UInt8 → UInt32

namespace Crates

/-! ## The crates on plain text

Reading and printing decimals without sign or exponent, and CRC-32, as the
crates do them; what concrete runs need. -/

/-- The number a list of decimal digits denotes. -/
def ofDigits (digits : List Char) : ℕ :=
  digits.foldl (fun n c => 10 * n + (c.toNat - '0'.toNat)) 0

/-- Read digits with at most one point among them. -/
def readPlain (s : String) : Except String Decimal :=
  let (whole, rest) := s.toList.span (· != '.')
  let frac := rest.drop 1
  if (whole ++ frac).all Char.isDigit && !whole.isEmpty then
    .ok ⟨ofDigits (whole ++ frac), frac.length⟩
  else .error "Invalid decimal: unknown character"

/-- Print a decimal that is not negative, at its scale. -/
def printPlain (d : Decimal) : String :=
  let digits := Nat.toDigits 10 d.mantissa.toNat
  let padded := List.replicate (d.scale + 1 - digits.length) '0' ++ digits
  let point := padded.length - d.scale
  if d.scale = 0 then String.ofList padded
  else String.ofList (padded.take point ++ '.' :: padded.drop point)

/-- One bit of a CRC-32. -/
def crcBit (crc : UInt32) : UInt32 :=
  if crc &&& 1 = 1 then (crc >>> 1) ^^^ 0xEDB88320 else crc >>> 1

/-- The CRC-32 of a list of bytes. -/
def crc (bytes : List UInt8) : UInt32 :=
  bytes.foldl (fun crc byte => Nat.iterate crcBit 8 (crc ^^^ byte.toUInt32)) 0xFFFFFFFF
    ^^^ 0xFFFFFFFF

/-- The crates on plain text. -/
def plain : Crates := ⟨readPlain, readPlain, printPlain, crc⟩

end Crates

/-- A side of a book as the engine keeps it: sizes by price, ordered by the
value of the price. -/
abbrev PriceMap (V : Type) := OrdMap Decimal V Decimal.value
