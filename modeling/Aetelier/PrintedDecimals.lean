import Aetelier.CaseTables
import Aetelier.Decimal

/-!
# Decimals as text

`Crates.signed` prints a decimal with its sign, all its digits and its point,
and reads that back. It is what a run needs that prints totals it has computed
and reads them again, and it is the smallest instance of the crates for which
reading undoes printing whatever the decimal.
-/

namespace Crates

/-- Read a decimal with or without a minus sign. -/
def readSigned (s : String) : Except String Decimal :=
  match s.toList with
  | '-' :: rest => (readPlain (String.ofList rest)).map (fun d => ⟨-d.mantissa, d.scale⟩)
  | _ => readPlain s

/-- Print a decimal at its scale. -/
def printSigned (d : Decimal) : String :=
  if d.mantissa < 0 then "-" ++ printPlain ⟨-d.mantissa, d.scale⟩ else printPlain d

/-- The crates on plain text with a sign. -/
def signed : Crates := ⟨readSigned, readSigned, printSigned, crc⟩

/-- The digits of a decimal, with at least one before the point. -/
def paddedDigits (d : Decimal) : List Char :=
  List.replicate (d.scale + 1 - (Nat.toDigits 10 d.mantissa.toNat).length) '0'
    ++ Nat.toDigits 10 d.mantissa.toNat

section Text

variable {d : Decimal}

theorem isDigit_of_mem_paddedDigits : ∀ c ∈ paddedDigits d, c.isDigit = true := by
  intro c hc
  rcases List.mem_append.mp hc with hc | hc
  · rw [List.eq_of_mem_replicate hc]
    rfl
  · exact Nat.isDigit_of_mem_toDigits (by decide) (by decide) hc

theorem lt_length_paddedDigits : d.scale < (paddedDigits d).length := by
  unfold paddedDigits
  rw [List.length_append, List.length_replicate]
  omega

theorem ofDigits_paddedDigits : ofDigits (paddedDigits d) = d.mantissa.toNat := by
  have hzeros : ∀ n, (List.replicate n '0').foldl
      (fun n c => 10 * n + (c.toNat - '0'.toNat)) 0 = 0 := by
    intro n
    induction n with
    | zero => rfl
    | succ n ih => exact ih
  unfold ofDigits paddedDigits
  rw [List.foldl_append, hzeros]
  exact Nat.ofDigitChars_ten_toDigits

/-- Digits with a point among them, or none after them, are read as they
stand. -/
theorem readPlain_eq {s : String} {whole frac : List Char}
    (hs : s.toList = whole ++ (if frac.isEmpty then [] else '.' :: frac))
    (hdigits : ∀ c ∈ whole ++ frac, c.isDigit = true) (hne : whole ≠ []) :
    readPlain s = .ok ⟨ofDigits (whole ++ frac), frac.length⟩ := by
  have hpoint : '.' ∉ whole :=
    fun h => absurd (hdigits '.' (List.mem_append_left _ h)) (by decide)
  have hspan : s.toList.span (· != '.') = (whole, if frac.isEmpty then [] else '.' :: frac) := by
    rw [List.span_eq_takeWhile_dropWhile, hs]
    split
    · rw [List.append_nil, List.takeWhile_eq_self_iff.mpr, List.dropWhile_eq_nil_iff.mpr]
      · exact fun c hc => bne_iff_ne.mpr (fun h => hpoint (h ▸ hc))
      · exact fun c hc => bne_iff_ne.mpr (fun h => hpoint (h ▸ hc))
    · have htake := List.takeWhile_bne_append hpoint frac
      have happend := List.takeWhile_append_dropWhile (p := fun c => c != '.')
        (l := whole ++ '.' :: frac)
      rw [htake] at happend
      rw [htake, List.append_cancel_left happend]
  have hfrac : (if frac.isEmpty then [] else '.' :: frac).drop 1 = frac := by
    split
    · next h => rw [List.isEmpty_iff.mp h]; rfl
    · rfl
  unfold readPlain
  rw [hspan]
  dsimp only
  rw [hfrac, List.all_eq_true.mpr hdigits, List.isEmpty_eq_false_iff.mpr hne]
  rfl

theorem readPlain_printPlain (h : 0 ≤ d.mantissa) : readPlain (printPlain d) = .ok d := by
  have hprint : printPlain d = if d.scale = 0 then String.ofList (paddedDigits d)
      else String.ofList ((paddedDigits d).take ((paddedDigits d).length - d.scale)
        ++ '.' :: (paddedDigits d).drop ((paddedDigits d).length - d.scale)) := rfl
  have hlt := lt_length_paddedDigits (d := d)
  have hlen : ((paddedDigits d).drop ((paddedDigits d).length - d.scale)).length = d.scale := by
    rw [List.length_drop]
    omega
  have hread := @readPlain_eq (printPlain d)
    ((paddedDigits d).take ((paddedDigits d).length - d.scale))
    ((paddedDigits d).drop ((paddedDigits d).length - d.scale))
  rw [List.take_append_drop, ofDigits_paddedDigits, hlen, Int.toNat_of_nonneg h] at hread
  refine hread ?_ isDigit_of_mem_paddedDigits ?_
  · rw [hprint]
    by_cases hscale : d.scale = 0
    · rw [if_pos hscale, String.toList_ofList, hscale, Nat.sub_zero, List.take_length,
        List.drop_length]
      exact (List.append_nil _).symm
    · rw [if_neg hscale, String.toList_ofList, if_neg]
      rw [List.isEmpty_iff_length_eq_zero, hlen]
      exact hscale
  · rw [Ne, List.take_eq_nil_iff]
    rintro (hzero | hnil)
    · omega
    · rw [hnil] at hlt
      exact Nat.not_lt_zero _ hlt

theorem readPlain_of_minus {s : String} {rest : List Char} (h : s.toList = '-' :: rest) :
    readPlain s = .error "Invalid decimal: unknown character" := by
  unfold readPlain
  rw [List.span_eq_takeWhile_dropWhile, h,
    List.takeWhile_cons_of_pos (p := fun c => c != '.') (by decide)]
  dsimp only
  rw [List.cons_append, List.all_cons]
  rfl

/-- **Reading undoes printing.** -/
theorem readSigned_printSigned (d : Decimal) : readSigned (printSigned d) = .ok d := by
  unfold printSigned
  split
  · next hneg =>
    have hlist : ("-" ++ printPlain ⟨-d.mantissa, d.scale⟩).toList
        = '-' :: (printPlain ⟨-d.mantissa, d.scale⟩).toList := by
      rw [String.toList_append]
      rfl
    unfold readSigned
    rw [hlist]
    show (readPlain (String.ofList (printPlain ⟨-d.mantissa, d.scale⟩).toList)).map _ = .ok d
    rw [String.ofList_toList, readPlain_printPlain (Int.neg_nonneg_of_nonpos hneg.le)]
    show Except.ok (⟨- -d.mantissa, d.scale⟩ : Decimal) = .ok d
    rw [Int.neg_neg]
  · next hneg =>
    have hread := readPlain_printPlain (not_lt.mp hneg)
    unfold readSigned
    split
    · next rest hlist =>
      -- a text that begins with a minus sign is not read without one
      rw [readPlain_of_minus hlist] at hread
      cases hread
    · exact hread

end Text

/-- What is printed reads as the same number. -/
def PrintsBack (x : Crates) : Prop :=
  ∀ d, ∃ d', x.fromStr (x.toString d) = .ok d' ∧ d'.value = d.value

theorem signed_printsBack : signed.PrintsBack := fun d => ⟨d, readSigned_printSigned d, rfl⟩

end Crates
