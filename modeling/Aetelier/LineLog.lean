import Mathlib.Data.List.Basic

/-!
# Logs of lines

A log is a file that only grows: each write appends the text of one record
and a line feed. A write that is cut leaves a prefix of its line, of any
number of bytes, and the file is not repaired: what the next write appends
stands right behind it.

What a reader meets are the lines of the file. `lines_line_append` splits off
a complete line, `lines_eq_singleton` reads a part without a line feed, and
`length_lines` counts: a line for every line feed, and one more if the file
does not end with one. The count is what tells a glued line from two.
-/

namespace Str

/-- `str::as_bytes`: the UTF-8 text. -/
def asBytes (s : String) : List UInt8 := s.toByteArray.data.toList

/-- `std::str::from_utf8`. -/
def fromUtf8 (bs : List UInt8) : Option String := String.fromUTF8? ⟨bs.toArray⟩

theorem asBytes_injective : Function.Injective asBytes := by
  intro s t h
  refine String.toByteArray_inj.mp (ByteArray.ext ?_)
  exact Array.toList_inj.mp h

@[simp] theorem asBytes_append (s t : String) : asBytes (s ++ t) = asBytes s ++ asBytes t := by
  unfold asBytes
  rw [String.toByteArray_append]
  simp

/-- **Reading text is the inverse of its bytes.** -/
theorem fromUtf8_eq_some_iff {bs : List UInt8} {s : String} :
    fromUtf8 bs = some s ↔ asBytes s = bs := by
  unfold fromUtf8 String.fromUTF8?
  constructor
  · intro h
    split at h
    · rw [← Option.some.inj h]
      show (ByteArray.mk bs.toArray).data.toList = bs
      rfl
    · cases h
  · rintro rfl
    have hbytes : ByteArray.mk (asBytes s).toArray = s.toByteArray := by
      unfold asBytes
      rw [Array.toArray_toList]
    rw [dif_pos (hbytes ▸ s.isValidUTF8)]
    refine congrArg some (String.toByteArray_inj.mp ?_)
    exact hbytes

@[simp] theorem fromUtf8_asBytes (s : String) : fromUtf8 (asBytes s) = some s :=
  fromUtf8_eq_some_iff.mpr rfl

theorem asBytes_eq_flatMap (s : String) :
    asBytes s = s.toList.flatMap String.utf8EncodeChar := by
  rw [asBytes, ← String.utf8Encode_toList, List.utf8Encode]
  simp

/-- A character outside the control range has no byte in it. -/
theorem le_toNat_of_mem_utf8EncodeChar {c : Char} (hc : 32 ≤ c.toNat) {b : UInt8}
    (hb : b ∈ String.utf8EncodeChar c) : 32 ≤ b.toNat := by
  have hv : c.val.toNat = c.toNat := rfl
  unfold String.utf8EncodeChar at hb
  simp only [hv] at hb
  split_ifs at hb <;> simp only [List.mem_cons, List.not_mem_nil, or_false] at hb <;>
    rcases hb with rfl | rfl | rfl | rfl <;> simp only [UInt8.toNat_ofNat'] <;> omega

/-- A text without control characters has none among its bytes. -/
theorem le_toNat_of_mem_asBytes {s : String} (hs : ∀ c ∈ s.toList, 32 ≤ c.toNat) {b : UInt8}
    (hb : b ∈ asBytes s) : 32 ≤ b.toNat := by
  rw [asBytes_eq_flatMap] at hb
  obtain ⟨c, hc, hbc⟩ := List.mem_flatMap.mp hb
  exact le_toNat_of_mem_utf8EncodeChar (hs c hc) hbc

/-- A prefix of the bytes of a text that is text itself is a prefix of the
text. -/
theorem exists_append_of_asBytes_prefix {s t : String} (h : asBytes s <+: asBytes t) :
    ∃ u, s ++ u = t := by
  obtain ⟨b, hb⟩ := h
  have hpre : s.toList <+: t.toList := by
    refine List.isPrefix_of_utf8Encode_append_eq_utf8Encode ⟨b.toArray⟩ ?_
    rw [String.utf8Encode_toList, String.utf8Encode_toList]
    refine ByteArray.ext (Array.toList_inj.mp ?_)
    rw [← show asBytes t = t.toByteArray.data.toList from rfl, ← hb]
    simp [asBytes]
  obtain ⟨u, hu⟩ := hpre
  refine ⟨String.ofList u, String.toList_inj.mp ?_⟩
  rw [String.toList_append, String.toList_ofList, hu]

end Str

/-! ## The lines of a file -/

namespace LineLog

/-- A line without the carriage return before its end. -/
def stripCr (line : List UInt8) : List UInt8 :=
  if line.getLast? = some 13 then line.dropLast else line

/-- The lines that follow the beginning of one. -/
def linesFrom (seen : List UInt8) : List UInt8 → List (List UInt8)
  | [] => if seen = [] then [] else [seen]
  | b :: bs => if b = 10 then stripCr seen :: linesFrom [] bs else linesFrom (seen ++ [b]) bs

/-- `BufRead::lines`: a line feed ends a line, with a carriage return before
it if there is one; what follows the last line feed is a line if it is not
empty. -/
def lines (bs : List UInt8) : List (List UInt8) := linesFrom [] bs

theorem linesFrom_append {l : List UInt8} (h : (10 : UInt8) ∉ l) (seen bs : List UInt8) :
    linesFrom seen (l ++ bs) = linesFrom (seen ++ l) bs := by
  induction l generalizing seen with
  | nil => simp
  | cons b l ih =>
    have hb : b ≠ 10 := fun hb => h (hb ▸ List.mem_cons_self)
    have hl : (10 : UInt8) ∉ l := fun hm => h (List.mem_cons_of_mem _ hm)
    rw [List.cons_append, linesFrom, if_neg hb, ih hl, List.append_assoc]
    rfl

theorem stripCr_of_notMem {l : List UInt8} (h : (13 : UInt8) ∉ l) : stripCr l = l := by
  unfold stripCr
  rw [if_neg]
  exact fun hl => h (List.mem_of_getLast? hl)

/-- **A complete line is read by itself.** -/
theorem lines_line_append {l : List UInt8} (hf : (10 : UInt8) ∉ l) (hr : (13 : UInt8) ∉ l)
    (bs : List UInt8) : lines (l ++ 10 :: bs) = l :: lines bs := by
  unfold lines
  rw [linesFrom_append hf, linesFrom, if_pos rfl, List.nil_append, stripCr_of_notMem hr]

theorem linesFrom_append_of_getLast? (bs : List UInt8) {seen text : List UInt8}
    (h : seen ++ text = [] ∨ text.getLast? = some 10) :
    linesFrom seen (text ++ bs) = linesFrom seen text ++ linesFrom [] bs := by
  induction text generalizing seen with
  | nil =>
    have hseen : seen = [] := (List.append_eq_nil_iff.mp (h.resolve_right (by simp))).1
    subst hseen
    rfl
  | cons b text ih =>
    have hlast : (b :: text).getLast? = some 10 := h.resolve_left (by simp)
    rw [List.cons_append, linesFrom, linesFrom]
    cases text with
    | nil =>
      have hb : b = 10 := Option.some.inj hlast
      rw [if_pos hb, if_pos hb]
      rfl
    | cons b' text =>
      have hrest : (b' :: text).getLast? = some 10 := hlast
      split
      · rw [ih (Or.inr hrest)]
        rfl
      · exact ih (Or.inr hrest)

/-- **Behind a line feed a file goes on with a new line.** -/
theorem lines_append {text : List UInt8} (h : text = [] ∨ text.getLast? = some 10)
    (bs : List UInt8) : lines (text ++ bs) = lines text ++ lines bs :=
  linesFrom_append_of_getLast? bs (h.imp_left (List.nil_append text ▸ id))

/-- What has no line feed is one line. -/
theorem lines_eq_singleton {l : List UInt8} (hf : (10 : UInt8) ∉ l) (hne : l ≠ []) :
    lines l = [l] := by
  unfold lines
  rw [← List.append_nil l, linesFrom_append hf, List.append_nil, List.nil_append, linesFrom,
    if_neg hne]

theorem length_linesFrom (seen bs : List UInt8) :
    (linesFrom seen bs).length
      = bs.count 10 + if (seen ++ bs = [] ∨ bs.getLast? = some 10) then 0 else 1 := by
  induction bs generalizing seen with
  | nil => by_cases h : seen = [] <;> simp [linesFrom, h]
  | cons b bs ih =>
    unfold linesFrom
    by_cases hb : b = 10
    · subst hb
      rw [if_pos rfl, List.length_cons, ih, List.count_cons_self]
      rcases bs with _ | ⟨c, bs⟩
      · simp
      · simp [List.getLast?_cons_cons, Nat.add_right_comm]
    · rw [if_neg hb, ih, List.count_cons_of_ne hb]
      rcases bs with _ | ⟨c, bs⟩
      · simp [hb]
      · simp [List.getLast?_cons_cons]

/-- **A line for every line feed**, and one more if the file does not end
with one. -/
theorem length_lines (bs : List UInt8) :
    (lines bs).length = bs.count 10 + if (bs = [] ∨ bs.getLast? = some 10) then 0 else 1 :=
  length_linesFrom [] bs

end LineLog

/-! ## Writes that may be cut -/

/-- **How records become lines.** The text of a record is an object, escapes
every control character, is read back, and no truncation of it is. -/
structure LineCodec (α : Type) where
  /-- The text of a record. -/
  render : α → String
  /-- The record a text is of. -/
  parse : String → Option α
  /-- A text is read back. -/
  parse_render : ∀ a, parse (render a) = some a
  /-- A text holds no control character. -/
  plain_render : ∀ a, ∀ c ∈ (render a).toList, 32 ≤ c.toNat
  /-- A text begins with a brace. -/
  head_render : ∀ a, (render a).toList.head? = some '\x7b'
  /-- A truncated text is not one. -/
  parse_truncated : ∀ a s u, s ++ u = render a → u ≠ "" → parse s = none

variable {α : Type}

/-- **A write to a log**: its record, and how many bytes of its line reach
the file. -/
structure LineWrite (α : Type) where
  /-- The record. -/
  record : α
  /-- The bytes that reach the file; the line is complete if they are no
  fewer than it has. -/
  written : ℕ

namespace LineWrite

variable (c : LineCodec α) (w : LineWrite α)

/-- The text of the record, in bytes. -/
def text : List UInt8 := Str.asBytes (c.render w.record)

/-- The line to write. -/
def line : List UInt8 := w.text c ++ [10]

/-- What the write leaves in the file. -/
def left : List UInt8 := (w.line c).take w.written

/-- The whole line reached the file. -/
def IsComplete : Prop := (w.line c).length ≤ w.written

/-- A non-empty proper prefix of the line reached the file. -/
def IsTorn : Prop := 0 < w.written ∧ w.written < (w.line c).length

/-- The write of a whole line. -/
def whole (c : LineCodec α) (a : α) : LineWrite α := ⟨a, (Str.asBytes (c.render a)).length + 1⟩

instance : Decidable (w.IsComplete c) := inferInstanceAs (Decidable (_ ≤ _))

instance : Decidable (w.IsTorn c) := inferInstanceAs (Decidable (_ ∧ _))

theorem le_toNat_of_mem_text {b : UInt8} (hb : b ∈ w.text c) : 32 ≤ b.toNat :=
  Str.le_toNat_of_mem_asBytes (c.plain_render w.record) hb

theorem lf_notMem_text : (10 : UInt8) ∉ w.text c := fun h =>
  absurd (w.le_toNat_of_mem_text c h) (by decide)

theorem cr_notMem_text : (13 : UInt8) ∉ w.text c := fun h =>
  absurd (w.le_toNat_of_mem_text c h) (by decide)

@[simp] theorem length_line : (w.line c).length = (w.text c).length + 1 := List.length_append

theorem isComplete_whole (a : α) : (whole c a).IsComplete c := by
  unfold IsComplete
  rw [length_line]
  exact Nat.le_refl _

theorem text_ne_nil : w.text c ≠ [] := by
  intro h
  have hempty : c.render w.record = "" := Str.asBytes_injective h
  have hhead := c.head_render w.record
  rw [hempty] at hhead
  exact absurd hhead (by simp)

variable {c w}

theorem left_of_isComplete (h : w.IsComplete c) : w.left c = w.text c ++ [10] :=
  List.take_of_length_le h

/-- A torn write leaves a part of the text. -/
theorem left_of_isTorn (h : w.IsTorn c) : w.left c = (w.text c).take w.written := by
  have hlt : w.written < (w.text c).length + 1 := (w.length_line c) ▸ h.2
  exact List.take_append_of_le_length (Nat.lt_succ_iff.mp hlt)

theorem left_ne_nil_of_isTorn (h : w.IsTorn c) : w.left c ≠ [] := by
  have hlen : (w.left c).length = w.written := by
    rw [left, List.length_take, Nat.min_eq_left (Nat.le_of_lt h.2)]
  intro h0
  rw [h0] at hlen
  exact Nat.ne_of_lt h.1 hlen

theorem lf_notMem_left_of_isTorn (h : w.IsTorn c) : (10 : UInt8) ∉ w.left c := by
  rw [left_of_isTorn h]
  exact fun hm => w.lf_notMem_text c (List.mem_of_mem_take hm)

/-- **A write is complete, torn, or leaves nothing.** -/
theorem isComplete_or_isTorn_or_left_eq_nil (c : LineCodec α) (w : LineWrite α) :
    w.IsComplete c ∨ w.IsTorn c ∨ w.left c = [] := by
  rcases Nat.lt_or_ge w.written (w.line c).length with hlt | hge
  · rcases Nat.eq_zero_or_pos w.written with h0 | hpos
    · exact Or.inr (Or.inr (by rw [left, h0, List.take_zero]))
    · exact Or.inr (Or.inl ⟨hpos, hlt⟩)
  · exact Or.inl hge

theorem not_isTorn_of_isComplete (h : w.IsComplete c) : ¬ w.IsTorn c := fun ht =>
  absurd ht.2 (Nat.not_lt.mpr h)

theorem left_ne_nil_of_isComplete (h : w.IsComplete c) : w.left c ≠ [] := by
  rw [left_of_isComplete h]
  simp

end LineWrite

namespace LineLog

variable (c : LineCodec α)

/-- **The file after a run of writes.** -/
def content (ws : List (LineWrite α)) : List UInt8 := ws.flatMap (LineWrite.left c)

/-- The records whose line is complete, in order. -/
def completed (ws : List (LineWrite α)) : List α :=
  (ws.filter (fun w => w.IsComplete c)).map LineWrite.record

/-- How many writes left a non-empty proper prefix. -/
def tornCount (ws : List (LineWrite α)) : ℕ := ws.countP (fun w => w.IsTorn c)

variable {c}

theorem content_append (ws ws' : List (LineWrite α)) :
    content c (ws ++ ws') = content c ws ++ content c ws' := List.flatMap_append

theorem content_cons (w : LineWrite α) (ws : List (LineWrite α)) :
    content c (w :: ws) = w.left c ++ content c ws := List.flatMap_cons

theorem completed_append (ws ws' : List (LineWrite α)) :
    completed c (ws ++ ws') = completed c ws ++ completed c ws' := by
  unfold completed
  rw [List.filter_append, List.map_append]

theorem completed_cons_of_isComplete {w : LineWrite α} (h : w.IsComplete c)
    (ws : List (LineWrite α)) : completed c (w :: ws) = w.record :: completed c ws := by
  unfold completed
  rw [List.filter_cons_of_pos (by simpa using h), List.map_cons]

theorem completed_cons_of_not_isComplete {w : LineWrite α} (h : ¬ w.IsComplete c)
    (ws : List (LineWrite α)) : completed c (w :: ws) = completed c ws := by
  unfold completed
  rw [List.filter_cons_of_neg (by simpa using h)]

theorem tornCount_eq_zero_iff {ws : List (LineWrite α)} :
    tornCount c ws = 0 ↔ ∀ w ∈ ws, ¬ w.IsTorn c := by
  unfold tornCount
  rw [List.countP_eq_zero]
  simp

/-- The torn writes before, the one in the middle, and those after. -/
theorem tornCount_append_cons {w : LineWrite α} (h : w.IsTorn c)
    (before after : List (LineWrite α)) :
    tornCount c (before ++ w :: after) = tornCount c before + tornCount c after + 1 := by
  unfold tornCount
  rw [List.countP_append, List.countP_cons_of_pos (by simpa using h)]
  rfl

/-- A file is empty when no write left anything. -/
theorem content_eq_nil_iff {ws : List (LineWrite α)} :
    content c ws = [] ↔ ∀ w ∈ ws, w.written = 0 := by
  unfold content
  rw [List.flatMap_eq_nil_iff]
  refine forall₂_congr (fun w _ => ?_)
  rw [LineWrite.left, List.take_eq_nil_iff]
  simp [LineWrite.line]

/-- There are as many line feeds as complete lines. -/
theorem count_content (ws : List (LineWrite α)) :
    (content c ws).count 10 = (completed c ws).length := by
  induction ws with
  | nil => rfl
  | cons w ws ih =>
    rw [content_cons, List.count_append, ih]
    rcases LineWrite.isComplete_or_isTorn_or_left_eq_nil c w with h | h | h
    · rw [LineWrite.left_of_isComplete h, List.count_append,
        List.count_eq_zero_of_not_mem (w.lf_notMem_text c), completed_cons_of_isComplete h,
        List.length_cons, Nat.add_comm]
      rfl
    · rw [List.count_eq_zero_of_not_mem (LineWrite.lf_notMem_left_of_isTorn h), Nat.zero_add,
        completed_cons_of_not_isComplete (fun hc => LineWrite.not_isTorn_of_isComplete hc h)]
    · rw [h, List.count_nil, Nat.zero_add,
        completed_cons_of_not_isComplete (fun hc => LineWrite.left_ne_nil_of_isComplete hc h)]

/-- Writes none of which is torn end the file with a line feed, if they leave
anything. -/
theorem content_eq_nil_or_getLast?_eq {ws : List (LineWrite α)} (h : ∀ w ∈ ws, ¬ w.IsTorn c) :
    content c ws = [] ∨ (content c ws).getLast? = some 10 := by
  induction ws with
  | nil => exact Or.inl rfl
  | cons w ws ih =>
    rw [content_cons]
    rcases ih (fun v hv => h v (List.mem_cons_of_mem _ hv)) with hnil | hlast
    · rw [hnil, List.append_nil]
      rcases LineWrite.isComplete_or_isTorn_or_left_eq_nil c w with hw | hw | hw
      · exact Or.inr (by rw [LineWrite.left_of_isComplete hw]; simp)
      · exact absurd hw (h w List.mem_cons_self)
      · exact Or.inl hw
    · exact Or.inr (by rw [List.getLast?_append, hlast]; rfl)

/-- An empty file has no complete line and no torn one. -/
theorem completed_and_tornCount_of_content_eq_nil {ws : List (LineWrite α)}
    (h : content c ws = []) : completed c ws = [] ∧ tornCount c ws = 0 := by
  constructor
  · refine List.eq_nil_of_length_eq_zero ?_
    rw [← count_content, h, List.count_nil]
  · refine tornCount_eq_zero_iff.mpr (fun w hw ht => ?_)
    exact absurd (content_eq_nil_iff.mp h w hw) (Nat.ne_of_gt ht.1)

end LineLog
