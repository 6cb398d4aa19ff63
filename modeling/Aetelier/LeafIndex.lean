import Aetelier.LineLog
import Aetelier.TradingPair
import Mathlib.Data.List.TakeWhile

/-!
# The index of a leaf

A leaf is a directory of parquet files of one data type. Beside the files
stands `index.jsonl`, a log with a line of JSON for every file that has been
finalized: its name, its hash, its rows, the time it covers, the schema. The
index is only ever appended to, and a reader takes each of its lines by
itself: a blank one is passed over, one that is not the text of an entry is
counted as torn, and one that is not text at all ends the read with an error.

The JSON is that of another crate. What is used of it is what `LineCodec`
says of the text of an entry.
-/

/-- `PersistError`. Texts of other crates stand as they are shown. -/
inductive PersistError where
  | io (text : String)
  | json (text : String)
  | parse (text : String)
  | unsupportedFormat (text : String)
deriving DecidableEq, Repr

/-- **A finalized parquet file**, as `index.jsonl` records it. -/
structure IndexEntry where
  /-- The name of the file inside the leaf. -/
  filename : String
  /-- The hash of its bytes, in lowercase hex. -/
  sha256 : String
  /-- The rows written into it. -/
  rows : UInt64
  /-- The least time of the batch. -/
  tMinUs : UInt64
  /-- The greatest time of the batch. -/
  tMaxUs : UInt64
  /-- The schema. -/
  schemaId : String
deriving DecidableEq

/-- The JSON of an entry. -/
abbrev EntryCodec := LineCodec IndexEntry

namespace LeafIndex

/-- The line of an entry in the index. -/
def entryLine (c : EntryCodec) (entry : IndexEntry) : List UInt8 :=
  Str.asBytes (c.render entry) ++ [10]

/-- `append_entry`: the file is created if there is none. -/
def appendEntry (c : EntryCodec) (index : Option (List UInt8)) (entry : IndexEntry) :
    Option (List UInt8) :=
  some (index.getD [] ++ entryLine c entry)

/-- The error of a line that is not text. -/
def notUtf8 : PersistError := .io "stream did not contain valid UTF-8"

/-- The loop of `read_index` over the lines of the file: the entries, and how
many lines are torn. -/
def readLines (c : EntryCodec) :
    List (List UInt8) → Except PersistError (List IndexEntry × ℕ)
  | [] => .ok ([], 0)
  | bytes :: rest =>
    match Str.fromUtf8 bytes with
    | none => .error notUtf8
    | some line =>
      if (Str.trim line).isEmpty then readLines c rest
      else match c.parse line with
        | some entry => (readLines c rest).map (fun r => (entry :: r.1, r.2))
        | none => (readLines c rest).map (fun r => (r.1, r.2 + 1))

/-- `read_index`. A leaf without an index has no entries. -/
def readIndex (c : EntryCodec) : Option (List UInt8) → Except PersistError (List IndexEntry × ℕ)
  | none => .ok ([], 0)
  | some bytes => readLines c (LineLog.lines bytes)

/-! ## What a reader makes of a line -/

variable {c : EntryCodec}

/-- The text of a record, and every part of it that is not empty, begins with
a brace, and so is not blank. -/
theorem isEmpty_trim_eq_false {s u : String} {entry : IndexEntry} (h : s ++ u = c.render entry)
    (hs : s ≠ "") : (Str.trim s).isEmpty = false := by
  have hhead : s.toList.head? = some '\x7b' := by
    have hr := c.head_render entry
    rw [← h, String.toList_append] at hr
    cases hl : s.toList with
    | nil => exact absurd (String.toList_inj.mp (hl.trans String.toList_empty.symm)) hs
    | cons d l =>
      rw [hl] at hr
      exact hr
  obtain ⟨l, hl⟩ := List.head?_eq_some_iff.mp hhead
  have hdrop : s.toList.dropWhile Str.isWhitespace = '\x7b' :: l := by
    rw [hl, List.dropWhile_cons_of_neg (by decide)]
  refine Bool.eq_false_iff.mpr (fun hempty => ?_)
  unfold Str.trim at hempty
  rw [hdrop, String.isEmpty_iff, String.ofList_eq_empty_iff, List.reverse_eq_nil_iff,
    List.dropWhile_eq_nil_iff] at hempty
  exact absurd (hempty '\x7b' (by simp)) (by decide)

/-- The text of an entry is read as that entry. -/
theorem readLines_render (entry : IndexEntry) (rest : List (List UInt8)) :
    readLines c (Str.asBytes (c.render entry) :: rest)
      = (readLines c rest).map (fun r => (entry :: r.1, r.2)) := by
  have hne : c.render entry ≠ "" := fun h => by
    have hhead := c.head_render entry
    rw [h] at hhead
    exact absurd hhead (by simp)
  rw [readLines, Str.fromUtf8_asBytes]
  simp only [isEmpty_trim_eq_false (String.append_empty) hne, c.parse_render,
    Bool.false_eq_true, if_false]

/-- A part of the text of an entry is counted as torn. -/
theorem readLines_truncated {s u : String} {entry : IndexEntry} (h : s ++ u = c.render entry)
    (hs : s ≠ "") (hu : u ≠ "") (rest : List (List UInt8)) :
    readLines c (Str.asBytes s :: rest)
      = (readLines c rest).map (fun r => (r.1, r.2 + 1)) := by
  rw [readLines, Str.fromUtf8_asBytes]
  simp only [isEmpty_trim_eq_false h hs, c.parse_truncated entry s u h hu,
    Bool.false_eq_true, if_false]

/-- What is read of two parts of a file. -/
theorem readLines_append {ls ls' : List (List UInt8)} {r : List IndexEntry × ℕ}
    (h : readLines c ls = .ok r) :
    readLines c (ls ++ ls') = (readLines c ls').map (fun r' => (r.1 ++ r'.1, r.2 + r'.2)) := by
  induction ls generalizing r with
  | nil =>
    cases h
    rw [List.nil_append]
    cases readLines c ls' with
    | error e => rfl
    | ok r' => exact congrArg Except.ok (Prod.ext rfl (Nat.zero_add r'.2).symm)
  | cons bytes rest ih =>
    rw [List.cons_append]
    rw [readLines] at h ⊢
    cases hr : readLines c rest with
    | error e =>
      rw [hr] at h
      split at h
      · cases h
      · split at h
        · cases h
        · split at h <;> cases h
    | ok r' =>
      -- an entry, or a torn line, in front of what the rest comes to
      rw [ih hr]
      rw [hr] at h
      generalize readLines c ls' = q
      split at h
      · cases h
      · split at h
        · next hblank =>
          rw [if_pos hblank]
          cases h
          rfl
        · next hblank =>
          rw [if_neg hblank]
          split at h <;> cases h <;> cases q with
          | error e => rfl
          | ok r'' => first
            | rfl
            | exact congrArg Except.ok (Prod.ext rfl (Nat.add_right_comm r'.2 r''.2 1))

/-- **No line counts twice**: there are at most as many entries and torn
lines as lines. -/
theorem length_add_torn_le {ls : List (List UInt8)} {r : List IndexEntry × ℕ}
    (h : readLines c ls = .ok r) : r.1.length + r.2 ≤ ls.length := by
  induction ls generalizing r with
  | nil =>
    cases h
    exact Nat.le_refl _
  | cons bytes rest ih =>
    unfold readLines at h
    split at h
    · cases h
    · split at h
      · exact Nat.le_succ_of_le (ih h)
      · -- both an entry and a torn line count one more than the rest
        split at h <;> cases hr : readLines c rest with
        | error e => rw [hr] at h; cases h
        | ok r' =>
          rw [hr] at h
          cases h
          have := ih hr
          simp only [List.length_cons]
          omega

end LeafIndex
