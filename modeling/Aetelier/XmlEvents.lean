import Mathlib.Data.List.DropRight
import Mathlib.Tactic.Common

/-!
# A document as a pull reader delivers it

A reader that pulls events out of a document delivers what stands between
two tags in pieces: a run of text ends where a reference, a section of
character data, a comment or an instruction stands, and each of these is an
event of its own. A reader that trims takes the blanks off *every* run, and
delivers none that is blank.

Who keeps the last text of an element has its value if and only if the
element is `Literal`: one run, and no blanks around it
(`lastRun_eq_some_value_iff`).
-/

namespace Xml

/-- A blank, to XML. -/
def isBlank (c : Char) : Bool := c == ' ' || c == '\t' || c == '\n' || c == '\r'

/-- The text without the blanks around it. -/
def trim (s : String) : String := String.ofList ((s.toList.dropWhile isBlank).rdropWhile isBlank)

/-- A run of text: no tag and no reference begins in it, and a carriage
return, which would be read as a line feed, is not written as it is. -/
abbrev Run := {s : String // ∀ c ∈ s.toList, c ≠ '<' ∧ c ≠ '&' ∧ c ≠ '\r'}

/-- What may stand between two runs. -/
inductive Mark where
  /-- A reference, by the character that it stands for. -/
  | reference (c : Char)
  | cdata (text : String)
  /-- A comment or an instruction. -/
  | aside
deriving DecidableEq

/-- What the mark adds to the text. -/
def Mark.text : Mark → String
  | reference c => c.toString
  | cdata text => text
  | aside => ""

/-- What stands between two tags: runs, which may be empty, and marks
between them. -/
structure CharData where
  head : Run
  rest : List (Mark × Run)
deriving DecidableEq

/-- A piece of it. -/
inductive Piece where
  | run (r : Run)
  | mark (m : Mark)
deriving DecidableEq

/-- What the piece adds to the text. -/
def Piece.text : Piece → String
  | run r => r.val
  | mark m => m.text

/-- What a trimming reader delivers of the piece as a text. -/
def Piece.shown : Piece → Option String
  | run r => if trim r.val = "" then none else some (trim r.val)
  | mark _ => none

/-- An event of the reader; its end is the end of the list. -/
inductive Event where
  | start (name : String)
  | stop (name : String)
  | text (raw : String)
  /-- A reference, a section, a comment, an instruction, an empty tag. -/
  | other
deriving DecidableEq, Repr

/-- The events of a piece. -/
def Piece.events : Piece → List Event
  | run r => (shown (run r)).toList.map Event.text
  | mark _ => [.other]

/-- The pieces in order. -/
def CharData.pieces (d : CharData) : List Piece :=
  .run d.head :: d.rest.flatMap fun p => [.mark p.1, .run p.2]

/-- What stands in an element without elements in it; none in an empty tag. -/
abbrev Body := Option CharData

/-- The pieces of a body. -/
def Body.pieces (b : Body) : List Piece := (b.map CharData.pieces).getD []

/-- The text of a body, its references replaced. -/
def Body.value (b : Body) : String := String.ofList (b.pieces.flatMap (·.text.toList))

/-- The last text that is delivered. -/
def Body.lastRun (b : Body) : Option String := (b.pieces.filterMap Piece.shown).getLast?

/-- One run, without blanks around it, and beside it nothing that adds to
the text. -/
def Body.Literal (b : Body) : Prop :=
  ∃ r : Run, r.val ≠ "" ∧ trim r.val = r.val ∧ b.pieces.filter (·.text ≠ "") = [.run r]

/-- An element, by its local name, or what may stand between elements. -/
inductive Element where
  | leaf (name : String) (body : Body)
  | node (name : String) (children : List Element)
  /-- A comment or an instruction between elements; blanks are no event. -/
  | aside

mutual

/-- The events of an element. -/
def Element.events : Element → List Event
  | .leaf _ none => [.other]
  | .leaf name (some d) => .start name :: (d.pieces.flatMap Piece.events ++ [.stop name])
  | .node name children => .start name :: (allEvents children ++ [.stop name])
  | .aside => [.other]

/-- The events of elements in order. -/
def allEvents : List Element → List Event
  | [] => []
  | e :: es => e.events ++ allEvents es

end

theorem allEvents_append (es fs : List Element) :
    allEvents (es ++ fs) = allEvents es ++ allEvents fs := by
  induction es with
  | nil => rfl
  | cons e es ih => rw [List.cons_append, allEvents, allEvents, ih, List.append_assoc]

/-! ## The last run and the value -/

theorem trim_toList (s : String) :
    (trim s).toList = (s.toList.dropWhile isBlank).rdropWhile isBlank := String.toList_ofList

/-- What is trimmed is part of what it was. -/
theorem trim_isInfix (s : String) : (trim s).toList <:+: s.toList := by
  rw [trim_toList]
  exact (List.rdropWhile_prefix _ _).isInfix.trans (List.dropWhile_suffix _).isInfix

/-- Nothing but blanks is trimmed. -/
theorem mem_trim {s : String} {c : Char} (hc : c ∈ s.toList) (hblank : isBlank c = false) :
    c ∈ (trim s).toList := by
  rw [trim_toList]
  rw [← List.takeWhile_append_dropWhile (p := isBlank) (l := s.toList), List.mem_append] at hc
  have hdrop : c ∈ s.toList.dropWhile isBlank :=
    hc.resolve_left fun h => by simpa [hblank] using List.mem_takeWhile_imp h
  rw [← List.rdropWhile_append_rtakeWhile (p := isBlank) (l := s.toList.dropWhile isBlank),
    List.mem_append] at hdrop
  exact hdrop.resolve_right fun h => by simpa [hblank] using List.mem_rtakeWhile_imp h

theorem exists_run_of_shown {p : Piece} {v : String} (h : p.shown = some v) :
    ∃ r, p = .run r ∧ trim r.val = v ∧ v ≠ "" := by
  cases p with
  | mark m => exact nomatch h
  | run r =>
    simp only [Piece.shown] at h
    split_ifs at h with hblank
    rw [Option.some.injEq] at h
    exact ⟨r, rfl, h, h ▸ hblank⟩

theorem shown_eq_none_of_text_eq {p : Piece} (h : p.text = "") : p.shown = none := by
  cases p with
  | mark m => rfl
  | run r => simp [Piece.shown, show r.val = "" from h, show trim "" = "" from rfl]

/-- A piece that adds nothing is not shown. -/
theorem filterMap_shown_filter (ps : List Piece) :
    (ps.filter (·.text ≠ "")).filterMap Piece.shown = ps.filterMap Piece.shown := by
  rw [List.filterMap_filter]
  refine List.filterMap_congr fun p _ => ?_
  by_cases h : p.text = ""
  · simp [h, shown_eq_none_of_text_eq h]
  · simp [h]

theorem flatMap_text_filter (ps : List Piece) :
    (ps.filter (·.text ≠ "")).flatMap (·.text.toList) = ps.flatMap (·.text.toList) := by
  induction ps with
  | nil => rfl
  | cons p ps ih =>
    by_cases h : p.text = ""
    · rw [List.filter_cons_of_neg (by simp [h]), ih, List.flatMap_cons, h]
      rfl
    · rw [List.filter_cons_of_pos (by simp [h]), List.flatMap_cons, List.flatMap_cons, ih]

theorem filter_text_eq_nil {ps : List Piece} (h : ps.flatMap (·.text.toList) = []) :
    ps.filter (·.text ≠ "") = [] := by
  rw [List.filter_eq_nil_iff]
  intro p hp
  have hp' := List.flatMap_eq_nil_iff.mp h p hp
  simpa using hp'

theorem amp_notMem_of_shown {p : Piece} {v : String} (h : p.shown = some v) : '&' ∉ v.toList := by
  obtain ⟨r, -, rfl, -⟩ := exists_run_of_shown h
  exact fun hmem => (r.property '&' ((trim_isInfix r.val).mem hmem)).2.1 rfl

theorem shown_of_text_mem_events {p : Piece} {raw : String} (h : .text raw ∈ p.events) :
    p.shown = some raw := by
  cases p with
  | mark m => simp [Piece.events] at h
  | run r => simpa [Piece.events] using h

mutual

/-- No text that is delivered has a reference in it. -/
theorem Element.amp_notMem {raw : String} :
    (e : Element) → .text raw ∈ e.events → '&' ∉ raw.toList
  | .leaf _ none, h => by simp [Element.events] at h
  | .leaf _ (some d), h => by
    obtain ⟨p, -, hp⟩ : ∃ p ∈ d.pieces, .text raw ∈ p.events := by
      simpa [Element.events] using h
    exact amp_notMem_of_shown (shown_of_text_mem_events hp)
  | .node _ children, h => amp_notMem_of_mem_allEvents children (by simpa [Element.events] using h)
  | .aside, h => by simp [Element.events] at h

/-- No text that is delivered has a reference in it. -/
theorem amp_notMem_of_mem_allEvents {raw : String} :
    (es : List Element) → .text raw ∈ allEvents es → '&' ∉ raw.toList
  | [], h => by simp [allEvents] at h
  | e :: es, h => by
    rw [allEvents, List.mem_append] at h
    exact h.elim e.amp_notMem (amp_notMem_of_mem_allEvents es)

end

namespace Body

theorem ne_empty_of_lastRun {b : Body} {v : String} (h : b.lastRun = some v) : v ≠ "" := by
  obtain ⟨p, -, hshown⟩ := List.mem_filterMap.mp (List.mem_of_getLast? h)
  obtain ⟨r, -, -, hne⟩ := exists_run_of_shown hshown
  exact hne

/-- Every text that is delivered is part of the value. -/
theorem mem_value_of_lastRun {b : Body} {v : String} (h : b.lastRun = some v) {c : Char}
    (hc : c ∈ v.toList) : c ∈ b.value.toList := by
  obtain ⟨p, hp, hshown⟩ := List.mem_filterMap.mp (List.mem_of_getLast? h)
  obtain ⟨r, rfl, rfl, -⟩ := exists_run_of_shown hshown
  unfold value
  rw [String.toList_ofList, List.mem_flatMap]
  exact ⟨.run r, hp, (trim_isInfix r.val).mem hc⟩

/-- **The last text is the value if and only if the body is literal**: any
text beside the last run, and any blank around it, makes the value longer. -/
theorem lastRun_eq_some_value_iff (b : Body) : b.lastRun = some b.value ↔ b.Literal := by
  constructor
  · intro h
    obtain ⟨p, hp, hshown⟩ := List.mem_filterMap.mp (List.mem_of_getLast? h)
    obtain ⟨r, rfl, htrim, hne⟩ := exists_run_of_shown hshown
    obtain ⟨before, after, hps⟩ := List.append_of_mem hp
    have hvalue : b.value.toList = before.flatMap (·.text.toList) ++
        (r.val.toList ++ after.flatMap (·.text.toList)) := by
      unfold value
      rw [String.toList_ofList, hps, List.flatMap_append, List.flatMap_cons]
      rfl
    have hlen := congrArg List.length hvalue
    have hle := (trim_isInfix r.val).length_le
    rw [htrim] at hle
    rw [List.length_append, List.length_append] at hlen
    have hbefore : before.flatMap (·.text.toList) = [] := List.eq_nil_of_length_eq_zero (by omega)
    have hafter : after.flatMap (·.text.toList) = [] := List.eq_nil_of_length_eq_zero (by omega)
    have hrun : b.value = r.val := by
      rw [hbefore, hafter, List.nil_append, List.append_nil] at hvalue
      exact String.toList_inj.mp hvalue
    refine ⟨r, hrun ▸ hne, htrim.trans hrun, ?_⟩
    rw [hps, List.filter_append, filter_text_eq_nil hbefore,
      List.filter_cons_of_pos (by simpa [Piece.text, ← hrun] using hne), filter_text_eq_nil hafter]
    rfl
  · rintro ⟨r, hne, htrim, hps⟩
    have hvalue : b.value = r.val := by
      unfold value
      rw [← flatMap_text_filter, hps, List.flatMap_singleton]
      exact String.ofList_toList
    unfold lastRun
    rw [← filterMap_shown_filter, hps, hvalue]
    simp [Piece.shown, htrim, hne]

end Body

end Xml
