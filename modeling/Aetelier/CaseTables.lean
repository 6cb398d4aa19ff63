import Aetelier.TradingPair
import Mathlib.Data.Bool.AllAny
import Mathlib.Data.List.DropRight
import Mathlib.Data.List.TakeDrop
import Mathlib.Data.List.TakeWhile

/-!
# Laws of the case tables

The parsers of symbols cut a text at a separator, trim the pieces and put them
in upper case, in this order or another. That the order does not matter, and
that a piece survives being parsed twice, are facts about the case conversions
of Unicode: they make no separator and no white space, they do not move the
ends of a text, and converting twice is converting once. Upper-casing moreover
works on each character by itself and never drops one. (Lower-casing does not:
the final sigma of a word has a form of its own.)

`Unicode.Lawful` states them, for ASCII and other text alike, and
`Unicode.ascii`, which leaves other characters as they are, satisfies them.
-/

/-- A list up to the first occurrence of a member. -/
theorem List.takeWhile_bne_append {α : Type} [DecidableEq α] {a : α} {l₁ : List α} (h : a ∉ l₁)
    (l₂ : List α) : (l₁ ++ a :: l₂).takeWhile (fun x => x != a) = l₁ := by
  have hbefore : ∀ x ∈ l₁, (x != a) = true := fun x hx => bne_iff_ne.mpr (fun heq => h (heq ▸ hx))
  have ha : ¬ (a != a) = true := fun h => bne_iff_ne.mp h rfl
  rw [List.takeWhile_append_of_pos hbefore, List.takeWhile_cons_of_neg (p := fun x => x != a) ha,
    List.append_nil]

namespace Str

/-! ## Cutting at a separator -/

section Split

variable {c : Char} {s a b : String}

theorem splitOnce_of_not_mem (h : c ∉ s.toList) : splitOnce c s = none := by
  have hall : s.toList.takeWhile (fun x => x != c) = s.toList :=
    List.takeWhile_eq_self_iff.mpr (fun x hx => bne_iff_ne.mpr (fun heq => h (heq ▸ hx)))
  have hnone : s.toList.dropWhile (fun x => x != c) = [] :=
    List.dropWhile_eq_nil_iff.mpr (fun x hx => bne_iff_ne.mpr (fun heq => h (heq ▸ hx)))
  unfold splitOnce
  rw [List.span_eq_takeWhile_dropWhile, hall, hnone]

theorem splitOnce_of_toList (hs : s.toList = a.toList ++ c :: b.toList) (ha : c ∉ a.toList) :
    splitOnce c s = some (a, b) := by
  have htake : s.toList.takeWhile (fun x => x != c) = a.toList := by
    rw [hs, List.takeWhile_bne_append ha]
  have hdrop : s.toList.dropWhile (fun x => x != c) = c :: b.toList := by
    have happend := List.takeWhile_append_dropWhile (p := fun x => x != c) (l := s.toList)
    rw [htake] at happend
    exact List.append_cancel_left (happend.trans hs)
  unfold splitOnce
  rw [List.span_eq_takeWhile_dropWhile, htake, hdrop]
  dsimp only
  rw [String.ofList_toList, String.ofList_toList]

/-- A text without the separator, or the text before its first occurrence and
the text after it. -/
theorem splitOnce_cases (c : Char) (s : String) :
    (c ∉ s.toList ∧ splitOnce c s = none) ∨
      ∃ a b : String, s.toList = a.toList ++ c :: b.toList ∧ c ∉ a.toList ∧
        splitOnce c s = some (a, b) := by
  by_cases h : c ∈ s.toList
  · obtain ⟨before, after, hs, hbefore⟩ := List.eq_append_cons_of_mem h
    rw [← String.toList_ofList (l := before), ← String.toList_ofList (l := after)] at hs
    rw [← String.toList_ofList (l := before)] at hbefore
    exact Or.inr ⟨_, _, hs, hbefore, splitOnce_of_toList hs hbefore⟩
  · exact Or.inl ⟨h, splitOnce_of_not_mem h⟩

theorem splitOnce_eq_some :
    splitOnce c s = some (a, b) ↔ s.toList = a.toList ++ c :: b.toList ∧ c ∉ a.toList := by
  refine ⟨fun h => ?_, fun h => splitOnce_of_toList h.1 h.2⟩
  obtain ⟨-, hnone⟩ | ⟨a', b', hs, ha, hsome⟩ := splitOnce_cases c s
  · rw [hnone] at h
    cases h
  · rw [hsome] at h
    cases h
    exact ⟨hs, ha⟩

/-- A text with a separator in it. -/
theorem toList_joined (a b : String) (c : Char) :
    (a ++ c.toString ++ b).toList = a.toList ++ c :: b.toList := by
  rw [String.toList_append, String.toList_append, List.append_assoc]
  show a.toList ++ ((String.singleton c).toList ++ b.toList) = _
  rw [String.toList_singleton]
  rfl

theorem splitOnce_joined (h : c ∉ a.toList) : splitOnce c (a ++ c.toString ++ b) = some (a, b) :=
  splitOnce_of_toList (toList_joined a b c) h

theorem eq_of_splitOnce (h : splitOnce c s = some (a, b)) : s = a ++ c.toString ++ b := by
  rw [← String.toList_inj, toList_joined]
  exact (splitOnce_eq_some.mp h).1

end Split

/-! ## Trimming -/

/-- Neither end of a text is white space. -/
def Tight (s : String) : Prop :=
  (∀ c ∈ s.toList.head?, isWhitespace c = false) ∧ ∀ c ∈ s.toList.getLast?, isWhitespace c = false

section Trim

variable {s : String}

theorem tight_of_forall (h : ∀ c ∈ s.toList, isWhitespace c = false) : Tight s :=
  ⟨fun c hc => h c (List.mem_of_mem_head? hc), fun c hc => h c (List.mem_of_mem_getLast? hc)⟩

theorem tight_trim (s : String) : Tight (trim s) := by
  have htrim : (trim s).toList = (s.toList.dropWhile isWhitespace).rdropWhile isWhitespace := by
    unfold trim
    rw [String.toList_ofList]
    rfl
  unfold Tight
  rw [htrim]
  constructor
  · intro c hc
    obtain ⟨rest, hprefix⟩ :=
      List.rdropWhile_prefix isWhitespace (l := s.toList.dropWhile isWhitespace)
    have hhead := List.head?_dropWhile_not isWhitespace s.toList
    rw [← hprefix, List.head?_append, hc] at hhead
    exact hhead
  · intro c hc
    obtain ⟨hne, rfl⟩ := List.mem_getLast?_eq_getLast hc
    exact Bool.eq_false_iff.mpr (List.rdropWhile_last_not isWhitespace _ hne)

/-- **Trimming leaves exactly the tight texts.** -/
theorem trim_eq_self_iff : trim s = s ↔ Tight s := by
  refine ⟨fun h => h ▸ tight_trim s, fun ⟨hhead, hlast⟩ => ?_⟩
  have hdrop : s.toList.dropWhile isWhitespace = s.toList := by
    refine List.dropWhile_eq_self_iff.mpr (fun hlen => Bool.eq_false_iff.mp (hhead _ ?_))
    rw [List.head?_eq_getElem?, List.getElem?_eq_getElem hlen]
    rfl
  have hrdrop : s.toList.rdropWhile isWhitespace = s.toList := by
    refine List.rdropWhile_eq_self_iff.mpr (fun hne => Bool.eq_false_iff.mp (hlast _ ?_))
    exact List.getLast?_eq_some_getLast hne
  unfold trim
  rw [hdrop]
  show String.ofList (s.toList.rdropWhile isWhitespace) = s
  rw [hrdrop, String.ofList_toList]

/-- Trimming takes nothing but white space away. -/
theorem mem_trim {c : Char} (hc : isWhitespace c = false) : c ∈ (trim s).toList ↔ c ∈ s.toList := by
  have hdrop : ∀ l : List Char, c ∈ l.dropWhile isWhitespace ↔ c ∈ l := by
    intro l
    refine ⟨fun h => (List.dropWhile_sublist _).subset h, fun h => ?_⟩
    rw [← List.takeWhile_append_dropWhile (p := isWhitespace) (l := l), List.mem_append] at h
    refine h.resolve_left (fun htake => ?_)
    exact Bool.false_ne_true (hc.symm.trans (List.mem_takeWhile_imp htake))
  unfold trim
  rw [String.toList_ofList, List.mem_reverse, hdrop, List.mem_reverse, hdrop]

/-- The ends of a text in parts. -/
theorem tight_append {a m b : String} (ha : a ≠ "") (hb : b ≠ "") : Tight (a ++ m ++ b) ↔
    (∀ c ∈ a.toList.head?, isWhitespace c = false) ∧
      ∀ c ∈ b.toList.getLast?, isWhitespace c = false := by
  have hne : ∀ {t : String}, t ≠ "" → t.toList ≠ [] :=
    fun h hnil => h (String.toList_inj.mp hnil)
  unfold Tight
  rw [String.toList_append, String.toList_append, List.getLast?_append_of_ne_nil _ (hne hb),
    List.append_assoc, List.head?_append_of_ne_nil _ (hne ha)]

end Trim

/-! ## The laws -/

/-- The characters the parsers look for: white space and separators. -/
def isStructural (c : Char) : Bool := isWhitespace c || [':', '/', '-', '_', '@'].contains c

/-- **A case conversion** neither makes nor loses what the parsers look for,
leaves nothing empty, keeps white space from the ends, and done twice is done
once. -/
structure CaseMap (f : String → String) : Prop where
  idem : ∀ s, f (f s) = f s
  ne_empty : ∀ s, s ≠ "" → f s ≠ ""
  structural : ∀ s c, isStructural c = true → (c ∈ (f s).toList ↔ c ∈ s.toList)
  head : ∀ s, (∀ c ∈ s.toList.head?, isWhitespace c = false) →
    ∀ c ∈ (f s).toList.head?, isWhitespace c = false
  last : ∀ s, (∀ c ∈ s.toList.getLast?, isWhitespace c = false) →
    ∀ c ∈ (f s).toList.getLast?, isWhitespace c = false

theorem CaseMap.tight {f : String → String} (hf : CaseMap f) {s : String} (h : Tight s) :
    Tight (f s) :=
  ⟨hf.head s h.1, hf.last s h.2⟩

/-- A conversion that works on each character by itself. -/
theorem caseMap_of_char {g : Char → Char} (hidem : ∀ c, g (g c) = g c)
    (hstructural : ∀ c, isStructural (g c) = true ∨ isStructural c = true → g c = c) :
    CaseMap (fun s => String.ofList (s.toList.map g)) := by
  have hspace : ∀ c, isWhitespace c = false → isWhitespace (g c) = false := by
    intro c hc
    by_contra h
    have hws : isWhitespace (g c) = true := Bool.not_eq_false _ ▸ h
    rw [hstructural c (Or.inl (Bool.or_eq_true_iff.mpr (Or.inl hws))), hc] at hws
    cases hws
  refine ⟨fun s => ?_, fun s hs => ?_, fun s c hst => ?_, fun s hs c hc => ?_,
    fun s hs c hc => ?_⟩
  · rw [String.toList_ofList, List.map_map]
    exact congrArg String.ofList (List.map_congr_left (fun c _ => hidem c))
  · intro h
    rw [← String.toList_inj, String.toList_ofList] at h
    exact hs (String.toList_inj.mp (List.map_eq_nil_iff.mp h))
  · rw [String.toList_ofList, List.mem_map]
    constructor
    · rintro ⟨d, hd, rfl⟩
      rw [hstructural d (Or.inl hst)]
      exact hd
    · exact fun hc => ⟨c, hc, hstructural c (Or.inr hst)⟩
  · rw [String.toList_ofList, List.head?_map] at hc
    obtain ⟨d, hd, rfl⟩ := Option.map_eq_some_iff.mp hc
    exact hspace d (hs d hd)
  · rw [String.toList_ofList, List.getLast?_map] at hc
    obtain ⟨d, hd, rfl⟩ := Option.map_eq_some_iff.mp hc
    exact hspace d (hs d hd)

end Str

/-- **What the case tables promise.** -/
structure Unicode.Lawful (u : Unicode) : Prop where
  upper : Str.CaseMap (Str.toUppercase u)
  lower : Str.CaseMap (Str.toLowercase u)
  upper_append : ∀ s t, Str.toUppercase u (s ++ t) = Str.toUppercase u s ++ Str.toUppercase u t
  length_le_upper : ∀ s, s.length ≤ (Str.toUppercase u s).length

namespace Unicode

/-- Parts of a text in upper case are in upper case. -/
theorem Lawful.upper_parts {u : Unicode} (hu : u.Lawful) {s t : String}
    (h : Str.toUppercase u (s ++ t) = s ++ t) :
    Str.toUppercase u s = s ∧ Str.toUppercase u t = t := by
  rw [hu.upper_append] at h
  have hlists := congrArg String.toList h
  rw [String.toList_append, String.toList_append] at hlists
  have hlen := congrArg List.length hlists
  rw [List.length_append, List.length_append] at hlen
  have hs := hu.length_le_upper s
  have ht := hu.length_le_upper t
  rw [← String.length_toList, ← String.length_toList] at hs ht
  obtain ⟨h₁, h₂⟩ := List.append_inj hlists (by omega)
  exact ⟨String.toList_inj.mp h₁, String.toList_inj.mp h₂⟩

/-! ## The tables of ASCII -/

/-- The case tables that know the ASCII letters only. -/
def ascii : Unicode where
  upper s := String.ofList (s.toList.map Char.toUpper)
  lower s := String.ofList (s.toList.map Char.toLower)

theorem toUppercase_ascii (s : String) :
    Str.toUppercase ascii s = String.ofList (s.toList.map Char.toUpper) := by
  unfold Str.toUppercase
  split <;> rfl

theorem toLowercase_ascii (s : String) :
    Str.toLowercase ascii s = String.ofList (s.toList.map Char.toLower) := by
  unfold Str.toLowercase
  split <;> rfl

/-- A character between two letters is one of those between. -/
theorem mem_of_between {c : Char} {first : ℕ} {letters : List Char}
    (hletters : ∀ n < 26, Char.ofNat (first + n) ∈ letters) (hlow : first ≤ c.toNat)
    (hhigh : c.toNat < first + 26) : c ∈ letters := by
  have hc := hletters (c.toNat - first) (Nat.sub_lt_left_of_lt_add hlow hhigh)
  rw [Nat.add_sub_cancel' hlow, Char.ofNat_toNat] at hc
  exact hc

theorem toUpper_eq_or_mem (c : Char) :
    c.toUpper = c ∨ c ∈ "abcdefghijklmnopqrstuvwxyz".toList := by
  unfold Char.toUpper
  split
  · next h =>
    exact Or.inr (mem_of_between (by decide) h.1 (Nat.lt_succ_of_le h.2))
  · exact Or.inl rfl

theorem toLower_eq_or_mem (c : Char) :
    c.toLower = c ∨ c ∈ "ABCDEFGHIJKLMNOPQRSTUVWXYZ".toList := by
  unfold Char.toLower
  split
  · next h =>
    exact Or.inr (mem_of_between (by decide) h.1 (Nat.lt_succ_of_le h.2))
  · exact Or.inl rfl

/-- **They are lawful.** -/
theorem ascii_lawful : ascii.Lawful where
  upper := by
    rw [funext toUppercase_ascii]
    refine Str.caseMap_of_char (fun c => ?_) (fun c hc => ?_)
    · rcases toUpper_eq_or_mem c with h | h
      · rw [h, h]
      · revert c
        exact List.all_iff_forall_prop.mp (by decide)
    · rcases toUpper_eq_or_mem c with h | h
      · exact h
      · revert hc
        revert c
        exact List.all_iff_forall_prop.mp (by decide)
  lower := by
    rw [funext toLowercase_ascii]
    refine Str.caseMap_of_char (fun c => ?_) (fun c hc => ?_)
    · rcases toLower_eq_or_mem c with h | h
      · rw [h, h]
      · revert c
        exact List.all_iff_forall_prop.mp (by decide)
    · rcases toLower_eq_or_mem c with h | h
      · exact h
      · revert hc
        revert c
        exact List.all_iff_forall_prop.mp (by decide)
  upper_append s t := by
    rw [toUppercase_ascii, toUppercase_ascii, toUppercase_ascii, String.toList_append,
      List.map_append, String.ofList_append]
  length_le_upper s := by
    rw [toUppercase_ascii, ← String.length_toList, ← String.length_toList, String.toList_ofList,
      List.length_map]

end Unicode
