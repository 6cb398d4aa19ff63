import Aetelier.CanonicalPairs

/-!
# The codec and the older parser

A wire symbol is read in two places: by the codec of the venue's adapter, and
by the parser of an older path that is told the venue. Both cut at the same
separator and put in upper case, one before the cut and one after it, and that
makes no difference (`splitOnce_toUppercase`, `trim_toUppercase`).

What makes one is what they do not do alike. The older parser trims first and
refuses an empty side; it stores a dex prefix in upper case, where the codec
keeps it in lower case, and of Hyperliquid's dex coins it takes none, where
the codec takes all. `decode_eq_iff` is the exact border; on plain symbols
the two are one function.
-/

/-! ## Trimming and cutting -/

namespace Str

/-- White space only. -/
def Blank (w : String) : Prop := ∀ c ∈ w.toList, isWhitespace c = true

variable {s t v w : String}

theorem trim_toList (s : String) :
    (trim s).toList = (s.toList.dropWhile isWhitespace).rdropWhile isWhitespace := by
  unfold trim
  rw [String.toList_ofList]
  rfl

/-- What trimming takes away. -/
theorem exists_blank_trim (s : String) : ∃ v w, Blank v ∧ Blank w ∧ s = v ++ trim s ++ w := by
  refine ⟨String.ofList (s.toList.takeWhile isWhitespace),
    String.ofList ((s.toList.dropWhile isWhitespace).rtakeWhile isWhitespace), ?_, ?_, ?_⟩
  · intro c hc
    rw [String.toList_ofList] at hc
    exact List.mem_takeWhile_imp hc
  · intro c hc
    rw [String.toList_ofList] at hc
    exact List.mem_rtakeWhile_imp hc
  · rw [← String.toList_inj, String.toList_append, String.toList_append, trim_toList,
      String.toList_ofList, String.toList_ofList, List.append_assoc,
      List.rdropWhile_append_rtakeWhile, List.takeWhile_append_dropWhile]

theorem trim_blank_append (hv : Blank v) (s : String) : trim (v ++ s) = trim s := by
  rw [← String.toList_inj, trim_toList, trim_toList, String.toList_append,
    List.dropWhile_append_of_pos hv]

theorem trim_append_blank (hw : Blank w) (s : String) : trim (s ++ w) = trim s := by
  rw [← String.toList_inj, trim_toList, trim_toList, String.toList_append, List.dropWhile_append]
  by_cases hs : (s.toList.dropWhile isWhitespace).isEmpty = true
  · rw [if_pos hs, List.isEmpty_iff.mp hs, List.dropWhile_eq_nil_iff.mpr hw]
  · rw [if_neg hs]
    unfold List.rdropWhile
    rw [List.reverse_append, List.dropWhile_append_of_pos]
    exact fun c hc => hw c (List.mem_reverse.mp hc)

theorem trim_eq_empty_iff : trim s = "" ↔ Blank s := by
  constructor
  · intro h
    obtain ⟨v, w, hv, hw, hs⟩ := exists_blank_trim s
    intro c hc
    rw [hs, h, String.toList_append, String.toList_append] at hc
    simp only [List.mem_append] at hc
    obtain (hc | hc) | hc := hc
    · exact hv c hc
    · exact absurd hc List.not_mem_nil
    · exact hw c hc
  · intro h
    have hempty := trim_append_blank h ""
    rw [String.empty_append] at hempty
    exact hempty.trans rfl

/-- **Trimming first does not move the cut**, and what is trimmed of the
parts goes with it. -/
theorem splitOnce_trim {c : Char} (hc : isWhitespace c = false) (s : String) :
    (splitOnce c s = none ∧ splitOnce c (trim s) = none) ∨
      ∃ a b a' b', splitOnce c s = some (a, b) ∧ splitOnce c (trim s) = some (a', b') ∧
        trim a' = trim a ∧ trim b' = trim b := by
  obtain ⟨hmem, hnone⟩ | ⟨a, b, hs, ha, hcut⟩ := splitOnce_cases c (trim s)
  · exact Or.inl ⟨splitOnce_of_not_mem (fun h => hmem ((mem_trim hc).mpr h)), hnone⟩
  · obtain ⟨v, w, hv, hw, hsum⟩ := exists_blank_trim s
    refine Or.inr ⟨v ++ a, b ++ w, a, b, splitOnce_of_toList ?_ ?_, hcut,
      (trim_blank_append hv a).symm, (trim_append_blank hw b).symm⟩
    · rw [hsum, String.toList_append, String.toList_append, hs]
      simp
    · rw [String.toList_append]
      refine fun hmem => (List.mem_append.mp hmem).elim (fun hcv => ?_) ha
      exact Bool.false_ne_true (hc.symm.trans (hv c hcv))

end Str

/-! ## Upper case -/

/-- White space has no case. -/
def Unicode.KeepsSpace (u : Unicode) : Prop :=
  ∀ c, Str.isWhitespace c = true → Str.toUppercase u c.toString = c.toString

section Upper

variable {u : Unicode} (hu : u.Lawful) (hspace : u.KeepsSpace)
include hu

theorem splitOnce_toUppercase {c : Char} (hc : Str.isStructural c = true)
    (hcase : Str.toUppercase u c.toString = c.toString) (s : String) :
    Str.splitOnce c (Str.toUppercase u s)
      = (Str.splitOnce c s).map (fun e => (Str.toUppercase u e.1, Str.toUppercase u e.2)) := by
  obtain ⟨hmem, hnone⟩ | ⟨a, b, hs, ha, hcut⟩ := Str.splitOnce_cases c s
  · rw [hnone, Option.map_none, Str.splitOnce_of_not_mem]
    exact fun h => hmem ((hu.upper.structural _ _ hc).mp h)
  · rw [hcut, Option.map_some, Str.eq_of_splitOnce hcut, hu.upper_append, hu.upper_append, hcase]
    exact Str.splitOnce_joined (fun h => ha ((hu.upper.structural _ _ hc).mp h))

include hspace

theorem toUppercase_blank {w : String} (hw : Str.Blank w) : Str.toUppercase u w = w := by
  obtain ⟨cs, rfl⟩ : ∃ cs, w = String.ofList cs := ⟨w.toList, String.ofList_toList.symm⟩
  unfold Str.Blank at hw
  rw [String.toList_ofList] at hw
  induction cs with
  | nil => exact toUppercase_empty u
  | cons c cs ih =>
    have hsplit : String.ofList (c :: cs) = c.toString ++ String.ofList cs := by
      rw [← String.toList_inj, String.toList_append, String.toList_ofList, String.toList_ofList]
      show _ = (String.singleton c).toList ++ cs
      rw [String.toList_singleton]
      rfl
    rw [hsplit, hu.upper_append, hspace c (hw c List.mem_cons_self),
      ih (fun d hd => hw d (List.mem_cons_of_mem c hd))]

/-- **Trimming and upper case in either order.** -/
theorem trim_toUppercase (s : String) :
    Str.trim (Str.toUppercase u s) = Str.toUppercase u (Str.trim s) := by
  obtain ⟨v, w, hv, hw, hs⟩ := Str.exists_blank_trim s
  have htight := Str.trim_eq_self_iff.mpr (hu.upper.tight (Str.tight_trim s))
  conv_lhs => rw [hs]
  rw [hu.upper_append, hu.upper_append, toUppercase_blank hu hspace hv,
    toUppercase_blank hu hspace hw, Str.trim_append_blank hw, Str.trim_blank_append hv, htight]

end Upper

theorem Unicode.keepsSpace_ascii : Unicode.ascii.KeepsSpace := by
  intro c hc
  have hupper : c.toUpper = c := by
    refine (Unicode.toUpper_eq_or_mem c).resolve_right (fun hmem => ?_)
    have hletters :
        "abcdefghijklmnopqrstuvwxyz".toList.all (Str.isWhitespace · = false) = true := by
      decide
    have hspace := List.all_iff_forall_prop.mp hletters c hmem
    exact Bool.false_ne_true (hspace.symm.trans hc)
  rw [Unicode.toUppercase_ascii]
  show String.ofList ((String.singleton c).toList.map Char.toUpper) = String.singleton c
  rw [String.toList_singleton, List.map_singleton, hupper, ← String.toList_singleton,
    String.ofList_toList]

/-- `symbol_codec` of the venue's profile. -/
def Exchange.symbolCodec : Exchange → SymbolCodec
  | .bybit => .concat true
  | .coinbase => .hyphen
  | .kraken => .slash
  | .binance => .concat true
  | .okx => .hyphen
  | .gateio => .underscore true
  | .upbit => .quoteFirst '-'
  | .poloniex => .underscore true
  | .htx => .concat false
  | .kucoin => .hyphen
  | .bitget => .concat true
  | .bitso => .underscore false
  | .hyperliquid => .bareCoin "USDC"

/-! ## Symbols with a separator -/

/-- Both parts say something, and neither has a dex prefix in letters. -/
def PlainParts (u : Unicode) (cut : Option (String × String)) : Prop :=
  ∀ e ∈ cut, Str.trim e.1 ≠ "" ∧ Str.trim e.2 ≠ "" ∧
    KeepsDex u (Str.toUppercase u (Str.trim e.1)) ∧ KeepsDex u (Str.toUppercase u (Str.trim e.2))

/-- The dex prefix of an asset, if it has one, is the same in lower case after
upper case. -/
def DexLowers (u : Unicode) (asset : String) : Prop :=
  ∀ dex ticker, Str.splitOnce ':' asset = some (dex, ticker) → dex ≠ "" → ticker ≠ "" →
    Str.toLowercase u (Str.toUppercase u dex) = Str.toLowercase u dex

/-- Both parts say something, and have no dex prefix that upper case
changes. -/
def PlainSlash (u : Unicode) (cut : Option (String × String)) : Prop :=
  ∀ e ∈ cut, Str.trim e.1 ≠ "" ∧ Str.trim e.2 ≠ "" ∧
    DexLowers u (Str.trim e.1) ∧ DexLowers u (Str.trim e.2)

section Separated

variable {u : Unicode} (hu : u.Lawful) (hspace : u.KeepsSpace)
include hu

theorem normalizeAsset_toUppercase_iff (s : String) :
    normalizeAsset u (Str.toUppercase u s) = normalizeAsset u s ↔ DexLowers u s := by
  unfold DexLowers normalizeAsset
  rw [splitOnce_toUppercase hu rfl (toUppercase_separator (by decide) (by decide))]
  cases Str.splitOnce ':' s with
  | none => simp [hu.upper.idem]
  | some e =>
    obtain ⟨dex, ticker⟩ := e
    simp only [Option.map_some, Option.some.injEq, Prod.mk.injEq, and_imp]
    by_cases hne : dex ≠ "" ∧ ticker ≠ ""
    · rw [if_pos hne, if_pos ⟨hu.upper.ne_empty _ hne.1, hu.upper.ne_empty _ hne.2⟩, hu.upper.idem,
        String.append_left_inj, String.append_left_inj]
      constructor
      · rintro h _ _ rfl rfl _ _
        exact h
      · exact fun h => h dex ticker rfl rfl hne.1 hne.2
    · have hempty : ¬ (Str.toUppercase u dex ≠ "" ∧ Str.toUppercase u ticker ≠ "") := by
        rintro ⟨hd, ht⟩
        refine hne ⟨fun h => hd ?_, fun h => ht ?_⟩
        · rw [h, toUppercase_empty]
        · rw [h, toUppercase_empty]
      rw [if_neg hne, if_neg hempty, hu.upper.idem]
      refine iff_of_true rfl ?_
      rintro _ _ rfl rfl hd ht
      exact absurd ⟨hd, ht⟩ hne

omit hu in
/-- Trimming the text first changes nothing: the parts are trimmed anyway. -/
theorem fromSeparated_trim {sep : Char} (hblank : Str.isWhitespace sep = false) (raw : String) :
    TradingPair.fromSeparated u sep (Str.trim raw) = TradingPair.fromSeparated u sep raw := by
  unfold TradingPair.fromSeparated
  obtain ⟨hnone, hnone'⟩ | ⟨a, b, a', b', hcut, hcut', ha, hb⟩ := Str.splitOnce_trim hblank raw
  · rw [hnone, hnone']
  · rw [hcut, hcut']
    simp only [Option.bind_eq_bind, Option.bind_some, ha, hb]

omit hu in
theorem fromCanonical_trim (raw : String) :
    TradingPair.fromCanonical u (Str.trim raw) = TradingPair.fromCanonical u raw := by
  unfold TradingPair.fromCanonical
  obtain ⟨hnone, hnone'⟩ | ⟨a, b, a', b', hcut, hcut', ha, hb⟩ :=
    Str.splitOnce_trim (c := '/') (by decide) raw
  · rw [hnone, hnone']
  · rw [hcut, hcut']
    simp only [Option.bind_eq_bind, Option.bind_some, ha, hb]

include hspace

theorem new_toUppercase (a b : String) :
    TradingPair.new u (Str.toUppercase u a) (Str.toUppercase u b)
      = ⟨normalizeAsset u (Str.toUppercase u (Str.trim a)),
        normalizeAsset u (Str.toUppercase u (Str.trim b))⟩ := by
  unfold TradingPair.new
  rw [trim_toUppercase hu hspace, trim_toUppercase hu hspace]

/-- **Cut first or upper case first**: the same pair if both parts say
something and neither has a dex prefix in letters. -/
theorem separated_eq_iff {sep : Char} (hsep : Str.isStructural sep = true)
    (hcase : Str.toUppercase u sep.toString = sep.toString) (raw : String) :
    (Str.splitOnce sep (Str.toUppercase u raw)).map (fun e => TradingPair.new u e.1 e.2)
      = (TradingPair.fromSeparated u sep raw).map (fun e => ⟨e.1, e.2⟩) ↔
    PlainParts u (Str.splitOnce sep raw) := by
  unfold TradingPair.fromSeparated PlainParts
  rw [splitOnce_toUppercase hu hsep hcase]
  cases Str.splitOnce sep raw with
  | none => simp
  | some e =>
    obtain ⟨a, b⟩ := e
    simp only [Option.map_some, Option.bind_eq_bind, Option.bind_some, Option.mem_def,
      Option.some.injEq, forall_eq', new_toUppercase hu hspace]
    by_cases hne : Str.trim a = "" ∨ Str.trim b = ""
    · rw [if_pos hne, Option.map_none]
      refine iff_of_false (fun h => nomatch h) ?_
      rintro ⟨hl, hr, -⟩
      exact hne.elim hl hr
    · rw [if_neg hne, Option.map_some, Option.some.injEq, TradingPair.mk.injEq,
        normalizeAsset_eq_self_iff hu (hu.upper.idem _),
        normalizeAsset_eq_self_iff hu (hu.upper.idem _)]
      rw [not_or] at hne
      rw [and_iff_right hne.1, and_iff_right hne.2]

theorem slash_eq_iff (raw : String) :
    (Str.splitOnce '/' (Str.toUppercase u raw)).map (fun e => TradingPair.new u e.1 e.2)
      = TradingPair.fromCanonical u raw ↔ PlainSlash u (Str.splitOnce '/' raw) := by
  unfold TradingPair.fromCanonical PlainSlash
  rw [splitOnce_toUppercase hu rfl (toUppercase_separator (by decide) (by decide))]
  cases Str.splitOnce '/' raw with
  | none => exact iff_of_true rfl (fun e he => nomatch he)
  | some e =>
    obtain ⟨a, b⟩ := e
    simp only [Option.map_some, Option.bind_eq_bind, Option.bind_some, Option.mem_def,
      Option.some.injEq, forall_eq', new_toUppercase hu hspace]
    by_cases hne : Str.trim a = "" ∨ Str.trim b = ""
    · rw [if_pos hne]
      refine iff_of_false (fun h => nomatch h) ?_
      rintro ⟨hl, hr, -⟩
      exact hne.elim hl hr
    · rw [if_neg hne, Option.some.injEq, TradingPair.mk.injEq,
        normalizeAsset_toUppercase_iff hu, normalizeAsset_toUppercase_iff hu]
      rw [not_or] at hne
      rw [and_iff_right hne.1, and_iff_right hne.2]

end Separated

/-! ## Symbols without one -/

/-- No white space at either end, or no known quote at the end; or white space
there, and nothing before a quote. -/
def PlainConcat (u : Unicode) (raw : String) : Prop :=
  Str.Tight raw ∨
  (∀ q ∈ knownQuotes, ∀ b, Str.toUppercase u (Str.trim raw) ≠ b ++ q) ∨
  (∃ c ∈ raw.toList.getLast?, Str.isWhitespace c = true) ∧
    ∀ q ∈ knownQuotes, ∀ b, Str.toUppercase u (Str.trim raw) = b ++ q → b = ""

section Concatenated

variable {u : Unicode}

theorem fromConcatenated_eq_none_iff {raw : String} : TradingPair.fromConcatenated u raw = none ↔
    ∀ q ∈ knownQuotes, ∀ b, Str.toUppercase u raw = b ++ q → b = "" := by
  unfold TradingPair.fromConcatenated
  rw [List.findSome?_eq_none_iff]
  refine forall₂_congr (fun q _ => ?_)
  constructor
  · intro h b hb
    by_contra hne
    rw [Str.stripSuffix_eq_some.mpr hb] at h
    simp [hne] at h
  · intro h
    cases hb : Str.stripSuffix q (Str.toUppercase u raw) with
    | none => rfl
    | some b => simp [h b (Str.stripSuffix_eq_some.mp hb)]

/-- Known quotes say something, without white space. -/
theorem known_quote {q : String} (hq : q ∈ knownQuotes) :
    q ≠ "" ∧ ∀ c ∈ q.toList, Str.isWhitespace c = false :=
  ⟨(TradingPair.known_quote_plain hq).1,
    fun c hc => (Bool.or_eq_false_iff.mp ((TradingPair.known_quote_plain hq).2 c hc)).1⟩

/-- A text that a known quote ends does not end in white space. -/
theorem not_ends_of_blank {s b q : String} (hq : q ∈ knownQuotes) (hs : s = b ++ q)
    {c : Char} (hc : c ∈ s.toList.getLast?) : Str.isWhitespace c = false := by
  obtain ⟨hne, hplain⟩ := known_quote hq
  have hlist : q.toList ≠ [] := fun h => hne (String.toList_inj.mp h)
  rw [hs, String.toList_append, List.getLast?_append_of_ne_nil _ hlist] at hc
  exact hplain c (List.mem_of_mem_getLast? hc)

/-- What a known quote ends behind white space, it ends by itself. -/
theorem exists_of_blank_append {v s b q : String} (hv : Str.Blank v) (hq : q ∈ knownQuotes)
    (hs : v ++ s = b ++ q) : ∃ b', s = b' ++ q := by
  rw [← String.toList_inj, String.toList_append, String.toList_append,
    List.append_eq_append_iff] at hs
  obtain ⟨m, hb, hm⟩ | ⟨m, hv', hm⟩ := hs
  · refine ⟨String.ofList m, ?_⟩
    rw [← String.toList_inj, String.toList_append, String.toList_ofList]
    exact hm
  · cases m with
    | nil => exact ⟨"", by rw [String.empty_append, ← String.toList_inj, hm, List.nil_append]⟩
    | cons c m =>
      have hcv : c ∈ v.toList := by
        rw [hv']
        exact List.mem_append_right _ List.mem_cons_self
      have hcq : c ∈ q.toList := by
        rw [hm]
        exact List.mem_cons_self
      exact absurd ((hv c hcv).symm.trans ((known_quote hq).2 c hcq)) (by decide)

variable (hu : u.Lawful) (hspace : u.KeepsSpace)
include hu

theorem fromConcatenated_toUppercase (raw : String) :
    TradingPair.fromConcatenated u (Str.toUppercase u raw)
      = TradingPair.fromConcatenated u raw := by
  unfold TradingPair.fromConcatenated
  rw [hu.upper.idem]

include hspace

/-- White space at the end of a text is at the end of its upper case. -/
theorem getLast?_toUppercase {s : String} {c : Char} (hc : c ∈ s.toList.getLast?)
    (hblank : Str.isWhitespace c = true) : c ∈ (Str.toUppercase u s).toList.getLast? := by
  obtain ⟨init, hinit⟩ := List.getLast?_eq_some_iff.mp hc
  have hs : s = String.ofList init ++ c.toString := by
    rw [← String.toList_inj, String.toList_append, String.toList_ofList, hinit]
    show _ = init ++ (String.singleton c).toList
    rw [String.toList_singleton]
  rw [hs, hu.upper_append, hspace c hblank, String.toList_append]
  show c ∈ (_ ++ (String.singleton c).toList).getLast?
  rw [String.toList_singleton, List.getLast?_append_of_ne_nil _ (List.cons_ne_nil c [])]
  exact rfl

/-- A text that ends in white space has no pair in it. -/
theorem fromConcatenated_of_blank {raw : String} {c : Char} (hc : c ∈ raw.toList.getLast?)
    (hblank : Str.isWhitespace c = true) : TradingPair.fromConcatenated u raw = none := by
  refine fromConcatenated_eq_none_iff.mpr (fun q hq b hb => ?_)
  have hlast := not_ends_of_blank hq hb (getLast?_toUppercase hu hspace hc hblank)
  exact absurd (hblank.symm.trans hlast) (by decide)

/-- **Trimmed or not**: the same pair if there is nothing to trim, or no pair
either way. -/
theorem concatenated_eq_iff (raw : String) :
    TradingPair.fromConcatenated u raw = TradingPair.fromConcatenated u (Str.trim raw) ↔
      PlainConcat u raw := by
  obtain ⟨v, w, hv, hw, hraw⟩ := Str.exists_blank_trim raw
  by_cases htight : Str.Tight raw
  · rw [Str.trim_eq_self_iff.mpr htight]
    exact iff_of_true rfl (Or.inl htight)
  by_cases hlast : ∃ c ∈ raw.toList.getLast?, Str.isWhitespace c = true
  · -- as it stands the text holds no pair
    obtain ⟨c, hc, hblank⟩ := hlast
    rw [fromConcatenated_of_blank hu hspace hc hblank, eq_comm, fromConcatenated_eq_none_iff]
    constructor
    · exact fun h => Or.inr (Or.inr ⟨⟨c, hc, hblank⟩, h⟩)
    · rintro (h | h | ⟨-, h⟩)
      · exact absurd h htight
      · exact fun q hq b hb => absurd hb (h q hq b)
      · exact h
  · -- there is white space in front only, and it stays in the base
    have hw : w = "" := by
      by_contra hne
      have hlist : w.toList ≠ [] := fun h => hne (String.toList_inj.mp h)
      refine hlast ⟨w.toList.getLast hlist, ?_, hw _ (List.getLast_mem hlist)⟩
      rw [hraw, String.toList_append, List.getLast?_append_of_ne_nil _ hlist,
        List.getLast?_eq_some_getLast hlist]
      exact rfl
    rw [hw, String.append_empty] at hraw
    have hupper : Str.toUppercase u raw = v ++ Str.toUppercase u (Str.trim raw) := by
      conv_lhs => rw [hraw]
      rw [hu.upper_append, toUppercase_blank hu hspace hv]
    have hvne : v ≠ "" := by
      rintro rfl
      rw [String.empty_append] at hraw
      exact htight (Str.trim_eq_self_iff.mp hraw.symm)
    constructor
    · intro heq
      refine Or.inr (Or.inl (fun q hq b hb => ?_))
      cases hpair : TradingPair.fromConcatenated u raw with
      | none =>
        have hempty := fromConcatenated_eq_none_iff.mp hpair q hq (v ++ b)
          (by rw [hupper, hb, String.append_assoc])
        exact hvne (String.append_eq_empty_iff.mp hempty).1
      | some p =>
        obtain ⟨-, hp, -⟩ := TradingPair.fromConcatenated_eq_some_iff.mp hpair
        obtain ⟨-, hp', -⟩ := TradingPair.fromConcatenated_eq_some_iff.mp (heq.symm.trans hpair)
        rw [← hp', hupper] at hp
        exact hvne (by simpa using congrArg String.toList hp)
    · rintro (h | h | ⟨h, -⟩)
      · exact absurd h htight
      · rw [fromConcatenated_eq_none_iff.mpr (fun q hq b hb => absurd hb (h q hq b)),
          fromConcatenated_eq_none_iff]
        intro q hq b hb
        obtain ⟨b', hb'⟩ := exists_of_blank_append hv hq (hupper.symm.trans hb)
        exact absurd hb' (h q hq b')
      · exact absurd h hlast

end Concatenated

/-! ## Bare coins -/

/-- A text with a colon that is no dex coin, or one without that is empty or
says something. -/
def PlainCoin (raw : String) : Prop :=
  match Str.splitOnce ':' (Str.trim raw) with
  | some (dex, ticker) => dex = "" ∨ ticker = "" ∨ ¬ Str.allAsciiAlphanumeric dex
      ∨ ¬ Str.allAsciiAlphanumeric ticker
  | none => raw = "" ∨ Str.trim raw ≠ ""

theorem containsAny_iff {cs : List Char} {s : String} :
    Str.containsAny cs s = true ↔ ∃ c ∈ cs, c ∈ s.toList := by
  unfold Str.containsAny
  rw [List.any_eq_true]
  exact ⟨fun ⟨c, hc, hcs⟩ => ⟨c, List.contains_iff_mem.mp hcs, hc⟩,
    fun ⟨c, hcs, hc⟩ => ⟨c, hc, List.contains_iff_mem.mpr hcs⟩⟩

section Coins

variable {u : Unicode} (hu : u.Lawful) (hspace : u.KeepsSpace)

theorem normalizeAsset_usdc : normalizeAsset u (Str.trim "USDC") = "USDC" :=
  stored_of_upper (toUppercase_usdc u) (List.all_iff_forall_prop.mp (by decide))

include hu

/-- Without a colon, both parsers look for the same separators. -/
theorem containsAny_trim_iff {raw : String} (hcolon : ':' ∉ (Str.trim raw).toList) :
    Str.containsAny [':', '@', '/', '-', '_'] (Str.trim raw) = true ↔
      Str.containsAny ['@', '/', '-', '_'] (Str.toUppercase u raw) = true := by
  rw [containsAny_iff, containsAny_iff]
  have hsep : ∀ c ∈ ['@', '/', '-', '_'],
      Str.isStructural c = true ∧ Str.isWhitespace c = false :=
    List.all_iff_forall_prop.mp (by decide)
  constructor
  · rintro ⟨c, hc, hmem⟩
    obtain rfl | hc := List.mem_cons.mp hc
    · exact absurd hmem hcolon
    · exact ⟨c, hc, (hu.upper.structural _ _ (hsep c hc).1).mpr
        ((Str.mem_trim (hsep c hc).2).mp hmem)⟩
  · rintro ⟨c, hc, hmem⟩
    exact ⟨c, List.mem_cons_of_mem _ hc,
      (Str.mem_trim (hsep c hc).2).mpr ((hu.upper.structural _ _ (hsep c hc).1).mp hmem)⟩

include hspace

theorem bareCoin_eq_iff (raw : String) :
    SymbolCodec.decodeBareCoin u "USDC" raw = TradingPair.fromBareCoin u (Str.trim raw) ↔
      PlainCoin raw := by
  have htrim : Str.trim (Str.trim raw) = Str.trim raw :=
    Str.trim_eq_self_iff.mpr (Str.tight_trim raw)
  unfold SymbolCodec.decodeBareCoin TradingPair.fromBareCoin PlainCoin
  rw [htrim]
  obtain ⟨hcolon, hcut⟩ | ⟨dex, ticker, hs, -, hcut⟩ := Str.splitOnce_cases ':' (Str.trim raw)
  · rw [hcut]
    dsimp only
    by_cases hempty : Str.trim raw = ""
    · have hblank := Str.trim_eq_empty_iff.mp hempty
      rw [if_pos (Or.inl hempty), toUppercase_blank hu hspace hblank, ite_eq_left_iff]
      have hsep : Str.containsAny ['@', '/', '-', '_'] raw = false := by
        refine Bool.eq_false_iff.mpr (fun h => ?_)
        rw [← toUppercase_blank hu hspace hblank, ← containsAny_trim_iff hu hcolon, hempty] at h
        exact absurd h (by decide)
      simp [hempty, hsep]
    · have hupper : Str.toUppercase u raw ≠ "" := by
        refine hu.upper.ne_empty raw (fun h => hempty ?_)
        rw [h]
        rfl
      refine iff_of_true ?_ (Or.inr hempty)
      by_cases hsep : Str.containsAny ['@', '/', '-', '_'] (Str.toUppercase u raw) = true
      · rw [if_pos (Or.inr hsep), if_pos (Or.inr ((containsAny_trim_iff hu hcolon).mpr hsep))]
      · rw [if_neg (not_or.mpr ⟨hupper, hsep⟩),
          if_neg (not_or.mpr ⟨hempty, fun h => hsep ((containsAny_trim_iff hu hcolon).mp h)⟩)]
        have hplain : ':' ∉ (Str.toUppercase u (Str.trim raw)).toList :=
          fun h => hcolon ((hu.upper.structural _ _ rfl).mp h)
        unfold TradingPair.new
        rw [trim_toUppercase hu hspace, normalizeAsset_of_not_mem hplain, hu.upper.idem,
          normalizeAsset_usdc]
  · have hmem : ':' ∈ (Str.trim raw).toList := by
      rw [hs]
      exact List.mem_append_right _ List.mem_cons_self
    rw [hcut, if_pos (Or.inr (containsAny_iff.mpr ⟨':', List.mem_cons_self, hmem⟩))]
    dsimp only
    refine ⟨fun h => ?_, fun h => if_pos h⟩
    by_contra hgood
    rw [if_neg hgood] at h
    cases h

end Coins

/-! ## The two parsers -/

/-- A symbol on which the parsers agree. -/
def PlainSymbol (u : Unicode) (raw : String) : Exchange → Prop
  | .coinbase | .okx | .kucoin | .upbit => PlainParts u (Str.splitOnce '-' raw)
  | .gateio | .poloniex | .bitso => PlainParts u (Str.splitOnce '_' raw)
  | .kraken => PlainSlash u (Str.splitOnce '/' raw)
  | .bybit | .binance | .htx | .bitget => PlainConcat u raw
  | .hyperliquid => PlainCoin raw

section Parsers

variable {u : Unicode} (hu : u.Lawful) (hspace : u.KeepsSpace)

/-- The older parser on the trimmed text. -/
def TradingPair.fromTrimmed (u : Unicode) (raw : String) : Exchange → Option TradingPair
  | .coinbase | .okx | .kucoin => fromHyphenated u raw
  | .kraken => fromCanonical u raw
  | .gateio | .poloniex | .bitso => fromUnderscore u raw
  | .bybit | .binance | .htx | .bitget => fromConcatenated u raw
  | .upbit => fromQuoteFirstHyphen u raw
  | .hyperliquid => fromBareCoin u raw

/-- An empty text is refused by each of its branches. -/
theorem TradingPair.fromExchangeSymbol_eq (u : Unicode) (raw : String) (e : Exchange) :
    fromExchangeSymbol u raw e = fromTrimmed u (Str.trim raw) e := by
  unfold fromExchangeSymbol
  by_cases hempty : Str.trim raw = ""
  · rw [if_pos hempty, hempty]
    cases e <;> rfl
  · rw [if_neg hempty]
    cases e <;> rfl

/-- A cut text, as a pair. -/
theorem bind_new_eq_map (cut : Option (String × String)) :
    (do
      let (base, quote) ← cut
      some (TradingPair.new u base quote)) = cut.map (fun e => TradingPair.new u e.1 e.2) := by
  cases cut <;> rfl

theorem fromHyphenated_trim (raw : String) :
    TradingPair.fromHyphenated u (Str.trim raw)
      = (TradingPair.fromSeparated u '-' raw).map (fun e => ⟨e.1, e.2⟩) := by
  rw [TradingPair.fromHyphenated_eq, fromSeparated_trim (by decide)]

theorem fromUnderscore_trim (raw : String) :
    TradingPair.fromUnderscore u (Str.trim raw)
      = (TradingPair.fromSeparated u '_' raw).map (fun e => ⟨e.1, e.2⟩) := by
  rw [TradingPair.fromUnderscore, fromSeparated_trim (by decide)]

include hu hspace

theorem hyphen_eq_iff (raw : String) :
    SymbolCodec.hyphen.decode u raw = TradingPair.fromHyphenated u (Str.trim raw) ↔
      PlainParts u (Str.splitOnce '-' raw) := by
  rw [SymbolCodec.decode, bind_new_eq_map, fromHyphenated_trim]
  exact separated_eq_iff hu hspace rfl (toUppercase_separator (by decide) (by decide)) raw

theorem underscore_eq_iff (upper : Bool) (raw : String) :
    (SymbolCodec.underscore upper).decode u raw = TradingPair.fromUnderscore u (Str.trim raw) ↔
      PlainParts u (Str.splitOnce '_' raw) := by
  rw [SymbolCodec.decode, bind_new_eq_map, fromUnderscore_trim]
  exact separated_eq_iff hu hspace rfl (toUppercase_separator (by decide) (by decide)) raw

theorem quoteFirst_eq_iff (raw : String) :
    (SymbolCodec.quoteFirst '-').decode u raw
      = TradingPair.fromQuoteFirstHyphen u (Str.trim raw) ↔
      PlainParts u (Str.splitOnce '-' raw) := by
  -- both are the hyphenated pair with its sides changed
  have hswap : Function.Injective (fun p : TradingPair => (⟨p.quote, p.base⟩ : TradingPair)) := by
    rintro ⟨base, quote⟩ ⟨base', quote'⟩ h
    cases h
    rfl
  have hcodec : (SymbolCodec.quoteFirst '-').decode u raw
      = (SymbolCodec.hyphen.decode u raw).map (fun p => ⟨p.quote, p.base⟩) := by
    simp only [SymbolCodec.decode]
    cases Str.splitOnce '-' (Str.toUppercase u raw) <;> simp [TradingPair.new]
  have hlegacy : TradingPair.fromQuoteFirstHyphen u (Str.trim raw)
      = (TradingPair.fromHyphenated u (Str.trim raw)).map (fun p => ⟨p.quote, p.base⟩) := by
    rw [TradingPair.fromQuoteFirstHyphen, TradingPair.fromHyphenated_eq, Option.map_map]
    rfl
  rw [hcodec, hlegacy, (Option.map_injective hswap).eq_iff]
  exact hyphen_eq_iff hu hspace raw

theorem concat_eq_iff (upper : Bool) (raw : String) :
    (SymbolCodec.concat upper).decode u raw = TradingPair.fromConcatenated u (Str.trim raw) ↔
      PlainConcat u raw := by
  rw [SymbolCodec.decode, fromConcatenated_toUppercase hu]
  exact concatenated_eq_iff hu hspace raw

/-- **Where the parsers agree.** -/
theorem decode_eq_iff (e : Exchange) (raw : String) :
    e.symbolCodec.decode u raw = TradingPair.fromExchangeSymbol u raw e ↔ PlainSymbol u raw e := by
  rw [TradingPair.fromExchangeSymbol_eq]
  cases e with
  | coinbase | okx | kucoin => exact hyphen_eq_iff hu hspace raw
  | kraken =>
    show SymbolCodec.slash.decode u raw = TradingPair.fromCanonical u (Str.trim raw) ↔ _
    rw [SymbolCodec.decode, bind_new_eq_map, fromCanonical_trim]
    exact slash_eq_iff hu hspace raw
  | gateio | poloniex => exact underscore_eq_iff hu hspace true raw
  | bitso => exact underscore_eq_iff hu hspace false raw
  | bybit | binance | bitget => exact concat_eq_iff hu hspace true raw
  | htx => exact concat_eq_iff hu hspace false raw
  | upbit => exact quoteFirst_eq_iff hu hspace raw
  | hyperliquid => exact bareCoin_eq_iff hu hspace raw

omit hu hspace in
/-- Of Hyperliquid's dex coins the codec takes all, the older parser none. -/
theorem dexCoin_decode {raw dex ticker : String}
    (hcut : Str.splitOnce ':' (Str.trim raw) = some (dex, ticker)) (hdex : dex ≠ "")
    (hticker : ticker ≠ "") (hd : Str.allAsciiAlphanumeric dex = true)
    (ht : Str.allAsciiAlphanumeric ticker = true) :
    Exchange.hyperliquid.symbolCodec.decode u raw
        = some ⟨Str.toLowercase u dex ++ ":" ++ Str.toUppercase u ticker, "USDC"⟩ ∧
      TradingPair.fromExchangeSymbol u raw .hyperliquid = none := by
  have hcodec : Exchange.hyperliquid.symbolCodec.decode u raw
      = some ⟨Str.toLowercase u dex ++ ":" ++ Str.toUppercase u ticker, "USDC"⟩ := by
    have hbase : normalizeAsset u (Str.trim raw)
        = Str.toLowercase u dex ++ ":" ++ Str.toUppercase u ticker := by
      unfold normalizeAsset
      rw [hcut]
      exact if_pos ⟨hdex, hticker⟩
    show SymbolCodec.decodeBareCoin u "USDC" raw = _
    unfold SymbolCodec.decodeBareCoin
    rw [hcut]
    dsimp only
    rw [if_neg (by simp [hdex, hticker, hd, ht]), TradingPair.new,
      Str.trim_eq_self_iff.mpr (Str.tight_trim raw), hbase, normalizeAsset_usdc]
  have hlegacy : TradingPair.fromBareCoin u (Str.trim raw) = none := by
    have hmem : ':' ∈ (Str.trim raw).toList := by
      rw [(Str.splitOnce_eq_some.mp hcut).1]
      exact List.mem_append_right _ List.mem_cons_self
    unfold TradingPair.fromBareCoin
    rw [Str.trim_eq_self_iff.mpr (Str.tight_trim raw),
      if_pos (Or.inr (containsAny_iff.mpr ⟨':', List.mem_cons_self, hmem⟩))]
  rw [TradingPair.fromExchangeSymbol_eq]
  exact ⟨hcodec, hlegacy⟩

/-- **The parsers agree on plain symbols**, and Hyperliquid's dex coins are
the codec's alone. -/
theorem parsers_agree (raw : String) :
    (∀ e, PlainSymbol u raw e →
      e.symbolCodec.decode u raw = TradingPair.fromExchangeSymbol u raw e) ∧
    ∀ dex ticker, Str.splitOnce ':' (Str.trim raw) = some (dex, ticker) → dex ≠ "" → ticker ≠ "" →
      Str.allAsciiAlphanumeric dex = true → Str.allAsciiAlphanumeric ticker = true →
      Exchange.hyperliquid.symbolCodec.decode u raw
          = some ⟨Str.toLowercase u dex ++ ":" ++ Str.toUppercase u ticker, "USDC"⟩ ∧
        TradingPair.fromExchangeSymbol u raw .hyperliquid = none :=
  ⟨fun e h => (decode_eq_iff hu hspace e raw).mpr h,
    fun _ _ hcut hdex hticker hd ht => dexCoin_decode hcut hdex hticker hd ht⟩

end Parsers

theorem plainSymbol_btcUsd : PlainSymbol .ascii "btc-usd" .coinbase := by
  have hcut : Str.splitOnce '-' "btc-usd" = some ("btc", "usd") := by decide
  have hdex : ∀ s : String, ':' ∉ s.toList → KeepsDex .ascii s := by
    intro s hs dex ticker hcut
    rw [Str.splitOnce_of_not_mem hs] at hcut
    cases hcut
  show PlainParts .ascii (Str.splitOnce '-' "btc-usd")
  rw [hcut]
  intro e he
  obtain rfl := Option.some.inj he
  exact ⟨by decide, by decide, hdex _ (by decide),
    hdex _ (by decide)⟩

theorem parsers_agree_btcUsd :
    Exchange.coinbase.symbolCodec.decode .ascii "btc-usd"
        = TradingPair.fromExchangeSymbol .ascii "btc-usd" .coinbase ∧
      TradingPair.fromExchangeSymbol .ascii "XYZ:tsla" .hyperliquid = none :=
  ⟨(parsers_agree Unicode.ascii_lawful Unicode.keepsSpace_ascii "btc-usd").1 .coinbase
      plainSymbol_btcUsd,
    ((parsers_agree Unicode.ascii_lawful Unicode.keepsSpace_ascii "XYZ:tsla").2 "XYZ" "tsla"
      (by decide) (by decide) (by decide) (by decide)
      (by decide)).2⟩

/-- A dex coin of Hyperliquid. -/
theorem not_parsers_agree_dexCoin :
    ¬ ∀ u : Unicode, u.Lawful → u.KeepsSpace → ∀ (e : Exchange) (raw : String),
      e.symbolCodec.decode u raw = TradingPair.fromExchangeSymbol u raw e := by
  intro h
  have heq := h .ascii Unicode.ascii_lawful Unicode.keepsSpace_ascii .hyperliquid "xyz:TSLA"
  have hcut : Str.splitOnce ':' (Str.trim "xyz:TSLA") = some ("xyz", "TSLA") := by decide
  obtain ⟨hcodec, hlegacy⟩ := dexCoin_decode hcut (by decide) (by decide)
    (by decide) (by decide)
  rw [hcodec, hlegacy] at heq
  cases heq
