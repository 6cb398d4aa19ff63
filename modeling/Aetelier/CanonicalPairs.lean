import Aetelier.OrderbookDelta
import Aetelier.WireSymbols

/-!
# The canonical form reads back

The runtime stamps every update with the canonical form of its pair, and the
book reads the form again to check the update's symbol. A dozen routes lead
from a text to a pair, and not all of them leave what the canonical form can
carry: a base that holds a slash is cut at the wrong place, a side that is
empty is not read at all, and a dex prefix in upper case comes back in lower
case.

What each route must be given so that its pairs come back is said on the text
it cuts (`PairRoute.Sound`), and that nothing else goes wrong is
`PairRoute.comes_back_iff`. The canonical parser itself always gives pairs that
come back; so does the bare coin of Hyperliquid.
-/

/-- The venues. -/
inductive Exchange where
  | bybit
  | coinbase
  | kraken
  | binance
  | okx
  | gateio
  | upbit
  | poloniex
  | htx
  | kucoin
  | bitget
  | bitso
  | hyperliquid
deriving DecidableEq, Repr

namespace TradingPair

/-- The two sides of a symbol with a separator, trimmed and in upper case. -/
def fromSeparated (u : Unicode) (sep : Char) (raw : String) : Option (String × String) := do
  let (left, right) ← Str.splitOnce sep raw
  if Str.trim left = "" ∨ Str.trim right = "" then none
  else some (Str.toUppercase u (Str.trim left), Str.toUppercase u (Str.trim right))

theorem fromHyphenated_eq (u : Unicode) (raw : String) :
    fromHyphenated u raw = (fromSeparated u '-' raw).map (fun e => ⟨e.1, e.2⟩) := by
  unfold fromHyphenated fromSeparated
  cases Str.splitOnce '-' raw with
  | none => rfl
  | some e =>
    obtain ⟨left, right⟩ := e
    dsimp only [Option.bind_eq_bind, Option.bind_some]
    by_cases hblank : Str.trim left = "" ∨ Str.trim right = ""
    · rw [if_pos hblank, if_pos hblank, Option.map_none]
    · rw [if_neg hblank, if_neg hblank, Option.map_some]

/-- Parse an underscore-separated symbol. -/
def fromUnderscore (u : Unicode) (raw : String) : Option TradingPair :=
  (fromSeparated u '_' raw).map (fun e => ⟨e.1, e.2⟩)

/-- Parse a quote-first hyphen symbol. -/
def fromQuoteFirstHyphen (u : Unicode) (raw : String) : Option TradingPair :=
  (fromSeparated u '-' raw).map (fun e => ⟨e.2, e.1⟩)

/-- Parse a bare coin. -/
def fromBareCoin (u : Unicode) (raw : String) : Option TradingPair :=
  if Str.trim raw = "" ∨ Str.containsAny [':', '@', '/', '-', '_'] (Str.trim raw) then none
  else some ⟨Str.toUppercase u (Str.trim raw), "USDC"⟩

/-- Parse a symbol as a venue writes it. -/
def fromExchangeSymbol (u : Unicode) (raw : String) (exchange : Exchange) : Option TradingPair :=
  if Str.trim raw = "" then none
  else
    match exchange with
    | .coinbase | .okx | .kucoin => fromHyphenated u (Str.trim raw)
    | .kraken => fromCanonical u (Str.trim raw)
    | .gateio | .poloniex | .bitso => fromUnderscore u (Str.trim raw)
    | .bybit | .binance | .htx | .bitget => fromConcatenated u (Str.trim raw)
    | .upbit => fromQuoteFirstHyphen u (Str.trim raw)
    | .hyperliquid => fromBareCoin u (Str.trim raw)

/-- **A pair that comes back**: its canonical form is read as the pair, and a
book of the pair accepts the form as its symbol. -/
def ComesBack (u : Unicode) (p : TradingPair) : Prop :=
  fromCanonical u p.toCanonical = some p ∧
    ∀ ob : OrderbookDelta, ob.pair = p → ob.acceptsSymbol u p.toCanonical = true

end TradingPair

/-- The dex prefix of an asset, if it has one, has no upper case. -/
def KeepsDex (u : Unicode) (asset : String) : Prop :=
  ∀ dex ticker, Str.splitOnce ':' asset = some (dex, ticker) → dex ≠ "" → ticker ≠ "" →
    Str.toLowercase u dex = dex

/-! ## Assets in stored form -/

section Assets

variable {u : Unicode} {s : String}

theorem toUppercase_empty (u : Unicode) : Str.toUppercase u "" = "" :=
  toUppercase_of_ascii (by decide) (by decide)

/-- An asset with a dex prefix, or one that is only put in upper case. -/
theorem normalizeAsset_cases (u : Unicode) (s : String) :
    (∃ dex ticker : String, Str.splitOnce ':' s = some (dex, ticker) ∧ dex ≠ "" ∧ ticker ≠ "" ∧
        normalizeAsset u s = Str.toLowercase u dex ++ ":" ++ Str.toUppercase u ticker) ∨
      (∀ dex ticker : String, Str.splitOnce ':' s = some (dex, ticker) → dex ≠ "" → ticker = "") ∧
        normalizeAsset u s = Str.toUppercase u s := by
  unfold normalizeAsset
  cases h : Str.splitOnce ':' s with
  | none => exact Or.inr ⟨fun _ _ h => (by cases h), rfl⟩
  | some e =>
    obtain ⟨dex, ticker⟩ := e
    by_cases hboth : dex ≠ "" ∧ ticker ≠ ""
    · exact Or.inl ⟨dex, ticker, rfl, hboth.1, hboth.2, if_pos hboth⟩
    · refine Or.inr ⟨fun dex' ticker' h hne => ?_, if_neg hboth⟩
      cases h
      exact not_not.mp (fun ht => hboth ⟨hne, ht⟩)

theorem normalizeAsset_structural (hu : u.Lawful) {c : Char} (hc : Str.isStructural c = true) :
    c ∈ (normalizeAsset u s).toList ↔ c ∈ s.toList := by
  obtain ⟨dex, ticker, hs, -, -, heq⟩ | ⟨-, heq⟩ := normalizeAsset_cases u s
  · rw [heq, Str.eq_of_splitOnce hs]
    simp only [String.toList_append, List.mem_append]
    rw [hu.lower.structural _ c hc, hu.upper.structural _ c hc]
    rfl
  · rw [heq, hu.upper.structural _ c hc]

theorem normalizeAsset_empty (u : Unicode) : normalizeAsset u "" = "" := by
  rw [normalizeAsset_of_not_mem (by decide), toUppercase_empty]

theorem normalizeAsset_ne_empty (hu : u.Lawful) (h : s ≠ "") : normalizeAsset u s ≠ "" := by
  obtain ⟨dex, ticker, -, -, -, heq⟩ | ⟨-, heq⟩ := normalizeAsset_cases u s
  · intro hempty
    have hlist := congrArg String.toList (heq.symm.trans hempty)
    rw [show ":" = ':'.toString from rfl, Str.toList_joined] at hlist
    exact List.append_ne_nil_of_right_ne_nil _ (List.cons_ne_nil _ _) hlist
  · rw [heq]
    exact hu.upper.ne_empty s h

theorem tight_normalizeAsset (hu : u.Lawful) (h : Str.Tight s) :
    Str.Tight (normalizeAsset u s) := by
  obtain ⟨dex, ticker, hs, hdex, hticker, heq⟩ | ⟨-, heq⟩ := normalizeAsset_cases u s
  · rw [Str.eq_of_splitOnce hs, Str.tight_append hdex hticker] at h
    rw [heq, Str.tight_append (hu.lower.ne_empty _ hdex) (hu.upper.ne_empty _ hticker)]
    exact ⟨hu.lower.head _ h.1, hu.upper.last _ h.2⟩
  · rw [heq]
    exact hu.upper.tight h

/-- **A stored asset is stored as it is.** -/
theorem normalizeAsset_normalizeAsset (hu : u.Lawful) (s : String) :
    normalizeAsset u (normalizeAsset u s) = normalizeAsset u s := by
  obtain ⟨dex, ticker, hs, hdex, hticker, heq⟩ | ⟨hshort, heq⟩ := normalizeAsset_cases u s
  · have hcolon : ':' ∉ (Str.toLowercase u dex).toList := by
      rw [hu.lower.structural _ _ rfl]
      exact (Str.splitOnce_eq_some.mp hs).2
    rw [heq]
    unfold normalizeAsset
    rw [show ":" = ':'.toString from rfl, Str.splitOnce_joined hcolon]
    dsimp only
    rw [if_pos ⟨hu.lower.ne_empty _ hdex, hu.upper.ne_empty _ hticker⟩, hu.lower.idem,
      hu.upper.idem]
  · -- in upper case the text has the same colon, with nothing on the same side
    rw [heq]
    obtain ⟨dex, ticker, hs, hdex, hticker, -⟩ | ⟨-, heq'⟩ :=
      normalizeAsset_cases u (Str.toUppercase u s)
    · obtain ⟨hmem, -⟩ | ⟨a, b, -, ha, hab⟩ := Str.splitOnce_cases ':' s
      · rw [← hu.upper.structural _ _ rfl, Str.eq_of_splitOnce hs, Str.toList_joined] at hmem
        exact absurd (List.mem_append_right _ List.mem_cons_self) hmem
      · have hcolon : ':' ∉ (Str.toUppercase u a).toList := by
          rw [hu.upper.structural _ _ rfl]
          exact ha
        have hupper : Str.toUppercase u ':'.toString = ':'.toString :=
          toUppercase_separator (by decide) (by decide)
        rw [Str.eq_of_splitOnce hab, hu.upper_append, hu.upper_append, hupper,
          Str.splitOnce_joined hcolon] at hs
        cases hs
        have hne : a ≠ "" := fun h => hdex (by rw [h, toUppercase_empty])
        exact absurd (by rw [hshort a b hab hne, toUppercase_empty]) hticker
    · rw [heq', hu.upper.idem]

/-- Of the assets in upper case, those without a dex prefix in letters are in
stored form. -/
theorem normalizeAsset_eq_self_iff (hu : u.Lawful) (h : Str.toUppercase u s = s) :
    normalizeAsset u s = s ↔ KeepsDex u s := by
  obtain ⟨dex, ticker, hs, hdex, hticker, heq⟩ | ⟨hshort, heq⟩ := normalizeAsset_cases u s
  · have hparts := Str.eq_of_splitOnce hs
    have hupper : Str.toUppercase u ticker = ticker := by
      rw [hparts] at h
      exact (hu.upper_parts h).2
    rw [heq, hupper]
    constructor
    · intro hsame dex' ticker' hs' _ _
      rw [hs] at hs'
      cases hs'
      rw [hparts] at hsame
      exact (String.append_left_inj _).mp ((String.append_left_inj _).mp hsame)
    · intro hkeeps
      rw [hkeeps dex ticker hs hdex hticker]
      exact hparts.symm
  · rw [heq]
    exact iff_of_true h
      (fun dex ticker hs hdex hticker => absurd (hshort dex ticker hs hdex) hticker)

end Assets

/-! ## Pairs that come back -/

namespace TradingPair

section Pairs

variable {u : Unicode} {p : TradingPair}

/-- **Which pairs come back**: the base without a slash, and both sides as
they are stored. -/
theorem comesBack_iff_stored (hu : u.Lawful) : ComesBack u p ↔
    '/' ∉ p.base.toList ∧ Str.trim p.base ≠ "" ∧ Str.trim p.quote ≠ "" ∧
      normalizeAsset u (Str.trim p.base) = p.base ∧
      normalizeAsset u (Str.trim p.quote) = p.quote := by
  have hread : ComesBack u p ↔ fromCanonical u p.toCanonical = some p := by
    refine and_iff_left_of_imp (fun hback ob hob => ?_)
    unfold OrderbookDelta.acceptsSymbol fromStr
    rw [hback, hob]
    exact decide_eq_true rfl
  rw [hread]
  unfold fromCanonical toCanonical
  by_cases hslash : '/' ∈ p.base.toList
  · refine iff_of_false (fun h => ?_) (fun h => h.1 hslash)
    -- what is read ends before the first slash
    obtain ⟨⟨a, b⟩, hcut, hsome⟩ := Option.bind_eq_some_iff.mp h
    dsimp only at hsome
    split at hsome
    · cases hsome
    · rw [← Option.some_inj.mp hsome] at hslash
      dsimp only at hslash
      rw [normalizeAsset_structural hu rfl, Str.mem_trim rfl] at hslash
      exact (Str.splitOnce_eq_some.mp hcut).2 hslash
  · rw [show "/" = '/'.toString from rfl, Str.splitOnce_joined hslash]
    rw [Option.bind_eq_bind, Option.bind_some]
    dsimp only
    constructor
    · intro h
      split at h
      · cases h
      · next hne =>
        rw [not_or] at hne
        have hbase := congrArg base (Option.some_inj.mp h)
        have hquote := congrArg quote (Option.some_inj.mp h)
        dsimp only at hbase hquote
        exact ⟨hslash, hne.1, hne.2, hbase, hquote⟩
    · rintro ⟨-, hb, hq, hbase, hquote⟩
      rw [if_neg (not_or.mpr ⟨hb, hq⟩), hbase, hquote]

/-- A pair made of two texts comes back if there is no slash in the first and
neither is blank. -/
theorem comesBack_new_iff (hu : u.Lawful) (b q : String) : ComesBack u (new u b q) ↔
    '/' ∉ b.toList ∧ Str.trim b ≠ "" ∧ Str.trim q ≠ "" := by
  have htrim : ∀ s, Str.trim (normalizeAsset u (Str.trim s)) = normalizeAsset u (Str.trim s) :=
    fun s => Str.trim_eq_self_iff.mpr (tight_normalizeAsset hu (Str.tight_trim s))
  have hempty : ∀ s, normalizeAsset u (Str.trim s) ≠ "" ↔ Str.trim s ≠ "" := by
    intro s
    refine ⟨fun h hs => h ?_, normalizeAsset_ne_empty hu⟩
    rw [hs, normalizeAsset_empty]
  rw [comesBack_iff_stored hu]
  unfold new
  dsimp only
  rw [htrim, htrim, hempty, hempty, normalizeAsset_structural hu rfl, Str.mem_trim rfl,
    normalizeAsset_normalizeAsset hu, normalizeAsset_normalizeAsset hu]
  exact and_congr_right (fun _ => and_congr_right (fun _ => and_iff_left ⟨rfl, rfl⟩))

/-- A pair of two trimmed texts in upper case comes back if there is no slash
in the first and neither has a dex prefix that lower-casing changes. -/
theorem comesBack_upper_iff (hu : u.Lawful) {b q : String} (hb : Str.trim b ≠ "")
    (hq : Str.trim q ≠ "") :
    ComesBack u ⟨Str.toUppercase u (Str.trim b), Str.toUppercase u (Str.trim q)⟩ ↔
      '/' ∉ b.toList ∧ KeepsDex u (Str.toUppercase u (Str.trim b)) ∧
        KeepsDex u (Str.toUppercase u (Str.trim q)) := by
  have htrim : ∀ s, Str.trim (Str.toUppercase u (Str.trim s)) = Str.toUppercase u (Str.trim s) :=
    fun s => Str.trim_eq_self_iff.mpr (hu.upper.tight (Str.tight_trim s))
  rw [comesBack_iff_stored hu]
  dsimp only
  rw [htrim, htrim, normalizeAsset_eq_self_iff hu (hu.upper.idem _),
    normalizeAsset_eq_self_iff hu (hu.upper.idem _), hu.upper.structural _ _ rfl, Str.mem_trim rfl]
  refine and_congr_right (fun _ => ?_)
  rw [and_iff_right (hu.upper.ne_empty _ hb), and_iff_right (hu.upper.ne_empty _ hq)]

/-- Known quotes say something, in plain characters. -/
theorem known_quote_plain {q : String} (hq : q ∈ knownQuotes) :
    q ≠ "" ∧ ∀ c ∈ q.toList, Str.isStructural c = false := by
  have hknown : ∀ q ∈ knownQuotes, q ≠ "" ∧ q.toList.all (Str.isStructural · = false) = true := by
    decide
  exact ⟨(hknown q hq).1, List.all_iff_forall_prop.mp (hknown q hq).2⟩

/-- A pair cut out of a text in upper case comes back if its base has no slash
and no white space at its ends, and no dex prefix that lower-casing changes. -/
theorem comesBack_concat_iff (hu : u.Lawful) {b q : String} (hb : b ≠ "") (hq : q ∈ knownQuotes)
    (hupper : Str.toUppercase u (b ++ q) = b ++ q) :
    ComesBack u ⟨b, q⟩ ↔ '/' ∉ b.toList ∧ Str.Tight b ∧ KeepsDex u b := by
  have hticker : Ticker u q :=
    ⟨(known_quote_plain hq).1, (hu.upper_parts hupper).2, (known_quote_plain hq).2⟩
  have hquote : Str.trim q ≠ "" := by
    rw [Str.trim_eq_self_iff.mpr hticker.tight]
    exact hticker.ne_empty
  rw [comesBack_iff_stored hu]
  dsimp only
  refine and_congr_right (fun _ => ?_)
  constructor
  · rintro ⟨-, -, hstored, -⟩
    have htight : Str.Tight b := by
      rw [← hstored]
      exact tight_normalizeAsset hu (Str.tight_trim b)
    rw [Str.trim_eq_self_iff.mpr htight] at hstored
    exact ⟨htight, (normalizeAsset_eq_self_iff hu (hu.upper_parts hupper).1).mp hstored⟩
  · rintro ⟨htight, hkeeps⟩
    rw [Str.trim_eq_self_iff.mpr htight]
    exact ⟨hb, hquote, (normalizeAsset_eq_self_iff hu (hu.upper_parts hupper).1).mpr hkeeps,
      hticker.stored⟩

end Pairs

end TradingPair

/-! ## The routes -/

/-- **The routes from a text to a pair.** -/
inductive PairRoute where
  /-- A codec reads a wire symbol. -/
  | codec (codec : SymbolCodec)
  /-- A symbol as a venue writes it. -/
  | exchange (exchange : Exchange)
  /-- The canonical form. -/
  | canonical
  /-- A symbol without separator. -/
  | concatenated
  /-- Whatever form fits first. -/
  | fromStr
deriving DecidableEq, Repr

namespace PairRoute

/-- The pair a text is read as. -/
def parse (u : Unicode) (route : PairRoute) (raw : String) : Option TradingPair :=
  match route with
  | codec c => c.decode u raw
  | exchange e => TradingPair.fromExchangeSymbol u raw e
  | canonical => TradingPair.fromCanonical u raw
  | concatenated => TradingPair.fromConcatenated u raw
  | fromStr => TradingPair.fromStr u raw

/-- A text cut in a base and a quote that are stored as they come: no slash in
the base, and neither is blank. -/
def SoundCut (cut : Option (String × String)) : Prop :=
  ∀ e ∈ cut, '/' ∉ e.1.toList ∧ Str.trim e.1 ≠ "" ∧ Str.trim e.2 ≠ ""

/-- A text cut in a base and a quote that are put in upper case: no slash in
the base, and no dex prefix in letters. -/
def SoundUpper (u : Unicode) (cut : Option (String × String)) : Prop :=
  ∀ e ∈ cut, '/' ∉ e.1.toList ∧ KeepsDex u (Str.toUppercase u (Str.trim e.1)) ∧
    KeepsDex u (Str.toUppercase u (Str.trim e.2))

/-- A text without separator: before the first known quote that ends it there
is no slash, no white space at either end, and no dex prefix in letters. -/
def SoundConcat (u : Unicode) (raw : String) : Prop :=
  ∀ b, ∀ q ∈ knownQuotes, Str.toUppercase u raw = b ++ q → b ≠ "" →
    (∀ q' ∈ knownQuotes.takeWhile (fun q' => q' != q), ∀ b', Str.toUppercase u raw = b' ++ q' →
      b' = "") →
    '/' ∉ b.toList ∧ Str.Tight b ∧ KeepsDex u b

/-- **What a route must be given.** -/
def Sound (u : Unicode) (route : PairRoute) (raw : String) : Prop :=
  match route with
  | codec .hyphen => SoundCut (Str.splitOnce '-' (Str.toUppercase u raw))
  | codec .slash => SoundCut (Str.splitOnce '/' (Str.toUppercase u raw))
  | codec (.underscore _) => SoundCut (Str.splitOnce '_' (Str.toUppercase u raw))
  | codec (.quoteFirst sep) =>
    SoundCut ((Str.splitOnce sep (Str.toUppercase u raw)).map Prod.swap)
  | codec (.concat _) => SoundConcat u (Str.toUppercase u raw)
  | codec (.bareCoin quote) =>
    SoundCut (some
      (if ':' ∈ (Str.trim raw).toList then Str.trim raw else Str.toUppercase u raw, quote))
  | exchange .coinbase | exchange .okx | exchange .kucoin =>
    SoundUpper u (Str.splitOnce '-' (Str.trim raw))
  | exchange .gateio | exchange .poloniex | exchange .bitso =>
    SoundUpper u (Str.splitOnce '_' (Str.trim raw))
  | exchange .upbit => SoundUpper u ((Str.splitOnce '-' (Str.trim raw)).map Prod.swap)
  | exchange .bybit | exchange .binance | exchange .htx | exchange .bitget =>
    SoundConcat u (Str.trim raw)
  | exchange .kraken | exchange .hyperliquid | canonical => True
  | concatenated => SoundConcat u raw
  | fromStr =>
    if (TradingPair.fromCanonical u raw).isSome then True
    else if (TradingPair.fromHyphenated u raw).isSome then SoundUpper u (Str.splitOnce '-' raw)
    else SoundConcat u raw

section Routes

variable {u : Unicode} {raw : String} {p : TradingPair}

theorem comesBack_of_cut (hu : u.Lawful) {cut : Option (String × String)}
    (h : cut.map (fun e => TradingPair.new u e.1 e.2) = some p) :
    p.ComesBack u ↔ SoundCut cut := by
  obtain ⟨e, rfl, rfl⟩ := Option.map_eq_some_iff.mp h
  rw [TradingPair.comesBack_new_iff hu]
  exact ⟨fun hs e' he' => Option.some_inj.mp he' ▸ hs, fun hs => hs e rfl⟩

theorem comesBack_of_concatenated (hu : u.Lawful)
    (h : TradingPair.fromConcatenated u raw = some p) :
    p.ComesBack u ↔ SoundConcat u raw := by
  obtain ⟨hknown, hraw, hne, hfirst⟩ := TradingPair.fromConcatenated_eq_some_iff.mp h
  rw [TradingPair.comesBack_concat_iff hu hne hknown (by rw [← hraw, hu.upper.idem])]
  constructor
  · intro hs b q hq hcut hb htried
    have hsame : TradingPair.fromConcatenated u raw = some ⟨b, q⟩ :=
      TradingPair.fromConcatenated_eq_some_iff.mpr ⟨hq, hcut, hb, htried⟩
    rw [h] at hsame
    cases hsame
    exact hs
  · exact fun hs => hs p.base p.quote hknown hraw hne hfirst

theorem fromSeparated_eq_some {sep : Char} {e : String × String}
    (h : TradingPair.fromSeparated u sep raw = some e) :
    ∃ l r, Str.splitOnce sep raw = some (l, r) ∧ Str.trim l ≠ "" ∧ Str.trim r ≠ "" ∧
      e = (Str.toUppercase u (Str.trim l), Str.toUppercase u (Str.trim r)) := by
  obtain ⟨⟨l, r⟩, hcut, hsome⟩ := Option.bind_eq_some_iff.mp h
  dsimp only at hsome
  split at hsome
  · cases hsome
  · next hne =>
    rw [not_or] at hne
    exact ⟨l, r, hcut, hne.1, hne.2, (Option.some_inj.mp hsome).symm⟩

theorem comesBack_of_separated (hu : u.Lawful) {sep : Char}
    (h : (TradingPair.fromSeparated u sep raw).map (fun e => (⟨e.1, e.2⟩ : TradingPair)) = some p) :
    p.ComesBack u ↔ SoundUpper u (Str.splitOnce sep raw) := by
  obtain ⟨e, he, rfl⟩ := Option.map_eq_some_iff.mp h
  obtain ⟨l, r, hcut, hl, hr, rfl⟩ := fromSeparated_eq_some he
  rw [TradingPair.comesBack_upper_iff hu hl hr, hcut]
  exact ⟨fun hs e' he' => Option.some_inj.mp he' ▸ hs, fun hs => hs (l, r) rfl⟩

theorem comesBack_of_separated_swap (hu : u.Lawful) {sep : Char}
    (h : (TradingPair.fromSeparated u sep raw).map (fun e => (⟨e.2, e.1⟩ : TradingPair)) = some p) :
    p.ComesBack u ↔ SoundUpper u ((Str.splitOnce sep raw).map Prod.swap) := by
  obtain ⟨e, he, rfl⟩ := Option.map_eq_some_iff.mp h
  obtain ⟨l, r, hcut, hl, hr, rfl⟩ := fromSeparated_eq_some he
  rw [TradingPair.comesBack_upper_iff hu hr hl, hcut]
  exact ⟨fun hs e' he' => Option.some_inj.mp he' ▸ hs, fun hs => hs (r, l) rfl⟩

/-- What the canonical parser gives comes back. -/
theorem comesBack_of_canonical (hu : u.Lawful) (h : TradingPair.fromCanonical u raw = some p) :
    p.ComesBack u := by
  obtain ⟨⟨b, q⟩, hcut, hsome⟩ := Option.bind_eq_some_iff.mp h
  dsimp only at hsome
  split at hsome
  · cases hsome
  · next hne =>
    rw [not_or] at hne
    rw [← Option.some_inj.mp hsome]
    exact (TradingPair.comesBack_new_iff hu b q).mpr
      ⟨(Str.splitOnce_eq_some.mp hcut).2, hne.1, hne.2⟩

/-- So does a bare coin of Hyperliquid. -/
theorem comesBack_of_bareCoin (hu : u.Lawful) (h : TradingPair.fromBareCoin u raw = some p) :
    p.ComesBack u := by
  unfold TradingPair.fromBareCoin at h
  split at h
  · cases h
  · next hne =>
    rw [not_or] at hne
    have hfree : ∀ c ∈ [':', '@', '/', '-', '_'], c ∉ (Str.trim raw).toList :=
      fun c hc hmem => hne.2 (List.any_eq_true.mpr ⟨c, hmem, List.contains_iff_mem.mpr hc⟩)
    have hup := TradingPair.comesBack_upper_iff hu hne.1 (by decide : Str.trim "USDC" ≠ "")
    rw [toUppercase_usdc] at hup
    rw [← Option.some_inj.mp h, hup]
    refine ⟨?_, fun dex ticker hcut => ?_, fun dex ticker hcut => ?_⟩
    · rw [← Str.mem_trim (by decide)]
      exact hfree '/' (by decide)
    · have hcolon : ':' ∉ (Str.toUppercase u (Str.trim raw)).toList := by
        rw [hu.upper.structural _ _ rfl]
        exact hfree ':' (by decide)
      rw [Str.splitOnce_of_not_mem hcolon] at hcut
      cases hcut
    · rw [Str.splitOnce_of_not_mem (by decide)] at hcut
      cases hcut

theorem comesBack_of_decodeBareCoin (hu : u.Lawful) {quote : String}
    (h : SymbolCodec.decodeBareCoin u quote raw = some p) :
    p.ComesBack u ↔ SoundCut (some
      (if ':' ∈ (Str.trim raw).toList then Str.trim raw else Str.toUppercase u raw, quote)) := by
  refine comesBack_of_cut hu ?_
  rw [← h]
  unfold SymbolCodec.decodeBareCoin at h ⊢
  obtain ⟨hmem, hnone⟩ | ⟨dex, ticker, hs, -, hcut⟩ := Str.splitOnce_cases ':' (Str.trim raw)
  · rw [hnone] at h ⊢
    rw [if_neg hmem]
    dsimp only at h ⊢
    split at h
    · cases h
    · next hne => rw [if_neg hne]; rfl
  · have hmem : ':' ∈ (Str.trim raw).toList := hs ▸ List.mem_append_right _ List.mem_cons_self
    rw [hcut] at h ⊢
    rw [if_pos hmem]
    dsimp only at h ⊢
    split at h
    · cases h
    · next hne => rw [if_neg hne]; rfl

theorem comesBack_of_exchange (hu : u.Lawful) {e : Exchange}
    (h : TradingPair.fromExchangeSymbol u raw e = some p) :
    p.ComesBack u ↔ Sound u (exchange e) raw := by
  unfold TradingPair.fromExchangeSymbol at h
  split at h
  · cases h
  · cases e with
    | coinbase | okx | kucoin =>
      exact comesBack_of_separated hu ((TradingPair.fromHyphenated_eq u _).symm.trans h)
    | kraken => exact iff_of_true (comesBack_of_canonical hu h) trivial
    | gateio | poloniex | bitso => exact comesBack_of_separated hu h
    | bybit | binance | htx | bitget => exact comesBack_of_concatenated hu h
    | upbit => exact comesBack_of_separated_swap hu h
    | hyperliquid => exact iff_of_true (comesBack_of_bareCoin hu h) trivial

theorem comesBack_of_decode (hu : u.Lawful) {c : SymbolCodec} (h : c.decode u raw = some p) :
    p.ComesBack u ↔ Sound u (codec c) raw := by
  cases c with
  | hyphen | slash | underscore _ | quoteFirst _ =>
    obtain ⟨e, he, hsome⟩ := Option.bind_eq_some_iff.mp h
    exact comesBack_of_cut hu (by rw [he]; exact hsome)
  | concat upper => exact comesBack_of_concatenated hu h
  | bareCoin quote => exact comesBack_of_decodeBareCoin hu h

/-- **Which texts give pairs that come back.** The pair a route reads a text
as comes back if and only if the text is sound for the route. -/
theorem comes_back_iff (hu : u.Lawful) (route : PairRoute) (h : route.parse u raw = some p) :
    p.ComesBack u ↔ route.Sound u raw := by
  cases route with
  | codec c => exact comesBack_of_decode hu h
  | exchange e => exact comesBack_of_exchange hu h
  | canonical => exact iff_of_true (comesBack_of_canonical hu h) trivial
  | concatenated => exact comesBack_of_concatenated hu h
  | fromStr =>
    show p.ComesBack u ↔ if _ then True else if _ then _ else _
    have hparse : (TradingPair.fromCanonical u raw).or
        ((TradingPair.fromHyphenated u raw).or (TradingPair.fromConcatenated u raw)) = some p := h
    cases hcanonical : TradingPair.fromCanonical u raw with
    | some p' =>
      rw [hcanonical] at hparse
      obtain rfl := Option.some_inj.mp hparse
      exact iff_of_true (comesBack_of_canonical hu hcanonical) trivial
    | none =>
      rw [hcanonical, Option.none_or] at hparse
      rw [Option.isSome_none, if_neg Bool.false_ne_true]
      cases hhyphen : TradingPair.fromHyphenated u raw with
      | some p' =>
        rw [hhyphen] at hparse
        obtain rfl := Option.some_inj.mp hparse
        rw [Option.isSome_some, if_pos rfl]
        exact comesBack_of_separated hu ((TradingPair.fromHyphenated_eq u raw).symm.trans hhyphen)
      | none =>
        rw [hhyphen, Option.none_or] at hparse
        rw [Option.isSome_none, if_neg Bool.false_ne_true]
        exact comesBack_of_concatenated hu hparse

end Routes

/-- A coin of a dex, in the wrong case, comes back. -/
theorem comesBack_dexCoin : (⟨"xyz:TSLA", "USDC"⟩ : TradingPair).ComesBack .ascii := by
  have hparse : (codec (.bareCoin "USDC")).parse .ascii "XYZ:tsla" = some ⟨"xyz:TSLA", "USDC"⟩ := by
    decide
  refine (comes_back_iff Unicode.ascii_lawful _ hparse).mpr (fun e he => ?_)
  obtain rfl := Option.some_inj.mp he
  decide

/-- **A symbol without a base** is taken for a pair all the same. Its canonical
form is not read, and a book of the pair turns its own symbol away. -/
theorem not_comesBack_emptyBase :
    (codec .hyphen).parse .ascii "-USD" = some ⟨"", "USD"⟩ ∧
      ¬ (⟨"", "USD"⟩ : TradingPair).ComesBack .ascii ∧
      (OrderbookDelta.new ⟨"", "USD"⟩).acceptsSymbol .ascii "/USD" = false := by
  refine ⟨by decide, fun h => ?_, by decide⟩
  have hread := h.1
  revert hread
  decide

end PairRoute
