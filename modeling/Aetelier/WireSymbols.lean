import Aetelier.CaseTables

/-!
# Wire symbols read back

A codec writes a pair as the venue spells it and reads the spelling back. With
a separator nothing can go wrong: the tickers do not contain it. Without one
the text is cut before the first known quote that ends it, and the longest
ones are tried first: `BNB` in `USD` is written `BNBUSD`, which is `BN` in
`BUSD`. No cut can do better, since both pairs are written that way.

Two more things are lost on the way, and only these: a separator that
upper-casing changes is not found again, since a symbol is put in upper case
before it is cut, and a ticker whose letters do not come back from lower case
does not come back (`SymbolCodec.decode_encode_iff`).
-/

/-- **A ticker**: a text in upper case without white space and separators. -/
structure Ticker (u : Unicode) (s : String) : Prop where
  ne_empty : s ≠ ""
  upper : Str.toUppercase u s = s
  plain : ∀ c ∈ s.toList, Str.isStructural c = false

/-- A text without a colon is stored in upper case. -/
theorem normalizeAsset_of_not_mem {u : Unicode} {s : String} (h : ':' ∉ s.toList) :
    normalizeAsset u s = Str.toUppercase u s := by
  unfold normalizeAsset
  rw [Str.splitOnce_of_not_mem h]

theorem toUppercase_of_ascii {u : Unicode} {s : String} (hs : Str.isAscii s = true)
    (h : s.toList.map Char.toUpper = s.toList) : Str.toUppercase u s = s := by
  unfold Str.toUppercase
  rw [if_pos hs, h, String.ofList_toList]

/-- The quote of a bare coin is in upper case. -/
theorem toUppercase_usdc (u : Unicode) : Str.toUppercase u (Str.trim "USDC") = "USDC" :=
  toUppercase_of_ascii (by decide) (by decide)

/-- A separator that has no case. -/
theorem toUppercase_separator {u : Unicode} {c : Char} (hc : c.toNat < 128)
    (h : c.toUpper = c) : Str.toUppercase u c.toString = c.toString := by
  have hlist : c.toString.toList = [c] := String.toList_singleton c
  refine toUppercase_of_ascii ?_ ?_
  · unfold Str.isAscii
    rw [hlist, List.all_cons, List.all_nil, Bool.and_true]
    exact decide_eq_true hc
  · rw [hlist, List.map_singleton, h]

/-- A text in upper case with no more than underscores in it is stored as it
is. -/
theorem stored_of_upper {u : Unicode} {s : String} (hs : Str.toUppercase u s = s)
    (h : ∀ c ∈ s.toList, Str.isStructural c = true → c = '_') :
    normalizeAsset u (Str.trim s) = s := by
  have htight : Str.Tight s := by
    refine Str.tight_of_forall (fun c hc => ?_)
    by_contra hws
    have hws : Str.isWhitespace c = true := Bool.not_eq_false _ ▸ hws
    rw [h c hc (Bool.or_eq_true_iff.mpr (Or.inl hws))] at hws
    exact absurd hws (by decide)
  have hcolon : ':' ∉ s.toList := fun hc => absurd (h _ hc rfl) (by decide)
  rw [Str.trim_eq_self_iff.mpr htight, normalizeAsset_of_not_mem hcolon, hs]

namespace Ticker

variable {u : Unicode} {s : String}

theorem not_mem (h : Ticker u s) {c : Char} (hc : Str.isStructural c = true) : c ∉ s.toList :=
  fun hmem => Bool.false_ne_true ((h.plain c hmem).symm.trans hc)

theorem tight (h : Ticker u s) : Str.Tight s :=
  Str.tight_of_forall (fun c hc => (Bool.or_eq_false_iff.mp (h.plain c hc)).1)

/-- A ticker is stored as it is. -/
theorem stored (h : Ticker u s) : normalizeAsset u (Str.trim s) = s :=
  stored_of_upper h.upper (fun _ hc hst => absurd hc (h.not_mem hst))

end Ticker

theorem TradingPair.new_of_ticker {u : Unicode} {p : TradingPair} (hb : Ticker u p.base)
    (hq : Ticker u p.quote) : TradingPair.new u p.base p.quote = p := by
  unfold TradingPair.new
  rw [hb.stored, hq.stored]

/-! ## Without a separator -/

theorem Str.stripSuffix_eq_some {q s b : String} : Str.stripSuffix q s = some b ↔ s = b ++ q := by
  unfold Str.stripSuffix
  rw [← String.toList_inj, String.toList_append]
  constructor
  · intro h
    split at h
    · next hsuffix =>
      obtain ⟨t, ht⟩ := List.isSuffixOf_iff_suffix.mp hsuffix
      cases h
      rw [String.toList_ofList, ← ht, List.length_append, Nat.add_sub_cancel, List.take_left]
    · cases h
  · intro h
    rw [if_pos (List.isSuffixOf_iff_suffix.mpr ⟨b.toList, h.symm⟩), h, List.length_append,
      Nat.add_sub_cancel, List.take_left, String.ofList_toList]

namespace TradingPair

/-- **A pair whose spelling a longer known quote ends.** -/
def Ambiguous (p : TradingPair) : Prop :=
  p.quote = "USD" ∧ ∃ b ≠ "", p.base = b ++ "B" ∨ p.base = b ++ "T" ∨ p.base = b ++ "FD"

section Concatenated

variable {u : Unicode} {raw : String} {p : TradingPair}

/-- **The cut of a text without separator**: before the first known quote that
ends it and leaves something. -/
theorem fromConcatenated_eq_some_iff : fromConcatenated u raw = some p ↔
    p.quote ∈ knownQuotes ∧ Str.toUppercase u raw = p.base ++ p.quote ∧ p.base ≠ "" ∧
      ∀ q ∈ knownQuotes.takeWhile (fun q => q != p.quote), ∀ b,
        Str.toUppercase u raw = b ++ q → b = "" := by
  have hform : fromConcatenated u raw = knownQuotes.findSome? (fun q =>
      (Str.stripSuffix q (Str.toUppercase u raw)).bind (fun base =>
        if base ≠ "" then some (⟨base, q⟩ : TradingPair) else none)) := by
    unfold fromConcatenated
    refine congrArg (fun cut => knownQuotes.findSome? cut) (funext (fun q => ?_))
    cases Str.stripSuffix q (Str.toUppercase u raw) <;> rfl
  have hcut : ∀ q r, (Str.stripSuffix q (Str.toUppercase u raw)).bind (fun base =>
        if base ≠ "" then some (⟨base, q⟩ : TradingPair) else none) = some r
      ↔ r.quote = q ∧ Str.toUppercase u raw = r.base ++ q ∧ r.base ≠ "" := by
    intro q r
    constructor
    · intro h
      obtain ⟨base, hstrip, hbase⟩ := Option.bind_eq_some_iff.mp h
      split at hbase
      · next hne =>
        cases hbase
        exact ⟨rfl, Str.stripSuffix_eq_some.mp hstrip, hne⟩
      · cases hbase
    · rintro ⟨rfl, hraw, hne⟩
      rw [Str.stripSuffix_eq_some.mpr hraw, Option.bind_some]
      exact if_pos hne
  have hnone : ∀ q, (Str.stripSuffix q (Str.toUppercase u raw)).bind (fun base =>
        if base ≠ "" then some (⟨base, q⟩ : TradingPair) else none) = none
      ↔ ∀ b, Str.toUppercase u raw = b ++ q → b = "" := by
    intro q
    rw [Option.eq_none_iff_forall_ne_some]
    constructor
    · intro h b hb
      by_contra hne
      exact h ⟨b, q⟩ ((hcut q ⟨b, q⟩).mpr ⟨rfl, hb, hne⟩)
    · intro h r hr
      obtain ⟨-, hb, hne⟩ := (hcut q r).mp hr
      exact hne (h _ hb)
  rw [hform, List.findSome?_eq_some_iff]
  constructor
  · rintro ⟨l₁, q, l₂, hquotes, hq, hfirst⟩
    obtain ⟨rfl, hraw, hne⟩ := (hcut q p).mp hq
    have hl₁ : p.quote ∉ l₁ := by
      have hnodup : knownQuotes.Nodup := by decide
      rw [hquotes] at hnodup
      exact fun h => (List.nodup_append.mp hnodup).2.2 _ h _ List.mem_cons_self rfl
    refine ⟨hquotes ▸ List.mem_append_right _ List.mem_cons_self, hraw, hne, fun q hq => ?_⟩
    rw [hquotes, List.takeWhile_bne_append hl₁] at hq
    exact (hnone q).mp (hfirst q hq)
  · rintro ⟨hknown, hraw, hne, hfirst⟩
    obtain ⟨l₁, l₂, hquotes, hl₁⟩ := List.eq_append_cons_of_mem hknown
    refine ⟨l₁, p.quote, l₂, hquotes, (hcut _ _).mpr ⟨rfl, hraw, hne⟩, fun q hq => ?_⟩
    refine (hnone q).mpr (hfirst q ?_)
    rw [hquotes, List.takeWhile_bne_append hl₁]
    exact hq

/-- The known quotes that are tried before another and that end it, or that it
ends. -/
theorem earlier_quotes : ∀ q ∈ knownQuotes, ∀ q' ∈ knownQuotes.takeWhile (fun q' => q' != q),
    ¬ q'.toList <:+ q.toList ∧
      (q.toList <:+ q'.toList → q = "USD" ∧ (q' = "BUSD" ∨ q' = "TUSD" ∨ q' = "FDUSD")) := by
  decide

/-- **Where the cut is the right one.** -/
theorem fromConcatenated_append_iff (hraw : Str.toUppercase u raw = p.base ++ p.quote)
    (hb : p.base ≠ "") (hq : p.quote ∈ knownQuotes) :
    fromConcatenated u raw = some p ↔ ¬ p.Ambiguous := by
  rw [fromConcatenated_eq_some_iff, hraw]
  constructor
  · rintro ⟨-, -, -, hfirst⟩ ⟨husd, b, hne, hbase⟩
    rw [husd] at hfirst
    rcases hbase with hbase | hbase | hbase
    · refine hne (hfirst "BUSD" (by decide) b ?_)
      rw [hbase, String.append_assoc]
      rfl
    · refine hne (hfirst "TUSD" (by decide) b ?_)
      rw [hbase, String.append_assoc]
      rfl
    · refine hne (hfirst "FDUSD" (by decide) b ?_)
      rw [hbase, String.append_assoc]
      rfl
  · intro hnot
    refine ⟨hq, rfl, hb, fun q' hq' b' heq => ?_⟩
    by_contra hne
    obtain ⟨hnosuffix, hsuffix⟩ := earlier_quotes p.quote hq q' hq'
    have hlists := congrArg String.toList heq
    rw [String.toList_append, String.toList_append] at hlists
    rcases List.suffix_or_suffix_of_suffix ⟨_, rfl⟩ ⟨_, hlists.symm⟩ with h | h
    · obtain ⟨husd, hq'⟩ := hsuffix h
      have hcancel : ∀ t, q' = t ++ p.quote → p.base = b' ++ t := by
        rintro t rfl
        rw [← String.append_assoc] at heq
        exact (String.append_left_inj _).mp heq
      rw [husd] at hcancel
      refine hnot ⟨husd, b', hne, hq'.imp (fun h => ?_) (Or.imp (fun h => ?_) (fun h => ?_))⟩
      · exact hcancel "B" h
      · exact hcancel "T" h
      · exact hcancel "FD" h
    · exact hnosuffix h

end Concatenated

end TradingPair

/-! ## Every codec -/

namespace SymbolCodec

/-- A pair of tickers that a codec can be asked for: a known quote where there
is no separator, the fixed quote where only the coin is written, and tickers
without the separator. -/
structure Spells (u : Unicode) (codec : SymbolCodec) (p : TradingPair) : Prop where
  base : Ticker u p.base
  quote : Ticker u p.quote
  known : (∃ upper, codec = concat upper) → p.quote ∈ knownQuotes
  fixed : ∀ q, codec = bareCoin q → p.quote = q
  free : ∀ sep, codec = quoteFirst sep → sep ∉ p.base.toList ∧ sep ∉ p.quote.toList

/-- **What a spelling keeps.** A symbol in lower case must come back from
there, a symbol without separator must not be another pair's, and a separator
must be in upper case. -/
def Keeps (u : Unicode) (codec : SymbolCodec) (p : TradingPair) : Prop :=
  match codec with
  | concat upper =>
    (upper = false →
      Str.toUppercase u (Str.toLowercase u (p.base ++ p.quote)) = p.base ++ p.quote) ∧
      ¬ p.Ambiguous
  | underscore upper =>
    upper = false →
      Str.toUppercase u (Str.toLowercase u (p.base ++ "_" ++ p.quote)) = p.base ++ "_" ++ p.quote
  | quoteFirst sep => Str.toUppercase u sep.toString = sep.toString
  | hyphen | slash | bareCoin _ => True

section RoundTrip

variable {u : Unicode} {codec : SymbolCodec} {p : TradingPair}

theorem upper_spelled (hu : u.Lawful) {sep a b : String} (ha : Ticker u a) (hb : Ticker u b)
    (hsep : Str.toUppercase u sep = sep) : Str.toUppercase u (a ++ sep ++ b) = a ++ sep ++ b := by
  rw [hu.upper_append, hu.upper_append, ha.upper, hb.upper, hsep]

/-- A pair cut at a separator of its spelling. -/
theorem decode_separated (hu : u.Lawful) {c : Char} {a b : String} (ha : Ticker u a)
    (hb : Ticker u b) (hc : c ∉ a.toList) (hsep : Str.toUppercase u c.toString = c.toString) :
    Str.splitOnce c (Str.toUppercase u (a ++ c.toString ++ b)) = some (a, b) := by
  rw [upper_spelled hu ha hb hsep, Str.splitOnce_joined hc]

/-- A spelling in upper case comes back from the venue's case. -/
theorem upper_case_iff (hu : u.Lawful) {wire : String} (h : Str.toUppercase u wire = wire)
    (upper : Bool) : Str.toUppercase u (case u wire upper) = wire
      ↔ (upper = false → Str.toUppercase u (Str.toLowercase u wire) = wire) := by
  cases upper with
  | true =>
    refine iff_of_true ?_ (fun hfalse => Bool.noConfusion hfalse)
    show Str.toUppercase u (Str.toUppercase u wire) = wire
    rw [hu.upper.idem, h]
  | false => exact (true_imp_iff.symm.trans (imp_congr_left (iff_of_true trivial rfl)))

theorem decode_encode_concat (hu : u.Lawful) {upper : Bool} (h : (concat upper).Spells u p) :
    (concat upper).decode u ((concat upper).encode u p) = some p ↔ (concat upper).Keeps u p := by
  have hwire : Str.toUppercase u (p.base ++ p.quote) = p.base ++ p.quote := by
    rw [hu.upper_append, h.base.upper, h.quote.upper]
  have hidem := hu.upper.idem (case u (p.base ++ p.quote) upper)
  show TradingPair.fromConcatenated u (Str.toUppercase u (case u (p.base ++ p.quote) upper))
      = some p
    ↔ (upper = false → _) ∧ ¬ p.Ambiguous
  rw [← upper_case_iff hu hwire]
  constructor
  · intro hsome
    have hback := hidem.symm.trans (TradingPair.fromConcatenated_eq_some_iff.mp hsome).2.1
    exact ⟨hback, (TradingPair.fromConcatenated_append_iff (hidem.trans hback) h.base.ne_empty
      (h.known ⟨_, rfl⟩)).mp hsome⟩
  · rintro ⟨hback, hnot⟩
    exact (TradingPair.fromConcatenated_append_iff (hidem.trans hback) h.base.ne_empty
      (h.known ⟨_, rfl⟩)).mpr hnot

/-- A symbol in whatever case has no white space and no separator of its own. -/
theorem structural_spelled (hu : u.Lawful) (upper : Bool) {a b : String} (ha : Ticker u a)
    (hb : Ticker u b) {c : Char}
    (hc : c ∈ (Str.toUppercase u (case u (a ++ "_" ++ b) upper)).toList)
    (hst : Str.isStructural c = true) : c = '_' := by
  have hcase : c ∈ (a ++ "_" ++ b).toList := by
    have hc := (hu.upper.structural _ c hst).mp hc
    cases upper with
    | true => exact (hu.upper.structural _ c hst).mp hc
    | false => exact (hu.lower.structural _ c hst).mp hc
  rw [String.toList_append, String.toList_append, List.mem_append, List.mem_append] at hcase
  exact List.mem_singleton.mp ((hcase.resolve_right (hb.not_mem hst)).resolve_left (ha.not_mem hst))

theorem decode_encode_underscore (hu : u.Lawful) {upper : Bool}
    (h : (underscore upper).Spells u p) :
    (underscore upper).decode u ((underscore upper).encode u p) = some p
      ↔ (underscore upper).Keeps u p := by
  have hsep : Str.toUppercase u "_" = "_" :=
    toUppercase_separator (c := '_') (by decide) (by decide)
  have hwire := upper_spelled hu h.base h.quote hsep
  have hsplit : Str.splitOnce '_' (p.base ++ "_" ++ p.quote) = some (p.base, p.quote) :=
    Str.splitOnce_joined (c := '_') (h.base.not_mem rfl)
  show (Str.splitOnce '_' (Str.toUppercase u (case u (p.base ++ "_" ++ p.quote) upper))).bind
      (fun e => some (TradingPair.new u e.1 e.2)) = some p
    ↔ (upper = false → _)
  rw [← upper_case_iff hu hwire]
  constructor
  · intro hsome
    obtain ⟨⟨a, b⟩, hcut, hnew⟩ := Option.bind_eq_some_iff.mp hsome
    have hlist := (Str.splitOnce_eq_some.mp hcut).1
    have hraw : Str.toUppercase u (case u (p.base ++ "_" ++ p.quote) upper) = a ++ "_" ++ b :=
      Str.eq_of_splitOnce (c := '_') hcut
    have hupper := hu.upper.idem (case u (p.base ++ "_" ++ p.quote) upper)
    rw [hraw] at hupper
    have hparts := hu.upper_parts hupper
    have ha := stored_of_upper (hu.upper_parts hparts.1).1 (fun c hc => structural_spelled hu
      upper h.base h.quote (hlist ▸ List.mem_append_left _ hc))
    have hb := stored_of_upper hparts.2 (fun c hc => structural_spelled hu upper
      h.base h.quote (hlist ▸ List.mem_append_right _ (List.mem_cons_of_mem _ hc)))
    have hp : TradingPair.new u a b = p := Option.some_inj.mp hnew
    unfold TradingPair.new at hp
    rw [ha, hb] at hp
    rw [hraw, ← hp]
  · intro hback
    rw [hback, hsplit]
    exact congrArg some (TradingPair.new_of_ticker h.base h.quote)

theorem decode_encode_quoteFirst (hu : u.Lawful) {sep : Char} (h : (quoteFirst sep).Spells u p) :
    (quoteFirst sep).decode u ((quoteFirst sep).encode u p) = some p
      ↔ (quoteFirst sep).Keeps u p := by
  obtain ⟨hbase, hquote⟩ := h.free sep rfl
  have hraw : Str.toUppercase u (p.quote ++ sep.toString ++ p.base)
      = p.quote ++ Str.toUppercase u sep.toString ++ p.base := by
    rw [hu.upper_append, hu.upper_append, h.base.upper, h.quote.upper]
  show (Str.splitOnce sep (Str.toUppercase u (p.quote ++ sep.toString ++ p.base))).bind
      (fun e => some (TradingPair.new u e.2 e.1)) = some p
    ↔ Str.toUppercase u sep.toString = sep.toString
  rw [hraw]
  constructor
  · intro hsome
    obtain ⟨⟨a, b⟩, hcut, -⟩ := Option.bind_eq_some_iff.mp hsome
    have hmem : sep ∈ (Str.toUppercase u sep.toString).toList := by
      have hin : sep ∈ (p.quote ++ Str.toUppercase u sep.toString ++ p.base).toList := by
        rw [(Str.splitOnce_eq_some.mp hcut).1]
        exact List.mem_append_right _ List.mem_cons_self
      rw [String.toList_append, String.toList_append, List.mem_append, List.mem_append] at hin
      exact (hin.resolve_right hbase).resolve_left hquote
    -- a separator among what it becomes is what it becomes
    obtain ⟨l, r, hlr, -⟩ := List.eq_append_cons_of_mem hmem
    have hparts : Str.toUppercase u sep.toString
        = String.ofList l ++ sep.toString ++ String.ofList r := by
      rw [← String.toList_inj, hlr, Str.toList_joined, String.toList_ofList, String.toList_ofList]
    have hidem := hu.upper.idem sep.toString
    rw [hparts] at hidem
    exact (hu.upper_parts (hu.upper_parts hidem).1).2
  · intro hsep
    rw [hsep, Str.splitOnce_joined hquote]
    exact congrArg some (TradingPair.new_of_ticker h.base h.quote)

/-- **Which symbols read back.** A codec reads what it wrote for a pair as
that pair, if and only if the spelling keeps it. -/
theorem decode_encode_iff (hu : u.Lawful) (h : codec.Spells u p) :
    codec.decode u (codec.encode u p) = some p ↔ codec.Keeps u p := by
  cases codec with
  | concat upper => exact decode_encode_concat hu h
  | underscore upper => exact decode_encode_underscore hu h
  | quoteFirst sep => exact decode_encode_quoteFirst hu h
  | hyphen =>
    refine iff_of_true ?_ trivial
    have hcut := decode_separated (c := '-') hu h.base h.quote (h.base.not_mem rfl)
      (toUppercase_separator (by decide) (by decide))
    show (Str.splitOnce '-' (Str.toUppercase u (p.base ++ "-" ++ p.quote))).bind
      (fun e => some (TradingPair.new u e.1 e.2)) = some p
    rw [show "-" = '-'.toString from rfl, hcut]
    exact congrArg some (TradingPair.new_of_ticker h.base h.quote)
  | slash =>
    refine iff_of_true ?_ trivial
    have hcut := decode_separated (c := '/') hu h.base h.quote (h.base.not_mem rfl)
      (toUppercase_separator (by decide) (by decide))
    show (Str.splitOnce '/' (Str.toUppercase u (p.base ++ "/" ++ p.quote))).bind
      (fun e => some (TradingPair.new u e.1 e.2)) = some p
    rw [show "/" = '/'.toString from rfl, hcut]
    exact congrArg some (TradingPair.new_of_ticker h.base h.quote)
  | bareCoin q =>
    refine iff_of_true ?_ trivial
    obtain rfl := h.fixed q rfl
    show decodeBareCoin u p.quote p.base = some p
    have hnone : ¬ (p.base = "" ∨ Str.containsAny ['@', '/', '-', '_'] p.base = true) := by
      rintro (hempty | hany)
      · exact h.base.ne_empty hempty
      · obtain ⟨c, hc, hin⟩ := List.any_eq_true.mp hany
        have hst : ∀ c ∈ ['@', '/', '-', '_'], Str.isStructural c = true :=
          List.all_iff_forall_prop.mp (by decide)
        exact h.base.not_mem (hst c (List.contains_iff_mem.mp hin)) hc
    unfold decodeBareCoin
    rw [Str.trim_eq_self_iff.mpr h.base.tight, Str.splitOnce_of_not_mem (h.base.not_mem rfl)]
    dsimp only
    rw [h.base.upper, if_neg hnone, TradingPair.new_of_ticker h.base h.quote]

end RoundTrip

/-! ## Tickers of ASCII -/

section Ascii

variable {u : Unicode} {s : String}

/-- ASCII text in upper case comes back from lower case. -/
theorem upper_lower_of_ascii (hs : Str.isAscii s = true) (h : Str.toUppercase u s = s) :
    Str.toUppercase u (Str.toLowercase u s) = s := by
  have hlower : Str.toLowercase u s = String.ofList (s.toList.map Char.toLower) := if_pos hs
  have hupper : Str.toUppercase u s = String.ofList (s.toList.map Char.toUpper) := if_pos hs
  have hascii : Str.isAscii (String.ofList (s.toList.map Char.toLower)) = true := by
    unfold Str.isAscii
    rw [String.toList_ofList, List.all_map, List.all_eq_true]
    intro c hc
    have hbound := List.all_eq_true.mp hs c hc
    show decide (c.toLower.toNat < 128) = true
    rcases Unicode.toLower_eq_or_mem c with hsame | hletter
    · rw [hsame]
      exact hbound
    · revert hletter
      clear hbound hc
      revert c
      exact List.all_iff_forall_prop.mp (by decide)
  rw [hlower]
  refine (if_pos hascii).trans ?_
  rw [String.toList_ofList, List.map_map]
  have hchar : ∀ c : Char, c.toLower.toUpper = c.toUpper := by
    intro c
    rcases Unicode.toLower_eq_or_mem c with hsame | hletter
    · rw [hsame]
    · revert c
      exact List.all_iff_forall_prop.mp (by decide)
  rw [show Char.toUpper ∘ Char.toLower = Char.toUpper from funext hchar, ← hupper, h]

/-- Of an ASCII pair, a codec with a separator that has no upper case loses
nothing. -/
theorem keeps_of_ascii (hu : u.Lawful) {codec : SymbolCodec} {p : TradingPair}
    (h : codec.Spells u p) (hb : Str.isAscii p.base = true) (hq : Str.isAscii p.quote = true)
    (hsep : ∀ sep, codec = quoteFirst sep → Str.toUppercase u sep.toString = sep.toString)
    (hnot : (∃ upper, codec = concat upper) → ¬ p.Ambiguous) : codec.Keeps u p := by
  have happend : ∀ a b, Str.isAscii a = true → Str.isAscii b = true →
      Str.isAscii (a ++ b) = true := by
    intro a b ha hb
    unfold Str.isAscii
    rw [String.toList_append, List.all_append]
    exact Bool.and_eq_true_iff.mpr ⟨ha, hb⟩
  cases codec with
  | concat upper =>
    refine ⟨fun _ => upper_lower_of_ascii (happend _ _ hb hq) ?_, hnot ⟨_, rfl⟩⟩
    rw [hu.upper_append, h.base.upper, h.quote.upper]
  | underscore upper =>
    refine fun _ => upper_lower_of_ascii (happend _ _ (happend _ _ hb (by decide)) hq) ?_
    exact upper_spelled hu h.base h.quote
      (toUppercase_separator (c := '_') (by decide) (by decide))
  | quoteFirst sep => exact hsep sep rfl
  | hyphen => trivial
  | slash => trivial
  | bareCoin q => trivial

end Ascii

/-! ## A pair that is read as another -/

theorem ticker_btc : Ticker .ascii "BTC" :=
  ⟨by decide, by decide, List.all_iff_forall_prop.mp (by decide)⟩

theorem ticker_usdt : Ticker .ascii "USDT" :=
  ⟨by decide, by decide, List.all_iff_forall_prop.mp (by decide)⟩

theorem concat_spells_btcUsdt : (concat false).Spells .ascii ⟨"BTC", "USDT"⟩ where
  base := ticker_btc
  quote := ticker_usdt
  known _ := by decide
  fixed q h := by cases h
  free sep h := by cases h

/-- The usual pair, in lower case and without a separator. -/
theorem decode_encode_btcUsdt :
    (concat false).decode .ascii ((concat false).encode .ascii ⟨"BTC", "USDT"⟩)
      = some ⟨"BTC", "USDT"⟩ :=
  (decode_encode_iff Unicode.ascii_lawful concat_spells_btcUsdt).mpr
    (keeps_of_ascii Unicode.ascii_lawful concat_spells_btcUsdt (by decide) (by decide)
      (fun _ h => by cases h) (fun _ h => absurd h.1 (by decide)))

/-- **`BNB` in `USD` does not read back**: it is `BN` in `BUSD`. -/
theorem decode_encode_bnbUsd :
    (concat true).Spells .ascii ⟨"BNB", "USD"⟩ ∧
      (concat true).decode .ascii ((concat true).encode .ascii ⟨"BNB", "USD"⟩)
        ≠ some ⟨"BNB", "USD"⟩ := by
  refine ⟨?_, by decide⟩
  exact {
    base := ⟨by decide, by decide, List.all_iff_forall_prop.mp (by decide)⟩
    quote := ⟨by decide, by decide, List.all_iff_forall_prop.mp (by decide)⟩
    known := fun _ => by decide
    fixed := fun q h => by cases h
    free := fun sep h => by cases h }

end SymbolCodec
