import Aetelier.HashMap
import Aetelier.LineLog
import Aetelier.MarketTypes
import Aetelier.PrintedDecimals

/-!
# Trades with one identity and two contents

`dedup_by_identity` keeps the first trade of each exchange, pair and id. A
trade it drops is a conflict if it says something else than the copy that is
kept, which is judged by a fingerprint: a hash of the time, the side and the
texts of price and amount, one after the other.

Nothing stands between the two texts. A price of 1 and an amount of 23 have the
fingerprint of a price of 12 and an amount of 3, and a trade restated from one
to the other is dropped without a word. `dedup_right_iff` says that this is the
only way to miss a conflict, as far as the hash tells the contents of the list
apart.
-/

/-! ## Decimals without trailing zeros -/

namespace Decimal

/-- The loop of `normalize`. -/
def stripZeros (m : ℤ) : ℕ → Decimal
  | 0 => ⟨m, 0⟩
  | s + 1 => if m % 10 = 0 then stripZeros (m / 10) s else ⟨m, s + 1⟩

/-- `Decimal::normalize`: the same number without trailing zeros after the
point. -/
def normalize (d : Decimal) : Decimal := stripZeros d.mantissa d.scale

theorem value_stripZeros (m : ℤ) (s : ℕ) : (stripZeros m s).value = value ⟨m, s⟩ := by
  induction s generalizing m with
  | zero => rfl
  | succ s ih =>
    unfold stripZeros
    split
    · next hzero =>
      obtain ⟨k, rfl⟩ := Int.dvd_of_emod_eq_zero hzero
      rw [ih, Int.mul_ediv_cancel_left k (by decide), value_eq, value_eq]
      dsimp only
      rw [pow_succ', Int.cast_mul]
      exact (mul_div_mul_left (k : ℚ) (10 ^ s) (by decide)).symm
    · rfl

/-- There is a digit other than zero at the end, or no point. -/
theorem stripZeros_normal (m : ℤ) (s : ℕ) :
    (stripZeros m s).scale = 0 ∨ (stripZeros m s).mantissa % 10 ≠ 0 := by
  induction s generalizing m with
  | zero => exact Or.inl rfl
  | succ s ih =>
    unfold stripZeros
    split
    · exact ih _
    · next hne => exact Or.inr hne

/-- Equal numbers, in whole numbers. -/
theorem value_eq_value_iff {a b : Decimal} :
    a.value = b.value ↔ a.mantissa * 10 ^ b.scale = b.mantissa * 10 ^ a.scale := by
  have hten : (10 : ℚ) ≠ 0 := by decide
  rw [value_eq, value_eq, div_eq_div_iff (pow_ne_zero _ hten) (pow_ne_zero _ hten)]
  exact_mod_cast Iff.rfl

/-- Of two spellings of a number, one without trailing zeros is not the
longer. -/
theorem scale_le_of_normal {a b : Decimal} (hb : b.scale = 0 ∨ b.mantissa % 10 ≠ 0)
    (h : a.value = b.value) : b.scale ≤ a.scale := by
  by_contra hlt
  obtain ⟨k, hk⟩ := Nat.exists_eq_add_of_lt (not_le.mp hlt)
  have hmantissa : b.mantissa = a.mantissa * 10 ^ k * 10 := by
    have hcross := value_eq_value_iff.mp h
    have hpow : (10 : ℤ) ^ b.scale = 10 ^ k * 10 * 10 ^ a.scale := by
      rw [hk, show a.scale + k + 1 = k + 1 + a.scale by omega, pow_add, pow_succ]
    rw [hpow, ← mul_assoc, ← mul_assoc] at hcross
    exact (mul_right_cancel₀ (pow_ne_zero a.scale (by decide)) hcross).symm
  refine hb.elim (fun hzero => absurd hzero (by omega)) (fun hne => hne ?_)
  rw [hmantissa]
  exact Int.mul_emod_left _ _

/-- **One number has one text.** -/
theorem normalize_eq_of_value {a b : Decimal} (h : a.value = b.value) :
    a.normalize = b.normalize := by
  have hvalue : a.normalize.value = b.normalize.value := by
    unfold normalize
    rw [value_stripZeros, value_stripZeros]
    exact h
  have hscale : a.normalize.scale = b.normalize.scale :=
    (scale_le_of_normal (stripZeros_normal a.mantissa a.scale) hvalue.symm).antisymm
      (scale_le_of_normal (stripZeros_normal b.mantissa b.scale) hvalue)
  have hmantissa : a.normalize.mantissa = b.normalize.mantissa := by
    have hcross := value_eq_value_iff.mp hvalue
    rw [hscale] at hcross
    exact mul_right_cancel₀ (pow_ne_zero b.normalize.scale (by decide)) hcross
  show (⟨a.normalize.mantissa, a.normalize.scale⟩ : Decimal) = b.normalize
  rw [hmantissa, hscale]

end Decimal

/-! ## Fingerprints -/

/-- `to_le_bytes`: the lowest bytes of a number, lowest first. -/
def leBytes : ℕ → ℕ → List UInt8
  | 0, _ => []
  | k + 1, n => UInt8.ofNat n :: leBytes k (n / 256)

/-- FNV-1a. -/
def fnv1a (bytes : List UInt8) : UInt64 :=
  bytes.foldl (fun h b => (h ^^^ b.toUInt64) * 0x100000001b3) 0xcbf29ce484222325

/-- **What makes a trade itself.** -/
structure TradeIdentity where
  /-- Exchange name. -/
  exchange : String
  /-- Canonical pair. -/
  pair : TradingPair
  /-- The exchange's identifier. -/
  id : String
deriving DecidableEq

namespace Trade

/-- The identity of a trade. -/
def identity (t : Trade) : TradeIdentity := ⟨t.exchange, t.pair, t.id⟩

variable (x : Crates)

/-- The texts of price and amount, one after the other. -/
def quoteText (t : Trade) : String :=
  x.toString t.price.normalize ++ x.toString t.amount.normalize

/-- The bytes that `TradeFingerprint::of` eats. -/
def contentBytes (t : Trade) : List UInt8 :=
  leBytes 8 t.sourceTradeTsUs ++ (Str.asBytes t.side.asStr
    ++ (Str.asBytes (x.toString t.price.normalize)
      ++ Str.asBytes (x.toString t.amount.normalize)))

/-- `TradeFingerprint::of`. -/
def fingerprint (t : Trade) : UInt64 := fnv1a (t.contentBytes x)

/-- Two trades say the same. -/
def SameContent (s t : Trade) : Prop :=
  s.sourceTradeTsUs = t.sourceTradeTsUs ∧ s.side = t.side ∧
    s.price.value = t.price.value ∧ s.amount.value = t.amount.value

/-- **Two trades blur**: same time, same side, another price or amount, and
the same text for both together. -/
def Blurs (s t : Trade) : Prop :=
  s.sourceTradeTsUs = t.sourceTradeTsUs ∧ s.side = t.side ∧
    ¬ (s.price.value = t.price.value ∧ s.amount.value = t.amount.value) ∧
    s.quoteText x = t.quoteText x

instance (s t : Trade) : Decidable (SameContent s t) := inferInstanceAs (Decidable (_ ∧ _))

instance (s t : Trade) : Decidable (Blurs x s t) := inferInstanceAs (Decidable (_ ∧ _))

end Trade

section Content

variable {x : Crates} {s t : Trade}

theorem length_leBytes (k n : ℕ) : (leBytes k n).length = k := by
  induction k generalizing n with
  | zero => rfl
  | succ k ih => exact congrArg (· + 1) (ih _)

theorem leBytes_injective {k m n : ℕ} (hm : m < 256 ^ k) (hn : n < 256 ^ k)
    (h : leBytes k m = leBytes k n) : m = n := by
  induction k generalizing m n with
  | zero => omega
  | succ k ih =>
    obtain ⟨hhead, htail⟩ := List.cons.inj h
    rw [pow_succ] at hm hn
    have hdiv := ih (by omega) (by omega) htail
    have hmod : m % 256 = n % 256 := by
      have htoNat := congrArg UInt8.toNat hhead
      rwa [UInt8.toNat_ofNat', UInt8.toNat_ofNat'] at htoNat
    omega

/-- The side can be told from what follows the time. -/
theorem asBytes_side_append {a b : TradeSide} {l l' : List UInt8}
    (h : Str.asBytes a.asStr ++ l = Str.asBytes b.asStr ++ l') : a = b ∧ l = l' := by
  cases a <;> cases b
  · exact ⟨rfl, List.append_cancel_left h⟩
  · exact absurd (List.cons.inj h).1 (by decide)
  · exact absurd (List.cons.inj h).1 (by decide)
  · exact ⟨rfl, List.append_cancel_left h⟩

theorem contentBytes_eq (t : Trade) : t.contentBytes x
    = leBytes 8 t.sourceTradeTsUs ++ (Str.asBytes t.side.asStr ++ Str.asBytes (t.quoteText x)) := by
  unfold Trade.contentBytes Trade.quoteText
  rw [Str.asBytes_append]

/-- **What the bytes of a trade tell**: its time, its side, and its price and
amount as one text. -/
theorem contentBytes_eq_iff (hs : s.sourceTradeTsUs < 2 ^ 64) (ht : t.sourceTradeTsUs < 2 ^ 64) :
    s.contentBytes x = t.contentBytes x ↔ s.sourceTradeTsUs = t.sourceTradeTsUs ∧
      s.side = t.side ∧ s.quoteText x = t.quoteText x := by
  rw [contentBytes_eq, contentBytes_eq]
  constructor
  · intro h
    obtain ⟨hts, hrest⟩ := List.append_inj h (by rw [length_leBytes, length_leBytes])
    obtain ⟨hside, htext⟩ := asBytes_side_append hrest
    exact ⟨leBytes_injective hs ht hts, hside, Str.asBytes_injective htext⟩
  · rintro ⟨hts, hside, htext⟩
    rw [hts, hside, htext]

/-- What says the same has the same bytes. -/
theorem Trade.SameContent.contentBytes (h : Trade.SameContent s t) :
    s.contentBytes x = t.contentBytes x := by
  obtain ⟨hts, hside, hprice, hamount⟩ := h
  unfold Trade.contentBytes
  rw [hts, hside, Decimal.normalize_eq_of_value hprice, Decimal.normalize_eq_of_value hamount]

/-- Two contents with the same bytes differ exactly if they blur. -/
theorem not_sameContent_iff_blurs (hs : s.sourceTradeTsUs < 2 ^ 64)
    (ht : t.sourceTradeTsUs < 2 ^ 64) (h : s.contentBytes x = t.contentBytes x) :
    ¬ Trade.SameContent s t ↔ Trade.Blurs x s t := by
  obtain ⟨hts, hside, htext⟩ := (contentBytes_eq_iff hs ht).mp h
  unfold Trade.SameContent Trade.Blurs
  simp only [hts, hside, htext, true_and, and_true]

/-- Trades that blur have price texts of two lengths, wherever printing can be
read back. -/
theorem Trade.Blurs.length_ne (hx : x.PrintsBack) (h : Trade.Blurs x s t) :
    (x.toString s.price.normalize).toList.length
      ≠ (x.toString t.price.normalize).toList.length := by
  intro hlen
  obtain ⟨-, -, hne, htext⟩ := h
  have hvalue : ∀ a b : Decimal, x.toString a.normalize = x.toString b.normalize →
      a.value = b.value := by
    intro a b hab
    obtain ⟨d, hd, hda⟩ := hx a.normalize
    obtain ⟨d', hd', hdb⟩ := hx b.normalize
    rw [hab, hd'] at hd
    rw [← Decimal.value_stripZeros a.mantissa, ← Decimal.value_stripZeros b.mantissa]
    exact hda.symm.trans ((congrArg Decimal.value (Except.ok.inj hd)).symm.trans hdb)
  have hlists := congrArg String.toList htext
  unfold Trade.quoteText at hlists
  rw [String.toList_append, String.toList_append] at hlists
  obtain ⟨hprice, hamount⟩ := List.append_inj hlists hlen
  exact hne ⟨hvalue _ _ (String.toList_inj.mp hprice), hvalue _ _ (String.toList_inj.mp hamount)⟩

end Content

/-! ## One pass over a list -/

/-- `TradeDedupReport`. -/
structure TradeDedupReport where
  /-- Trades removed. -/
  removed : ℕ
  /-- Trades removed whose fingerprint is not that of the copy kept. -/
  conflicts : ℕ
deriving DecidableEq, Repr

/-- The state of `retain`: the identities seen, the trades kept, the
report. -/
structure DedupPass where
  /-- The fingerprint kept of each identity. -/
  seen : HashMap TradeIdentity UInt64
  /-- The trades kept. -/
  kept : List Trade
  /-- The report so far. -/
  report : TradeDedupReport

/-- One trade. -/
def dedupStep (x : Crates) (p : DedupPass) (t : Trade) : DedupPass :=
  match p.seen.get? t.identity with
  | some kept =>
    { p with
      report := ⟨p.report.removed + 1,
        if kept ≠ t.fingerprint x then p.report.conflicts + 1 else p.report.conflicts⟩ }
  | none => { p with seen := p.seen.insert t.identity (t.fingerprint x), kept := p.kept ++ [t] }

/-- `dedup_by_identity`: what is left of the list, and the report. -/
def dedupByIdentity (x : Crates) (hasher : RandomState TradeIdentity) (trades : List Trade) :
    List Trade × TradeDedupReport :=
  let p := trades.foldl (dedupStep x) ⟨.empty hasher, [], ⟨0, 0⟩⟩
  (p.kept, p.report)

/-! ## What a pass should do -/

/-- The first of some trades with an identity. -/
def copyOf (pre : List Trade) (t : Trade) : Option Trade :=
  pre.find? (fun s => decide (s.identity = t.identity))

/-- The trades of a list, after others, that are the first with their
identity. -/
def firstsAfter (pre : List Trade) : List Trade → List Trade
  | [] => []
  | t :: rest => (if (copyOf pre t).isNone then [t] else []) ++ firstsAfter (pre ++ [t]) rest

/-- The others, each behind the first trade with its identity. -/
def repeatsAfter (pre : List Trade) : List Trade → List (Trade × Trade)
  | [] => []
  | t :: rest =>
    ((copyOf pre t).map (fun s => (s, t))).toList ++ repeatsAfter (pre ++ [t]) rest

/-- **A right pass**: the first trade of each identity is kept, the others are
counted, and as conflicts those that do not say the same as the first. -/
structure DedupRight (trades : List Trade) (r : List Trade × TradeDedupReport) : Prop where
  kept : r.1 = firstsAfter [] trades
  removed : r.2.removed + r.1.length = trades.length
  conflicts : r.2.conflicts
    = ((repeatsAfter [] trades).filter (fun e => ¬ Trade.SameContent e.1 e.2)).length

section Pass

variable {x : Crates} {hasher : RandomState TradeIdentity} {pre trades : List Trade}

theorem copyOf_append (pre : List Trade) (s t : Trade) :
    copyOf (pre ++ [s]) t
      = (copyOf pre t).or (if s.identity = t.identity then some s else none) := by
  unfold copyOf
  rw [List.find?_append, List.find?_singleton]
  congr 1
  by_cases h : s.identity = t.identity <;> simp [h]

/-- Every trade is a first or a repeat. -/
theorem length_firstsAfter (pre trades : List Trade) :
    (repeatsAfter pre trades).length + (firstsAfter pre trades).length = trades.length := by
  induction trades generalizing pre with
  | nil => rfl
  | cons t rest ih =>
    unfold repeatsAfter firstsAfter
    rw [List.length_append, List.length_append, List.length_cons, ← ih (pre ++ [t])]
    cases copyOf pre t with
    | none =>
      show 0 + _ + (1 + _) = _
      omega
    | some s =>
      show 1 + _ + (0 + _) = _
      omega

/-- A repeat and the trade it is behind are in the list. -/
theorem mem_repeatsAfter {e : Trade × Trade} (he : e ∈ repeatsAfter pre trades) :
    e.1 ∈ pre ++ trades ∧ e.2 ∈ trades := by
  induction trades generalizing pre with
  | nil => exact nomatch he
  | cons t rest ih =>
    rcases List.mem_append.mp he with hhead | htail
    · obtain ⟨s, hs, rfl⟩ := Option.map_eq_some_iff.mp (Option.mem_toList.mp hhead)
      exact ⟨List.mem_append_left _ (List.mem_of_find?_eq_some hs), List.mem_cons_self⟩
    · obtain ⟨hfst, hsnd⟩ := ih htail
      rw [List.append_assoc, List.singleton_append] at hfst
      exact ⟨hfst, List.mem_cons_of_mem _ hsnd⟩

theorem copyOf_congr {s t : Trade} (h : s.identity = t.identity) : copyOf pre s = copyOf pre t := by
  unfold copyOf
  rw [h]

/-- What is seen after a trade, whether it was the first or not. -/
theorem seen_dedupStep {p : DedupPass}
    (hseen : ∀ t : Trade, p.seen.get? t.identity = (copyOf pre t).map (Trade.fingerprint x))
    (t t' : Trade) : (dedupStep x p t).seen.get? t'.identity
      = (copyOf (pre ++ [t]) t').map (Trade.fingerprint x) := by
  rw [copyOf_append]
  unfold dedupStep
  rw [hseen t]
  cases hcopy : copyOf pre t with
  | some s =>
    show p.seen.get? t'.identity = _
    rw [hseen t']
    by_cases hid : t.identity = t'.identity
    · rw [← copyOf_congr hid, hcopy]
      rfl
    · rw [if_neg hid, Option.or_none]
  | none =>
    show (p.seen.insert t.identity (t.fingerprint x)).get? t'.identity = _
    rw [HashMap.get?_insert, hseen t']
    by_cases hid : t.identity = t'.identity
    · rw [if_pos hid, if_pos hid.symm, ← copyOf_congr hid, hcopy]
      rfl
    · rw [if_neg hid, if_neg (Ne.symm hid), Option.or_none]

/-- **A pass goes by fingerprints**: it keeps the firsts and counts the
repeats, as conflicts those with another fingerprint than their first. -/
theorem foldl_dedupStep (pre trades : List Trade) {p : DedupPass}
    (hseen : ∀ t : Trade, p.seen.get? t.identity = (copyOf pre t).map (Trade.fingerprint x)) :
    (trades.foldl (dedupStep x) p).kept = p.kept ++ firstsAfter pre trades ∧
      (trades.foldl (dedupStep x) p).report.removed
        = p.report.removed + (repeatsAfter pre trades).length ∧
      (trades.foldl (dedupStep x) p).report.conflicts
        = p.report.conflicts + ((repeatsAfter pre trades).filter
            (fun e => e.1.fingerprint x ≠ e.2.fingerprint x)).length := by
  induction trades generalizing pre p with
  | nil => exact ⟨(List.append_nil _).symm, rfl, rfl⟩
  | cons t rest ih =>
    obtain ⟨hkept, hremoved, hconflicts⟩ := ih (pre ++ [t]) (seen_dedupStep hseen t)
    have hfirsts : firstsAfter pre (t :: rest)
        = (if (copyOf pre t).isNone then [t] else []) ++ firstsAfter (pre ++ [t]) rest := rfl
    have hrepeats : repeatsAfter pre (t :: rest)
        = ((copyOf pre t).map (fun s => (s, t))).toList ++ repeatsAfter (pre ++ [t]) rest := rfl
    rw [List.foldl_cons, hkept, hremoved, hconflicts, hfirsts, hrepeats, List.filter_append,
      List.length_append, List.length_append]
    unfold dedupStep
    rw [hseen t]
    cases copyOf pre t with
    | none => exact ⟨List.append_assoc .., congrArg _ (Nat.zero_add _).symm,
        congrArg _ (Nat.zero_add _).symm⟩
    | some s =>
      refine ⟨rfl, Nat.add_assoc .., ?_⟩
      show (if s.fingerprint x ≠ t.fingerprint x then _ else _) + _
        = _ + (([(s, t)].filter _).length + _)
      by_cases hsame : s.fingerprint x = t.fingerprint x
      · simp [hsame]
      · simp [hsame]
        omega

/-- Two tests of which one implies the other count the same exactly if they
agree. -/
theorem length_filter_eq_iff {α : Type} {P Q : α → Bool} {l : List α}
    (h : ∀ a ∈ l, P a = true → Q a = true) :
    (l.filter P).length = (l.filter Q).length ↔ ∀ a ∈ l, Q a = true → P a = true := by
  have hsub : (l.filter P).Sublist (l.filter Q) := by
    have hand : l.filter P = (l.filter Q).filter P := by
      rw [List.filter_filter]
      refine List.filter_congr (fun a ha => ?_)
      cases hP : P a with
      | false => rfl
      | true => exact (h a ha hP).symm
    rw [hand]
    exact List.filter_sublist
  rw [hsub.length_eq]
  constructor
  · intro heq a ha hQ
    have hmem : a ∈ l.filter P := heq ▸ List.mem_filter.mpr ⟨ha, hQ⟩
    exact (List.mem_filter.mp hmem).2
  · intro hall
    exact List.filter_congr (fun a ha => Bool.eq_iff_iff.mpr ⟨h a ha, hall a ha⟩)

/-- **When dedup does what it should**: exactly if no trade that is dropped
blurs with the copy that is kept. -/
theorem dedup_right_iff (x : Crates) (hasher : RandomState TradeIdentity) (trades : List Trade)
    (hts : ∀ t ∈ trades, t.sourceTradeTsUs < 2 ^ 64)
    (hfnv : ∀ s ∈ trades, ∀ t ∈ trades, s.fingerprint x = t.fingerprint x →
      s.contentBytes x = t.contentBytes x) :
    DedupRight trades (dedupByIdentity x hasher trades)
      ↔ ∀ e ∈ repeatsAfter [] trades, ¬ Trade.Blurs x e.1 e.2 := by
  obtain ⟨hkept, hremoved, hconflicts⟩ :=
    foldl_dedupStep (x := x) [] trades (p := ⟨.empty hasher, [], ⟨0, 0⟩⟩) (fun _ => rfl)
  rw [List.nil_append] at hkept
  rw [Nat.zero_add] at hremoved hconflicts
  -- a pass keeps the firsts and counts the repeats; only the conflicts are in question
  have hright : DedupRight trades (dedupByIdentity x hasher trades) ↔
      ((repeatsAfter [] trades).filter (fun e => e.1.fingerprint x ≠ e.2.fingerprint x)).length
        = ((repeatsAfter [] trades).filter (fun e => ¬ Trade.SameContent e.1 e.2)).length := by
    refine ⟨fun h => hconflicts.symm.trans h.conflicts, fun h => ⟨hkept, ?_, hconflicts.trans h⟩⟩
    show (trades.foldl (dedupStep x) _).report.removed + (trades.foldl (dedupStep x) _).kept.length
      = _
    rw [hremoved, hkept, length_firstsAfter]
  rw [hright, length_filter_eq_iff]
  · refine forall_congr' (fun e => imp_congr_right (fun he => ?_))
    obtain ⟨hfst, hsnd⟩ := mem_repeatsAfter he
    rw [decide_eq_true_iff, decide_eq_true_iff]
    constructor
    · intro h hblurs
      have hbytes := (contentBytes_eq_iff (hts _ hfst) (hts _ hsnd)).mpr
        ⟨hblurs.1, hblurs.2.1, hblurs.2.2.2⟩
      exact h ((not_sameContent_iff_blurs (hts _ hfst) (hts _ hsnd) hbytes).mpr hblurs)
        (congrArg fnv1a hbytes)
    · intro hblurs hdiffer heq
      have hbytes := hfnv _ hfst _ hsnd heq
      exact hblurs ((not_sameContent_iff_blurs (hts _ hfst) (hts _ hsnd) hbytes).mp hdiffer)
  · intro e he h
    rw [decide_eq_true_iff] at h ⊢
    exact fun hsame => h (congrArg fnv1a hsame.contentBytes)

end Pass

/-! ## A restatement that goes unnoticed -/

/-- A fill at a price, of an amount. -/
def fill (price amount : Decimal) : Trade where
  sourceTradeTsUs := 1700000000000000
  pair := ⟨"BTC", "USD"⟩
  side := .buy
  amount := amount
  price := price
  exchange := "kraken"
  id := "a"

/-- A fill of 23 at 1, restated as one of 3 at 12. -/
def restated : List Trade := [fill ⟨1, 0⟩ ⟨23, 0⟩, fill ⟨12, 0⟩ ⟨3, 0⟩]

/-- A fill of 1 at 100, restated as one of 2. -/
def resized : List Trade := [fill ⟨1000, 1⟩ ⟨1, 0⟩, fill ⟨100, 0⟩ ⟨2, 0⟩]

/-- Another amount is a conflict. -/
theorem dedup_right_resized :
    (dedupByIdentity .signed .table resized).2 = ⟨1, 1⟩ ∧
      DedupRight resized (dedupByIdentity .signed .table resized) :=
  ⟨by decide, (dedup_right_iff .signed .table resized (by decide)
    (by decide)).mpr (by decide)⟩

/-- **A restatement that moves a digit from the amount to the price is no
conflict.** -/
theorem not_dedup_right_restated :
    ¬ ∀ (x : Crates) (hasher : RandomState TradeIdentity) (trades : List Trade),
      (∀ t ∈ trades, t.sourceTradeTsUs < 2 ^ 64) →
      (∀ s ∈ trades, ∀ t ∈ trades, s.fingerprint x = t.fingerprint x →
        s.contentBytes x = t.contentBytes x) →
      DedupRight trades (dedupByIdentity x hasher trades) := by
  intro h
  have hright := h .signed .table restated (by decide) (by decide)
  have hreport : (dedupByIdentity .signed .table restated).2.conflicts = 0 := by decide
  have hspec : ((repeatsAfter [] restated).filter
      (fun e => ¬ Trade.SameContent e.1 e.2)).length = 1 := by decide
  exact absurd (hreport.symm.trans (hright.conflicts.trans hspec)) (by decide)
