import Aetelier.KrakenWindow
import Aetelier.Trace

/-!
# Pruning to a depth

A book with a depth is cut to its best levels after every update, and what is
cut is forgotten. A level below the cut may come back – when enough levels
above it are deleted – and then the pruned book has a hole where the whole
book has a level: nothing tells it of the level again.

Two books are fed with the same updates here, one with a depth and one
without. As long as no delta brings a level back that it does not name itself,
the pruned book is the top of the whole one; and where a delta does, it is not
(`OrderbookDelta.pruned_iff`). Prices and sizes are compared as numbers: the
two books may spell a price differently, since a price that was cut and comes
again is spelled as it comes.
-/

namespace OrderbookDelta

/-! ## Ladders -/

/-- Levels as the numbers they denote. -/
def quotes (levels : List (Decimal × Decimal)) : List (ℚ × ℚ) :=
  levels.map (fun e => (e.1.value, e.2.value))

/-- A side, best level first. -/
def ladder (side : OrderSide) (m : PriceMap Decimal) : List (ℚ × ℚ) :=
  match side with
  | .bids => quotes m.entries.reverse
  | .asks => quotes m.entries

/-- The place of a quote on its side: the lower the better. -/
def place (side : OrderSide) (e : ℚ × ℚ) : ℚ :=
  match side with
  | .bids => -e.1
  | .asks => e.1

section Ladder

variable {side : OrderSide} {n : ℕ} {m : PriceMap Decimal}

theorem ladder_sorted (side : OrderSide) (m : PriceMap Decimal) :
    (ladder side m).Pairwise (fun a b => place side a < place side b) := by
  cases side with
  | bids =>
    refine List.pairwise_map.mpr (List.pairwise_reverse.mpr (m.sorted.imp ?_))
    exact fun h => neg_lt_neg h
  | asks => exact List.pairwise_map.mpr m.sorted

theorem mem_ladder {e : ℚ × ℚ} : e ∈ ladder side m ↔ sizeAt m e.1 = some e.2 := by
  have hquotes : ∀ levels, e ∈ quotes levels ↔ ∃ l ∈ levels, l.1.value = e.1 ∧ l.2.value = e.2 := by
    intro levels
    rw [quotes, List.mem_map]
    simp only [Prod.ext_iff]
  rw [sizeAt_eq_some_iff]
  cases side with
  | bids =>
    refine (hquotes _).trans ?_
    simp only [List.mem_reverse]
  | asks => exact hquotes _

/-- **The window of a side is the top of its ladder.** -/
theorem ladder_windowOf : ladder side (windowOf side n m) = (ladder side m).take n := by
  cases side with
  | bids =>
    show quotes (m.keepLast n).entries.reverse = (quotes m.entries.reverse).take n
    rw [OrdMap.entries_keepLast, List.reverse_reverse]
    exact List.map_take
  | asks => exact List.map_take

end Ladder

/-! ## A delta of two sides -/

section Sides

variable {x : Crates} {levels : List (String × String)} {q : ℚ}

/-- A delta leaves the prices it does not mention. -/
theorem sizeAt_applySide_of_not_mentions (h : ¬ Mentions x levels q) (m : PriceMap Decimal) :
    sizeAt (applySide x m levels).1 q = sizeAt m q := by
  induction levels generalizing m with
  | nil => rfl
  | cons l levels ih =>
    unfold applySide
    split
    · rfl
    · next p s hl =>
      rw [mentions_cons hl, not_or] at h
      dsimp only
      rw [ih h.2, sizeAt_applyLevel, if_neg (Ne.symm h.1)]

/-- What it leaves at a price it mentions does not depend on the side. -/
theorem sizeAt_applySide_of_mentions (hread : ∀ l ∈ levels, ∃ e, parseLevel x l = .ok e)
    (h : Mentions x levels q) (m m' : PriceMap Decimal) :
    sizeAt (applySide x m levels).1 q = sizeAt (applySide x m' levels).1 q := by
  induction levels generalizing m m' with
  | nil =>
    obtain ⟨l, hl, -⟩ := h
    cases hl
  | cons l levels ih =>
    obtain ⟨⟨⟨p, s⟩, hl⟩, hrest⟩ := List.forall_mem_cons.mp hread
    have hstep : ∀ k, (applySide x k (l :: levels)).1
        = (applySide x (applyLevel k p s).1 levels).1 := by
      intro k
      rw [applySide, hl]
    rw [hstep, hstep]
    by_cases hm : Mentions x levels q
    · exact ih hrest hm _ _
    · -- the last word on the price is this entry's
      obtain rfl | hm' := (mentions_cons hl q).mp h
      · rw [sizeAt_applySide_of_not_mentions hm, sizeAt_applySide_of_not_mentions hm,
          sizeAt_applyLevel, sizeAt_applyLevel, if_pos rfl, if_pos rfl]
      · exact absurd hm' hm

theorem fillSide_ok_iff {m : PriceMap Decimal} :
    (∃ n, (fillSide x m levels).2 = .ok n) ↔ ∀ l ∈ levels, ∃ e, parseLevel x l = .ok e := by
  induction levels generalizing m with
  | nil => exact iff_of_true ⟨_, rfl⟩ (fun l hl => absurd hl List.not_mem_nil)
  | cons l levels ih =>
    rw [List.forall_mem_cons]
    cases hl : parseLevel x l with
    | error e =>
      refine iff_of_false ?_ ?_
      · rintro ⟨n, hn⟩
        rw [fillSide, hl] at hn
        cases hn
      · rintro ⟨⟨_, h⟩, -⟩
        cases h
    | ok e =>
      by_cases hpos : 0 < e.2.value
      · have hstep : (fillSide x m (l :: levels)).2
            = (fillSide x (m.insert e.1 e.2) levels).2.map (· + 1) := by
          rw [fillSide, hl]
          dsimp only
          rw [if_pos hpos]
        rw [hstep, ← ih (m := m.insert e.1 e.2)]
        cases (fillSide x (m.insert e.1 e.2) levels).2 with
        | error e' =>
          refine iff_of_false ?_ ?_
          · rintro ⟨_, h⟩
            cases h
          · rintro ⟨_, _, h⟩
            cases h
        | ok n => exact iff_of_true ⟨_, rfl⟩ ⟨⟨_, rfl⟩, _, rfl⟩
      · have hstep : (fillSide x m (l :: levels)).2 = (fillSide x m levels).2 := by
          rw [fillSide, hl]
          dsimp only
          rw [if_neg hpos]
        rw [hstep, ih]
        exact iff_and_self.mpr (fun _ => ⟨_, rfl⟩)

theorem applySide_ok_iff {m : PriceMap Decimal} :
    (∃ c, (applySide x m levels).2 = .ok c) ↔ ∀ l ∈ levels, ∃ e, parseLevel x l = .ok e := by
  induction levels generalizing m with
  | nil => exact iff_of_true ⟨_, rfl⟩ (fun l hl => absurd hl List.not_mem_nil)
  | cons l levels ih =>
    rw [List.forall_mem_cons]
    cases hl : parseLevel x l with
    | error e =>
      refine iff_of_false ?_ ?_
      · rintro ⟨c, hc⟩
        rw [applySide, hl] at hc
        cases hc
      · rintro ⟨⟨_, h⟩, -⟩
        cases h
    | ok e =>
      have hstep : (applySide x m (l :: levels)).2
          = (applySide x (applyLevel m e.1 e.2).1 levels).2.map
              (·.add (applyLevel m e.1 e.2).2.1 (applyLevel m e.1 e.2).2.2) := by
        rw [applySide, hl]
      rw [hstep, ← ih (m := (applyLevel m e.1 e.2).1)]
      cases (applySide x (applyLevel m e.1 e.2).1 levels).2 with
      | error e' =>
        refine iff_of_false ?_ ?_
        · rintro ⟨_, h⟩
          cases h
        · rintro ⟨_, _, h⟩
          cases h
      | ok c => exact iff_of_true ⟨_, rfl⟩ ⟨⟨_, rfl⟩, _, rfl⟩

instance decidableMentions (x : Crates) (levels : List (String × String)) (q : ℚ) :
    Decidable (Mentions x levels q) :=
  decidable_of_iff (levels.any (fun l => (parseLevel x l).toOption.any (·.1.value = q)) = true) (by
    rw [List.any_eq_true]
    refine exists_congr (fun l => and_congr_right (fun _ => ?_))
    cases parseLevel x l with
    | error e => exact iff_of_false Bool.false_ne_true (fun ⟨_, _, h, _⟩ => by cases h)
    | ok e =>
      refine decide_eq_true_iff.trans ⟨fun h => ⟨e.1, e.2, rfl, h⟩, ?_⟩
      rintro ⟨p, s, he, rfl⟩
      cases he
      rfl)

variable (x levels)

/-- **A level comes back**: it is not among the best before a delta, the delta
does not mention it, and it is among the best afterwards. -/
def ComesBack (side : OrderSide) (n : ℕ) (before after : PriceMap Decimal) : Prop :=
  ∃ e ∈ (ladder side before).drop n, ¬ Mentions x levels e.1 ∧ e ∈ (ladder side after).take n

instance decidableComesBack (side : OrderSide) (n : ℕ) (before after : PriceMap Decimal) :
    Decidable (ComesBack x levels side n before after) :=
  inferInstanceAs (Decidable (∃ e ∈ _, _))

variable {x levels}

/-- **One delta of a pruned side**: it stays the top of the whole one if and
only if no level comes back. -/
theorem ladder_pruned_iff {side : OrderSide} {n : ℕ} {pruned whole : PriceMap Decimal}
    (hread : ∀ l ∈ levels, ∃ e, parseLevel x l = .ok e)
    (htop : ladder side pruned = (ladder side whole).take n) :
    ladder side (windowOf side n (applySide x pruned levels).1)
        = (ladder side (applySide x whole levels).1).take n
      ↔ ¬ ComesBack x levels side n whole (applySide x whole levels).1 := by
  have hsub : ∀ e ∈ ladder side pruned, e ∈ ladder side whole := by
    intro e he
    rw [htop] at he
    exact List.mem_of_mem_take he
  have hdisjoint : ∀ e ∈ (ladder side whole).drop n, e ∉ ladder side pruned := by
    intro e hdrop htake
    rw [htop] at htake
    have hsorted := ladder_sorted side whole
    rw [← List.take_append_drop n (ladder side whole)] at hsorted
    exact lt_irrefl _ ((List.pairwise_append.mp hsorted).2.2 e htake e hdrop)
  rw [ladder_windowOf]
  constructor
  · rintro heq ⟨e, hcut, hsilent, hback⟩
    rw [← heq] at hback
    have hat := mem_ladder.mp (List.mem_of_mem_take hback)
    rw [sizeAt_applySide_of_not_mentions hsilent] at hat
    exact hdisjoint e hcut (mem_ladder.mpr hat)
  · intro hnone
    refine OrdMap.take_eq_of_sorted (ladder_sorted _ _) (ladder_sorted _ _) (fun e he => ?_)
      (fun e he => ?_)
    · -- the pruned side has no level the whole one has not
      refine ⟨e, mem_ladder.mpr ?_, rfl⟩
      have hat := mem_ladder.mp he
      by_cases hm : Mentions x levels e.1
      · rw [sizeAt_applySide_of_mentions hread hm whole pruned, hat]
      · rw [sizeAt_applySide_of_not_mentions hm] at hat ⊢
        exact mem_ladder.mp (hsub e (mem_ladder.mpr hat))
    · have hat := mem_ladder.mp (List.mem_of_mem_take he)
      refine mem_ladder.mpr ?_
      by_cases hm : Mentions x levels e.1
      · rw [sizeAt_applySide_of_mentions hread hm pruned whole, hat]
      · rw [sizeAt_applySide_of_not_mentions hm] at hat ⊢
        have hwhole : e ∈ ladder side whole := mem_ladder.mpr hat
        rw [← List.take_append_drop n (ladder side whole), ← htop, List.mem_append] at hwhole
        rcases hwhole with hkept | hcut
        · exact mem_ladder.mp hkept
        · exact absurd ⟨e, hcut, hm, he⟩ hnone

end Sides

/-! ## An update of two books -/

/-- A side cut to a depth, if there is one. -/
def cut (depth : Option ℕ) (side : OrderSide) (m : PriceMap Decimal) : PriceMap Decimal :=
  match depth with
  | none => m
  | some n => windowOf side n m

/-- A side as the entries of an update leave it, before the cut. -/
def sideAfter (x : Crates) (d : NormalizedDelta) (levels : List (String × String))
    (m : PriceMap Decimal) : PriceMap Decimal :=
  if d.isSnapshot then (fillSide x OrdMap.empty levels).1 else (applySide x m levels).1

section Process

variable {x : Crates} {u : Unicode} {ob : OrderbookDelta} {d : NormalizedDelta}

theorem pruneToDepth_eq (ob : OrderbookDelta) :
    ob.pruneToDepth = { ob with
      bids := cut ob.maxDepth .bids ob.bids
      asks := cut ob.maxDepth .asks ob.asks } := by
  unfold pruneToDepth
  cases h : ob.maxDepth with
  | none =>
    obtain ⟨bids, asks, id, seq, pair, initialized, count, depth⟩ := ob
    cases h
    rfl
  | some n => rfl

/-- **What makes an update acceptable**: its symbol, its entries, and a book
that a snapshot has initialized. The levels of the book have no part in it. -/
structure Acceptable (x : Crates) (u : Unicode) (ob : OrderbookDelta) (d : NormalizedDelta) :
    Prop where
  symbol : ob.acceptsSymbol u d.symbol = true
  seeded : d.isSnapshot = false → ob.initialized = true
  bids : ∀ l ∈ d.bids, ∃ e, parseLevel x l = .ok e
  asks : ∀ l ∈ d.asks, ∃ e, parseLevel x l = .ok e

theorem acceptable_of_ok {r : OrderbookUpdate} (h : (ob.process x u d).2 = .ok r) :
    Acceptable x u ob d := by
  unfold process at h
  split at h
  · cases h
  · next hsym =>
    have hsym' : ob.acceptsSymbol u d.symbol = true := Bool.not_eq_false _ ▸ hsym
    split at h
    · next hsnap =>
      unfold applySnapshot at h
      dsimp only at h
      split at h
      · cases h
      · next n hn =>
        split at h
        · cases h
        · next m hm =>
          exact ⟨hsym', fun hd => absurd hsnap (hd ▸ Bool.noConfusion),
            fillSide_ok_iff.mp ⟨n, hn⟩, fillSide_ok_iff.mp ⟨m, hm⟩⟩
    · unfold applyDelta at h
      split at h
      · cases h
      · next hinit =>
        dsimp only at h
        split at h
        · cases h
        · next c hc =>
          split at h
          · cases h
          · next c' hc' =>
            exact ⟨hsym', fun _ => Bool.not_eq_false _ ▸ hinit, applySide_ok_iff.mp ⟨c, hc⟩,
              applySide_ok_iff.mp ⟨c', hc'⟩⟩

/-- **An acceptable update**: each side takes its entries and is cut. -/
theorem process_of_acceptable (h : Acceptable x u ob d) :
    (∃ r, (ob.process x u d).2 = .ok r) ∧ (ob.process x u d).1.initialized = true ∧
      (ob.process x u d).1.bids = cut ob.maxDepth .bids (sideAfter x d d.bids ob.bids) ∧
      (ob.process x u d).1.asks = cut ob.maxDepth .asks (sideAfter x d d.asks ob.asks) := by
  unfold process sideAfter
  rw [if_neg (by rw [h.symbol]; exact Bool.noConfusion)]
  by_cases hsnap : d.isSnapshot = true
  · obtain ⟨n, hn⟩ := fillSide_ok_iff (m := OrdMap.empty) |>.mpr h.bids
    obtain ⟨m, hm⟩ := fillSide_ok_iff (m := OrdMap.empty) |>.mpr h.asks
    rw [if_pos hsnap, if_pos hsnap, if_pos hsnap]
    unfold applySnapshot
    simp only [hn, hm]
    rw [pruneToDepth_eq]
    exact ⟨⟨_, rfl⟩, rfl, rfl, rfl⟩
  · obtain ⟨c, hc⟩ := applySide_ok_iff (m := ob.bids) |>.mpr h.bids
    obtain ⟨c', hc'⟩ := applySide_ok_iff (m := ob.asks) |>.mpr h.asks
    have hinit := h.seeded (Bool.not_eq_true _ ▸ hsnap)
    rw [if_neg hsnap, if_neg hsnap, if_neg hsnap]
    unfold applyDelta
    rw [if_neg (by rw [hinit]; exact Bool.noConfusion)]
    simp only [hc, hc']
    rw [pruneToDepth_eq]
    exact ⟨⟨_, rfl⟩, hinit, rfl, rfl⟩

end Process

/-! ## Two books fed with the same updates -/

/-- A book fed with updates. -/
def feed (x : Crates) (u : Unicode) : Machine OrderbookDelta NormalizedDelta Unit where
  step ob d := ((ob.process x u d).1, [])

/-- An update a book accepts. -/
def Accepts (x : Crates) (u : Unicode) (ob : OrderbookDelta) (d : NormalizedDelta) : Prop :=
  ∃ r, (ob.process x u d).2 = .ok r

instance decidableAccepts (x : Crates) (u : Unicode) (ob : OrderbookDelta) (d : NormalizedDelta) :
    Decidable (Accepts x u ob d) :=
  match h : (ob.process x u d).2 with
  | .ok r => isTrue ⟨r, h⟩
  | .error _ => isFalse (fun ⟨_, hr⟩ => by cases h.symm.trans hr)

/-- **The top of a book**: each side has the best `n` levels of the other
book's, and no others. -/
def TopOf (n : ℕ) (ob whole : OrderbookDelta) : Prop :=
  ladder .bids ob.bids = quotes (whole.topBids n) ∧
    ladder .asks ob.asks = quotes (whole.topAsks n)

instance decidableTopOf (n : ℕ) (ob whole : OrderbookDelta) : Decidable (TopOf n ob whole) :=
  inferInstanceAs (Decidable (_ ∧ _))

/-- A delta brings back a level that is not among the best `n` of the book and
that it does not mention. -/
def BringsBack (x : Crates) (n : ℕ) (whole : OrderbookDelta) (d : NormalizedDelta) : Prop :=
  d.isSnapshot = false ∧
    (ComesBack x d.bids .bids n whole.bids (applySide x whole.bids d.bids).1 ∨
      ComesBack x d.asks .asks n whole.asks (applySide x whole.asks d.asks).1)

instance decidableBringsBack (x : Crates) (n : ℕ) (whole : OrderbookDelta)
    (d : NormalizedDelta) : Decidable (BringsBack x n whole d) :=
  inferInstanceAs (Decidable (_ ∧ _))

section Feed

variable {x : Crates} {u : Unicode} {n : ℕ} {pruned whole : OrderbookDelta} {d : NormalizedDelta}

theorem topOf_iff : TopOf n pruned whole ↔
    ladder .bids pruned.bids = (ladder .bids whole.bids).take n ∧
      ladder .asks pruned.asks = (ladder .asks whole.asks).take n := by
  unfold TopOf topBids topAsks ladder quotes
  simp only [List.map_take]

/-- **A pruned book and a whole one of the same pair.** -/
structure Twins (n : ℕ) (pruned whole : OrderbookDelta) : Prop where
  depth : pruned.maxDepth = some n
  noDepth : whole.maxDepth = none
  pair : pruned.pair = whole.pair
  initialized : pruned.initialized = whole.initialized

theorem Twins.acceptable (h : Twins n pruned whole) (ha : Acceptable x u whole d) :
    Acceptable x u pruned d := by
  refine ⟨?_, fun hd => h.initialized.trans (ha.seeded hd), ha.bids, ha.asks⟩
  rw [← ha.symbol]
  unfold acceptsSymbol
  rw [h.pair]

theorem Twins.process (h : Twins n pruned whole) (ha : Acceptable x u whole d) :
    Twins n (pruned.process x u d).1 (whole.process x u d).1 where
  depth := (process_maxDepth pruned d).trans h.depth
  noDepth := (process_maxDepth whole d).trans h.noDepth
  pair := (process_pair pruned d).trans (h.pair.trans (process_pair whole d).symm)
  initialized := by
    rw [(process_of_acceptable (h.acceptable ha)).2.1, (process_of_acceptable ha).2.1]

/-- **One update of the two books.** -/
theorem Twins.topOf_process_iff (h : Twins n pruned whole) (ha : Acceptable x u whole d)
    (htop : TopOf n pruned whole) :
    TopOf n (pruned.process x u d).1 (whole.process x u d).1 ↔ ¬ BringsBack x n whole d := by
  obtain ⟨hb, hs⟩ := topOf_iff.mp htop
  obtain ⟨-, -, hpb, hps⟩ := process_of_acceptable (h.acceptable ha)
  obtain ⟨-, -, hwb, hws⟩ := process_of_acceptable ha
  rw [topOf_iff, hpb, hps, hwb, hws, h.depth, h.noDepth]
  unfold BringsBack sideAfter cut
  dsimp only
  by_cases hsnap : d.isSnapshot = true
  · -- a snapshot fills both books alike
    rw [if_pos hsnap, if_pos hsnap, if_pos hsnap, if_pos hsnap, hsnap]
    exact iff_of_true ⟨ladder_windowOf, ladder_windowOf⟩ (fun hd => Bool.noConfusion hd.1)
  · have hdelta : d.isSnapshot = false := Bool.eq_false_iff.mpr hsnap
    rw [if_neg hsnap, if_neg hsnap, if_neg hsnap, if_neg hsnap, ladder_pruned_iff ha.bids hb,
      ladder_pruned_iff ha.asks hs, ← not_or]
    exact not_congr ⟨fun h => ⟨hdelta, h⟩, fun h => h.2⟩

/-- **Pruning keeps the top of the book exactly as long as nothing comes
back.** Whatever is fed to a book with a depth and accepted, after every
update the book has the best levels of the book without one – if and only if
no delta brings back a level that had been cut. -/
theorem pruned_iff (n : ℕ) (pair : TradingPair) (ds : List NormalizedDelta)
    (hok : (feed x u).Meets (Accepts x u) (new pair) ds) :
    (∀ pre, pre <+: ds →
        TopOf n ((feed x u).run ((new pair).withMaxDepth (some n)) pre).1
          ((feed x u).run (new pair) pre).1)
      ↔ (feed x u).Meets (fun whole d => ¬ BringsBack x n whole d) (new pair) ds := by
  -- both books in one state
  let both : Machine (OrderbookDelta × OrderbookDelta) NormalizedDelta Unit :=
    ⟨fun s d => (((s.1.process x u d).1, (s.2.process x u d).1), [])⟩
  have hfst : ∀ s d, (both.step s d).1.1 = ((feed x u).step s.1 d).1 := fun _ _ => rfl
  have hsnd : ∀ s d, (both.step s d).1.2 = ((feed x u).step s.2 d).1 := fun _ _ => rfl
  have hadmitted := (Machine.meets_map (f := Prod.snd) (P := Accepts x u) hsnd
    ((new pair).withMaxDepth (some n), new pair) ds).mpr hok
  have hrule := both.forall_prefix_iff_meets_of_admitted
    (I := fun s => Twins n s.1 s.2) (S := fun s => TopOf n s.1 s.2)
    (A := fun s d => Accepts x u s.2 d) (P := fun s d => ¬ BringsBack x n s.2 d)
    (fun s d hI ⟨_, hr⟩ => hI.process (acceptable_of_ok hr))
    (fun s d hI ⟨_, hr⟩ => hI.topOf_process_iff (acceptable_of_ok hr))
    (s := ((new pair).withMaxDepth (some n), new pair)) ⟨rfl, rfl, rfl, rfl⟩
    (topOf_iff.mpr ⟨List.take_nil.symm, List.take_nil.symm⟩) hadmitted
  rw [Machine.meets_map (f := Prod.snd) (P := fun whole d => ¬ BringsBack x n whole d) hsnd]
    at hrule
  rw [← hrule]
  refine forall_congr' (fun pre => forall_congr' (fun _ => ?_))
  rw [Machine.run_map (f := Prod.fst) hfst, Machine.run_map (f := Prod.snd) hsnd]

end Feed

/-! ## A level that is pulled in -/

/-- Two bids and an ask. -/
def twoBids : NormalizedDelta where
  symbol := "BTC/USDT"
  bids := [("10", "1"), ("9", "2")]
  asks := [("11", "1")]
  updateId := 1
  sequence := 1
  isSnapshot := true

/-- The best bid is gone. -/
def bestGone : NormalizedDelta where
  symbol := "BTC/USDT"
  bids := [("10", "0")]
  asks := []
  updateId := 2
  sequence := 2
  isSnapshot := false

/-- The best bid is gone, and the venue says so of the next. -/
def bestReplaced : NormalizedDelta := { bestGone with bids := [("10", "0"), ("9", "2")] }

/-- **A level that was cut is among the best again**, and the pruned book does
not have it. -/
theorem not_topOf_bestGone :
    (feed .plain ⟨id, id⟩).Meets (Accepts .plain ⟨id, id⟩)
        ((new ⟨"BTC", "USDT"⟩).withMaxDepth (some 1)) [twoBids, bestGone] ∧
      (feed .plain ⟨id, id⟩).Meets (Accepts .plain ⟨id, id⟩) (new ⟨"BTC", "USDT"⟩)
        [twoBids, bestGone] ∧
      ¬ TopOf 1
        ((feed .plain ⟨id, id⟩).run ((new ⟨"BTC", "USDT"⟩).withMaxDepth (some 1))
          [twoBids, bestGone]).1
        ((feed .plain ⟨id, id⟩).run (new ⟨"BTC", "USDT"⟩) [twoBids, bestGone]).1 := by
  exact ⟨by decide, by decide, by decide⟩

/-- A delta that names the level it pulls in keeps the top. -/
theorem topOf_bestReplaced :
    ((feed .plain ⟨id, id⟩).run (new ⟨"BTC", "USDT"⟩) [twoBids, bestReplaced]).1.bids.len = 1 ∧
      ∀ pre, pre <+: [twoBids, bestReplaced] →
        TopOf 1 ((feed .plain ⟨id, id⟩).run ((new ⟨"BTC", "USDT"⟩).withMaxDepth (some 1)) pre).1
          ((feed .plain ⟨id, id⟩).run (new ⟨"BTC", "USDT"⟩) pre).1 :=
  ⟨by decide, (pruned_iff 1 ⟨"BTC", "USDT"⟩ _ (by decide)).mpr (by decide)⟩

end OrderbookDelta
