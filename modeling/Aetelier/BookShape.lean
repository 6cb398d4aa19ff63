import Aetelier.BookAgreement
import Aetelier.PrintedDecimals
import Mathlib.Data.Finset.Card
import Mathlib.Data.List.TakeWhile

/-!
# The shape of a book

A book should have positive sizes only, no more levels on a side than its
depth, and a counter of the deltas since its last snapshot. The counter is
right whatever happens. The other two hold after a snapshot that is read to
its end, since it leaves out what is not positive and the book is cut
afterwards. They can fail in two ways.

A delta leaves out nothing but zeros: a negative size is stored like any
other. And an update that cannot be read to its end keeps what was read so far
and returns before the book is cut.

`CountedBook.sound_iff` says exactly which updates do no harm, in terms of the
book before and of the last words of the entries that are read.
-/

namespace OrderbookDelta

/-! ## What an update puts on a side -/

/-- The entries of a side up to the first that cannot be read. -/
def readable (x : Crates) (levels : List (String × String)) : List (String × String) :=
  levels.takeWhile (fun l => (parseLevel x l).isOk)

/-- Price and size of an entry, as numbers. -/
def quoteOf (x : Crates) (l : String × String) : ℚ × ℚ :=
  match parseLevel x l with
  | .ok (p, s) => (p.value, s.value)
  | .error _ => (0, 0)

/-- All entries of a side can be read. -/
def Reads (x : Crates) (levels : List (String × String)) : Prop :=
  ∀ l ∈ levels, (parseLevel x l).isOk = true

instance (x : Crates) (levels : List (String × String)) : Decidable (Reads x levels) :=
  inferInstanceAs (Decidable (∀ l ∈ levels, _))

/-- The entries an update gets to on a side: none of the asks if the bids
cannot be read to their end. -/
def reached (x : Crates) (d : NormalizedDelta) : OrderSide → List (String × String)
  | .bids => readable x d.bids
  | .asks => if Reads x d.bids then readable x d.asks else []

/-- What an update says on a side: a snapshot, only what is positive. -/
def words (x : Crates) (d : NormalizedDelta) (side : OrderSide) : List (ℚ × ℚ) :=
  ((reached x d side).map (quoteOf x)).filter (fun e => !d.isSnapshot || decide (0 < e.2))

/-- What an update says it of. -/
def ground (ob : OrderbookDelta) (d : NormalizedDelta) (side : OrderSide) : PriceMap Decimal :=
  if d.isSnapshot then OrdMap.empty else ob.sideLevels side

/-- The size that words leave at a price. -/
def left (K : List (ℚ × ℚ)) (m : PriceMap Decimal) (q : ℚ) : Option ℚ :=
  (said K q).elim (sizeAt m q) levelOf

/-- The prices at which words leave a level. -/
def leftPrices (K : List (ℚ × ℚ)) (m : PriceMap Decimal) : Finset ℚ :=
  ((pricesOf K ++ m.entries.map (·.1.value)).toFinset).filter (fun q => said K q ≠ some 0)

section Left

variable {x : Crates} {K : List (ℚ × ℚ)} {m : PriceMap Decimal} {q v : ℚ}
  {levels : List (String × String)}

theorem mem_leftPrices : q ∈ leftPrices K m ↔ left K m q ≠ none := by
  have hlevel : q ∈ m.entries.map (·.1.value) ↔ sizeAt m q ≠ none := by
    rw [Option.ne_none_iff_exists', List.mem_map]
    simp only [sizeAt_eq_some_iff]
    exact ⟨fun ⟨e, he, hq⟩ => ⟨_, e, he, hq, rfl⟩, fun ⟨_, e, he, hq, _⟩ => ⟨e, he, hq⟩⟩
  unfold leftPrices left
  rw [Finset.mem_filter, List.mem_toFinset, List.mem_append, hlevel]
  cases hsaid : said K q with
  | none =>
    rw [or_iff_right (said_eq_none_iff.mp hsaid)]
    exact and_iff_left (nomatch ·)
  | some v =>
    rw [and_iff_right (Or.inl (mem_of_said hsaid))]
    show some v ≠ some 0 ↔ levelOf v ≠ none
    unfold levelOf
    by_cases hv : v = 0
    · simp [hv]
    · simp [hv]

theorem reads_readable : ∀ l ∈ readable x levels, ∃ p s, parseLevel x l = .ok (p, s) ∧
    quoteOf x l = (p.value, s.value) := by
  intro l hl
  have hok := List.mem_takeWhile_imp hl
  unfold quoteOf
  cases hparse : parseLevel x l with
  | error e =>
    rw [hparse] at hok
    exact Bool.noConfusion hok
  | ok e => exact ⟨e.1, e.2, rfl, rfl⟩

theorem readable_of_reads (h : Reads x levels) : readable x levels = levels :=
  List.takeWhile_eq_self_iff.mpr h

theorem applySide_readable (m : PriceMap Decimal) (levels : List (String × String)) :
    (applySide x m levels).1 = (applySide x m (readable x levels)).1 := by
  induction levels generalizing m with
  | nil => rfl
  | cons l levels ih =>
    unfold readable
    cases hparse : parseLevel x l with
    | error e =>
      rw [List.takeWhile_cons_of_neg (by rw [hparse]; exact Bool.false_ne_true)]
      show (applySide x m (l :: levels)).1 = m
      rw [applySide, hparse]
    | ok e =>
      rw [List.takeWhile_cons_of_pos (by rw [hparse]; rfl), applySide, applySide, hparse]
      exact ih _

theorem fillSide_readable (m : PriceMap Decimal) (levels : List (String × String)) :
    (fillSide x m levels).1 = (fillSide x m (readable x levels)).1 := by
  induction levels generalizing m with
  | nil => rfl
  | cons l levels ih =>
    unfold readable
    cases hparse : parseLevel x l with
    | error e =>
      rw [List.takeWhile_cons_of_neg (by rw [hparse]; exact Bool.false_ne_true)]
      show (fillSide x m (l :: levels)).1 = m
      rw [fillSide, hparse]
    | ok e =>
      rw [List.takeWhile_cons_of_pos (by rw [hparse]; rfl), fillSide, fillSide, hparse]
      dsimp only
      split
      · exact ih _
      · exact ih _

/-- What is filled in is what is positive. -/
theorem sizeAt_fillSide (hread : ∀ l ∈ levels, ∃ p s, parseLevel x l = .ok (p, s) ∧
      quoteOf x l = (p.value, s.value)) (m : PriceMap Decimal) (q : ℚ) :
    sizeAt (fillSide x m levels).1 q
      = left ((levels.map (quoteOf x)).filter (fun e => decide (0 < e.2))) m q := by
  induction levels generalizing m with
  | nil => rfl
  | cons l levels ih =>
    obtain ⟨⟨p, s, hl, hlread⟩, hrest⟩ := List.forall_mem_cons.mp hread
    rw [fillSide, hl, List.map_cons, hlread]
    dsimp only
    by_cases hpos : 0 < s.value
    · rw [if_pos hpos, List.filter_cons, if_pos (decide_eq_true hpos)]
      dsimp only
      rw [ih hrest]
      unfold left
      rw [said_cons, sizeAt_insert]
      cases said ((levels.map (quoteOf x)).filter (fun e => decide (0 < e.2))) q with
      | some v => rfl
      | none =>
        rw [Option.none_or]
        by_cases hq : p.value = q
        · rw [if_pos hq, if_pos hq.symm]
          show some s.value = levelOf s.value
          unfold levelOf
          rw [if_neg hpos.ne']
        · rw [if_neg hq, if_neg (Ne.symm hq)]
    · rw [if_neg hpos, List.filter_cons, if_neg (fun h => hpos (of_decide_eq_true h)), ih hrest]

end Left

/-! ## When a side is in shape -/

/-- A side is in shape: its sizes are positive, and it has no more levels than
the depth. -/
structure ShapedSide (depth : Option ℕ) (m : PriceMap Decimal) : Prop where
  positive : ∀ e ∈ m.entries, 0 < e.2.value
  fits : ∀ n ∈ depth, m.len ≤ n

/-- The prices left on a side that are better than one. -/
def aheadOf (side : OrderSide) (K : List (ℚ × ℚ)) (m : PriceMap Decimal) (q : ℚ) : Finset ℚ :=
  (leftPrices K m).filter (fun r => place side (r, 0) < place side (q, 0))

/-- **Words that do a side no harm**: one that is negative stands on a side
that is cut, behind a full depth of other levels; and a side that is not cut
fits the depth as it is. -/
structure Harmless (depth : Option ℕ) (isCut : Prop) (side : OrderSide) (K : List (ℚ × ℚ))
    (m : PriceMap Decimal) : Prop where
  negative : ∀ q ∈ pricesOf K, ∀ v ∈ said K q, v < 0 →
    isCut ∧ ∃ n ∈ depth, n ≤ (aheadOf side K m q).card
  fits : ¬ isCut → ∀ n ∈ depth, (leftPrices K m).card ≤ n

instance (depth : Option ℕ) (isCut : Prop) [Decidable isCut] (side : OrderSide)
    (K : List (ℚ × ℚ)) (m : PriceMap Decimal) : Decidable (Harmless depth isCut side K m) :=
  decidable_of_iff ((∀ q ∈ pricesOf K, ∀ v ∈ said K q, v < 0 →
      isCut ∧ ∃ n ∈ depth, n ≤ (aheadOf side K m q).card) ∧
      (¬ isCut → ∀ n ∈ depth, (leftPrices K m).card ≤ n))
    ⟨fun h => ⟨h.1, h.2⟩, fun h => ⟨h.negative, h.fits⟩⟩

section Shape

variable {side : OrderSide} {depth : Option ℕ} {K : List (ℚ × ℚ)} {m U : PriceMap Decimal}
  {q v : ℚ}

theorem positive_iff (side : OrderSide) :
    (∀ e ∈ U.entries, 0 < e.2.value) ↔ ∀ e ∈ ladder side U, 0 < e.2 := by
  unfold ladder quotes
  cases side with
  | bids => simp only [List.forall_mem_map, List.mem_reverse]
  | asks => simp only [List.forall_mem_map]

theorem length_ladder (side : OrderSide) (U : PriceMap Decimal) :
    (ladder side U).length = U.len := by
  unfold ladder quotes OrdMap.len
  cases side with
  | bids => rw [List.length_map, List.length_reverse]
  | asks => rw [List.length_map]

/-- A level that is not positive is one a negative word left. -/
theorem negative_iff (side : OrderSide) (hU : ∀ q, sizeAt U q = left K m q)
    (hm : ∀ e ∈ m.entries, 0 < e.2.value) :
    (q, v) ∈ ladder side U ∧ ¬ 0 < v ↔ said K q = some v ∧ v < 0 := by
  rw [mem_ladder, hU]
  unfold left
  cases hsaid : said K q with
  | none =>
    refine iff_of_false (fun ⟨hsize, hneg⟩ => hneg ?_) (fun h => nomatch h.1)
    exact (positive_iff side).mp hm (q, v) (mem_ladder.mpr hsize)
  | some w =>
    show levelOf w = some v ∧ _ ↔ _
    unfold levelOf
    by_cases hw : w = 0
    · rw [if_pos hw]
      refine iff_of_false (fun h => nomatch h.1) (fun ⟨hv, hneg⟩ => ?_)
      rw [← Option.some.inj hv, hw] at hneg
      exact lt_irrefl 0 hneg
    · rw [if_neg hw]
      refine and_congr_right (fun hv => ?_)
      rw [← Option.some.inj hv, not_lt, le_iff_lt_or_eq, or_iff_left hw]

/-- The prices left are those of the levels. -/
theorem leftPrices_eq (hU : ∀ q, sizeAt U q = left K m q) (side : OrderSide) :
    leftPrices K m = ((ladder side U).map Prod.fst).toFinset := by
  ext q
  rw [mem_leftPrices, ← hU, Option.ne_none_iff_exists', List.mem_toFinset, List.mem_map]
  exact ⟨fun ⟨v, hv⟩ => ⟨(q, v), mem_ladder.mpr hv, rfl⟩,
    fun ⟨e, he, hq⟩ => ⟨e.2, hq ▸ mem_ladder.mp he⟩⟩

theorem card_leftPrices (hU : ∀ q, sizeAt U q = left K m q) (side : OrderSide) :
    (leftPrices K m).card = U.len := by
  rw [leftPrices_eq hU side, List.toFinset_card_of_nodup (nodup_prices side U), List.length_map,
    length_ladder]

/-- **A level is kept by the cut** exactly if fewer levels than the depth are
better. -/
theorem mem_cut_iff (hU : ∀ q, sizeAt U q = left K m q) :
    (q, v) ∈ ladder side (cut depth side U) ↔
      (q, v) ∈ ladder side U ∧ ∀ n ∈ depth, (aheadOf side K m q).card < n := by
  cases depth with
  | none => exact (and_iff_left (fun n hn => nomatch hn)).symm
  | some n =>
    show (q, v) ∈ ladder side (windowOf side n U) ↔ _
    rw [ladder_windowOf]
    have hahead : ∀ r, r ∈ aheadOf side K m q ↔ ∃ w, (r, w) ∈ ladder side U ∧
        place side (r, w) < place side (q, v) := by
      intro r
      unfold aheadOf
      rw [Finset.mem_filter, leftPrices_eq hU side, List.mem_toFinset, List.mem_map]
      constructor
      · rintro ⟨⟨e, he, rfl⟩, hlt⟩
        exact ⟨e.2, he, by rw [place_eq side e.1 e.2 0, place_eq side q v 0]; exact hlt⟩
      · rintro ⟨w, hw, hlt⟩
        rw [place_eq side r w 0, place_eq side q v 0] at hlt
        exact ⟨⟨(r, w), hw, rfl⟩, hlt⟩
    constructor
    · intro htake
      refine ⟨List.mem_of_mem_take htake, fun n' hn' => ?_⟩
      obtain rfl := Option.mem_some_iff.mp hn'
      rw [← Finset.length_toList]
      exact length_lt_of_mem_take htake (Finset.nodup_toList _)
        (fun r hr => (hahead r).mp (Finset.mem_toList.mp hr))
    · rintro ⟨hmem, hfew⟩
      rcases mem_take_or (n := n) hmem with htake | ⟨hlen, hall⟩
      · exact htake
      · refine absurd (hfew n rfl) (not_lt.mpr ?_)
        have hsub : (((ladder side U).take n).map Prod.fst).toFinset ⊆ aheadOf side K m q := by
          intro r hr
          obtain ⟨e, he, rfl⟩ := List.mem_map.mp (List.mem_toFinset.mp hr)
          exact (hahead e.1).mpr ⟨e.2, List.mem_of_mem_take he, hall e he⟩
        have hle := Finset.card_le_card hsub
        rwa [List.toFinset_card_of_nodup (nodup_bestPrices side n U), List.length_map, hlen]
          at hle

/-- The sizes of a cut side are positive exactly if every negative word is
behind a full depth of levels. -/
theorem positive_cut_iff (depth : Option ℕ) (side : OrderSide) (hU : ∀ q, sizeAt U q = left K m q)
    (hm : ∀ e ∈ m.entries, 0 < e.2.value) :
    (∀ e ∈ (cut depth side U).entries, 0 < e.2.value) ↔
      ∀ q ∈ pricesOf K, ∀ v ∈ said K q, v < 0 → ∃ n ∈ depth, n ≤ (aheadOf side K m q).card := by
  rw [positive_iff side]
  constructor
  · intro hall q hq v hv hneg
    by_contra hfew
    push Not at hfew
    have hmem := ((negative_iff side hU hm).mpr ⟨hv, hneg⟩).1
    exact (hall (q, v) ((mem_cut_iff hU).mpr ⟨hmem, hfew⟩)).asymm hneg
  · rintro hall ⟨q, v⟩ he
    by_contra hneg
    obtain ⟨hmem, hfew⟩ := (mem_cut_iff hU).mp he
    obtain ⟨hsaid, hneg⟩ := (negative_iff side hU hm).mp ⟨hmem, hneg⟩
    obtain ⟨n, hn, hle⟩ := hall q (mem_of_said hsaid) v hsaid hneg
    exact absurd (hfew n hn) (not_lt.mpr hle)

theorem len_cut_le {n : ℕ} (hn : n ∈ depth) : (cut depth side U).len ≤ n := by
  obtain rfl := hn
  show (windowOf side n U).len ≤ n
  rw [← length_ladder side, ladder_windowOf]
  exact List.length_take_le n _

/-- **One side.** A side that was in shape and takes words is in shape
exactly if they do it no harm. -/
theorem shapedSide_iff {isCut : Prop} [Decidable isCut] (hU : ∀ q, sizeAt U q = left K m q)
    (hm : ∀ e ∈ m.entries, 0 < e.2.value) :
    ShapedSide depth (if isCut then cut depth side U else U) ↔
      Harmless depth isCut side K m := by
  by_cases hcut : isCut
  · rw [if_pos hcut]
    have hpos := positive_cut_iff depth side hU hm
    refine ⟨fun h => ⟨fun q hq v hv hneg => ⟨hcut, hpos.mp h.positive q hq v hv hneg⟩,
      fun hnot => absurd hcut hnot⟩, fun h => ⟨?_, fun n hn => len_cut_le hn⟩⟩
    exact hpos.mpr (fun q hq v hv hneg => (h.negative q hq v hv hneg).2)
  · rw [if_neg hcut]
    have hpos := positive_cut_iff none side hU hm
    have hlen := card_leftPrices hU side
    refine ⟨fun h => ⟨fun q hq v hv hneg => ?_, fun _ n hn => hlen.trans_le (h.fits n hn)⟩,
      fun h => ⟨?_, fun n hn => hlen.symm.trans_le (h.fits hcut n hn)⟩⟩
    · obtain ⟨n, hn, -⟩ := hpos.mp h.positive q hq v hv hneg
      exact nomatch hn
    · exact hpos.mpr (fun q hq v hv hneg => absurd (h.negative q hq v hv hneg).1 hcut)

end Shape

/-! ## One update -/

/-- An update that gets past the checks before the first entry. -/
def Enters (u : Unicode) (ob : OrderbookDelta) (d : NormalizedDelta) : Prop :=
  ob.acceptsSymbol u d.symbol = true ∧ (d.isSnapshot = false → ob.initialized = true)

/-- Both sides of an update can be read to their end. -/
def Whole (x : Crates) (d : NormalizedDelta) : Prop := Reads x d.bids ∧ Reads x d.asks

instance (u : Unicode) (ob : OrderbookDelta) (d : NormalizedDelta) : Decidable (Enters u ob d) :=
  inferInstanceAs (Decidable (_ ∧ _))

instance (x : Crates) (d : NormalizedDelta) : Decidable (Whole x d) :=
  inferInstanceAs (Decidable (_ ∧ _))

section Process

variable {x : Crates} {u : Unicode} {ob : OrderbookDelta} {d : NormalizedDelta}

theorem reads_iff {levels : List (String × String)} :
    Reads x levels ↔ ∀ l ∈ levels, ∃ e, parseLevel x l = .ok e := by
  refine forall_congr' (fun l => imp_congr_right (fun _ => ?_))
  cases parseLevel x l with
  | error e => exact iff_of_false Bool.false_ne_true (fun ⟨_, h⟩ => nomatch h)
  | ok e => exact iff_of_true rfl ⟨e, rfl⟩

/-- A side as an update leaves it before any cut. -/
def touched (x : Crates) (ob : OrderbookDelta) (d : NormalizedDelta) (side : OrderSide) :
    PriceMap Decimal :=
  sideAfter x d (reached x d side) (ob.sideLevels side)

theorem sizeAt_touched (side : OrderSide) (q : ℚ) :
    sizeAt (touched x ob d side) q = left (words x d side) (ground ob d side) q := by
  have hread : ∀ l ∈ reached x d side, ∃ p s, parseLevel x l = .ok (p, s) ∧
      quoteOf x l = (p.value, s.value) := by
    unfold reached
    intro l hl
    cases side with
    | bids => exact reads_readable l hl
    | asks =>
      dsimp only at hl
      split at hl
      · exact reads_readable l hl
      · exact nomatch hl
  unfold touched sideAfter words ground
  by_cases hsnap : d.isSnapshot = true
  · rw [if_pos hsnap, if_pos hsnap, sizeAt_fillSide hread, hsnap]
    rfl
  · have hdelta : d.isSnapshot = false := Bool.eq_false_iff.mpr hsnap
    have hall : ∀ L : List (ℚ × ℚ), L.filter (fun e => !d.isSnapshot || decide (0 < e.2)) = L := by
      intro L
      rw [hdelta]
      exact List.filter_eq_self.mpr (fun _ _ => rfl)
    rw [if_neg hsnap, if_neg hsnap, sizeAt_applySide_eq hread, hall]
    rfl

theorem process_of_not_enters (h : ¬ Enters u ob d) :
    (ob.process x u d).1 = ob ∧ (ob.process x u d).2.isOk = false := by
  unfold process
  by_cases hsym : ob.acceptsSymbol u d.symbol = false
  · rw [if_pos hsym]
    exact ⟨rfl, rfl⟩
  · rw [if_neg hsym]
    have hseed : d.isSnapshot = false ∧ ob.initialized = false := by
      unfold Enters at h
      rw [not_and, Classical.not_imp, Bool.not_eq_true] at h
      exact h (Bool.not_eq_false _ ▸ hsym)
    rw [if_neg (by rw [hseed.1]; exact Bool.false_ne_true)]
    unfold applyDelta
    rw [if_pos hseed.2]
    exact ⟨rfl, rfl⟩

theorem fillSide_error {levels : List (String × String)} (h : ¬ Reads x levels)
    (m : PriceMap Decimal) : ∃ e, (fillSide x m levels).2 = .error e := by
  rw [reads_iff, ← fillSide_ok_iff (m := m)] at h
  cases hres : (fillSide x m levels).2 with
  | error e => exact ⟨e, rfl⟩
  | ok n => exact absurd ⟨n, hres⟩ h

theorem applySide_error {levels : List (String × String)} (h : ¬ Reads x levels)
    (m : PriceMap Decimal) : ∃ e, (applySide x m levels).2 = .error e := by
  rw [reads_iff, ← applySide_ok_iff (m := m)] at h
  cases hres : (applySide x m levels).2 with
  | error e => exact ⟨e, rfl⟩
  | ok n => exact absurd ⟨n, hres⟩ h

/-- **An update that cannot be read to its end** leaves what was read. -/
theorem process_of_not_whole (h : Enters u ob d) (hwhole : ¬ Whole x d) (side : OrderSide) :
    (ob.process x u d).1.sideLevels side = touched x ob d side := by
  unfold process touched reached sideAfter
  rw [if_neg (by rw [h.1]; exact Bool.noConfusion)]
  by_cases hsnap : d.isSnapshot = true
  · rw [if_pos hsnap, if_pos hsnap]
    unfold applySnapshot
    by_cases hbids : Reads x d.bids
    · obtain ⟨n, hn⟩ := (fillSide_ok_iff (m := OrdMap.empty)).mpr (reads_iff.mp hbids)
      obtain ⟨e, he⟩ := fillSide_error (fun hasks => hwhole ⟨hbids, hasks⟩) OrdMap.empty
      simp only [hn, he, if_pos hbids]
      cases side with
      | bids => exact fillSide_readable OrdMap.empty d.bids
      | asks => exact fillSide_readable OrdMap.empty d.asks
    · obtain ⟨e, he⟩ := fillSide_error hbids OrdMap.empty
      simp only [he, if_neg hbids]
      cases side with
      | bids => exact fillSide_readable OrdMap.empty d.bids
      | asks => rfl
  · rw [if_neg hsnap, if_neg hsnap]
    unfold applyDelta
    rw [if_neg (by rw [h.2 (Bool.eq_false_iff.mpr hsnap)]; exact Bool.noConfusion)]
    by_cases hbids : Reads x d.bids
    · obtain ⟨c, hc⟩ := (applySide_ok_iff (m := ob.bids)).mpr (reads_iff.mp hbids)
      obtain ⟨e, he⟩ := applySide_error (fun hasks => hwhole ⟨hbids, hasks⟩) ob.asks
      simp only [hc, he, if_pos hbids]
      cases side with
      | bids => exact applySide_readable ob.bids d.bids
      | asks => exact applySide_readable ob.asks d.asks
    · obtain ⟨e, he⟩ := applySide_error hbids ob.bids
      simp only [he, if_neg hbids]
      cases side with
      | bids => exact applySide_readable ob.bids d.bids
      | asks => rfl

/-- **An update that enters**: each side takes the entries that are read. The
book is cut only if all are. -/
theorem process_of_enters (h : Enters u ob d) :
    ((ob.process x u d).2.isOk = true ↔ Whole x d) ∧ ∀ side,
      (ob.process x u d).1.sideLevels side
        = if Whole x d then cut ob.maxDepth side (touched x ob d side)
          else touched x ob d side := by
  by_cases hwhole : Whole x d
  · obtain ⟨⟨r, hr⟩, -, hbids, hasks⟩ := process_of_acceptable (x := x)
      ⟨h.1, h.2, reads_iff.mp hwhole.1, reads_iff.mp hwhole.2⟩
    refine ⟨iff_of_true (by rw [hr]; rfl) hwhole, fun side => ?_⟩
    rw [if_pos hwhole]
    unfold touched reached
    cases side with
    | bids =>
      dsimp only
      rw [readable_of_reads hwhole.1]
      exact hbids
    | asks =>
      dsimp only
      rw [if_pos hwhole.1, readable_of_reads hwhole.2]
      exact hasks
  · have herror : (ob.process x u d).2.isOk = false := by
      cases hres : (ob.process x u d).2 with
      | error e => rfl
      | ok r =>
        have hok := acceptable_of_ok hres
        exact absurd ⟨reads_iff.mpr hok.bids, reads_iff.mpr hok.asks⟩ hwhole
    refine ⟨iff_of_false (by rw [herror]; exact Bool.false_ne_true) hwhole, fun side => ?_⟩
    rw [if_neg hwhole]
    exact process_of_not_whole h hwhole side

/-- The deltas counted: one more after each that applies, none after a
snapshot that does. -/
theorem process_deltaCount : (ob.process x u d).1.deltaCount
    = if (ob.process x u d).2.isOk then if d.isSnapshot then 0 else ob.deltaCount + 1
      else ob.deltaCount := by
  unfold process
  split
  · rfl
  · split
    · next hsnap =>
      unfold applySnapshot
      cases hbids : (fillSide x OrdMap.empty d.bids).2 with
      | error e =>
        simp only [hbids]
        rfl
      | ok n =>
        cases hasks : (fillSide x OrdMap.empty d.asks).2 with
        | error e =>
          simp only [hbids, hasks]
          rfl
        | ok n' =>
          simp only [hbids, hasks, pruneToDepth_eq]
          rfl
    · next hsnap =>
      unfold applyDelta
      split
      · rfl
      · cases hbids : (applySide x ob.bids d.bids).2 with
        | error e =>
          simp only [hbids]
          rfl
        | ok c =>
          cases hasks : (applySide x ob.asks d.asks).2 with
          | error e =>
            simp only [hbids, hasks]
            rfl
          | ok c' =>
            simp only [hbids, hasks, pruneToDepth_eq]
            rfl

end Process

/-! ## Whole runs -/

/-- **A book in shape**: both sides are. -/
def Shaped (ob : OrderbookDelta) : Prop := ∀ side, ShapedSide ob.maxDepth (ob.sideLevels side)

/-- **A clean update**: it is refused at once, or its words do no harm on
either side. -/
def Clean (x : Crates) (u : Unicode) (ob : OrderbookDelta) (d : NormalizedDelta) : Prop :=
  Enters u ob d → ∀ side ∈ [OrderSide.bids, OrderSide.asks],
    Harmless ob.maxDepth (Whole x d) side (words x d side) (ground ob d side)

instance (x : Crates) (u : Unicode) (ob : OrderbookDelta) (d : NormalizedDelta) :
    Decidable (Clean x u ob d) :=
  inferInstanceAs (Decidable (Enters u ob d → _))

/-- **One update** keeps a book in shape exactly if it is clean. -/
theorem shaped_process_iff {x : Crates} {u : Unicode} {ob : OrderbookDelta} {d : NormalizedDelta}
    (h : ob.Shaped) : (ob.process x u d).1.Shaped ↔ Clean x u ob d := by
  unfold Shaped Clean
  rw [process_maxDepth]
  by_cases henters : Enters u ob d
  · rw [imp_iff_right henters]
    have hground : ∀ side, ∀ e ∈ (ground ob d side).entries, 0 < e.2.value := by
      intro side
      unfold ground
      split
      · exact fun e he => nomatch he
      · exact (h side).positive
    have hside : ∀ side, ShapedSide ob.maxDepth ((ob.process x u d).1.sideLevels side) ↔
        Harmless ob.maxDepth (Whole x d) side (words x d side) (ground ob d side) := by
      intro side
      rw [(process_of_enters henters).2 side]
      exact shapedSide_iff (sizeAt_touched side) (hground side)
    simp only [hside]
    exact ⟨fun hall side _ => hall side, fun hall side => hall side (by cases side <;> decide)⟩
  · rw [(process_of_not_enters henters).1]
    exact iff_of_true h (fun hin => absurd hin henters)

end OrderbookDelta

/-- A book, and beside it the number of deltas that have applied since the
last snapshot that did. -/
structure CountedBook where
  /-- The book. -/
  book : OrderbookDelta
  /-- The deltas counted from the results. -/
  applied : ℕ

namespace CountedBook

/-- Updates, one after another. -/
def processing (x : Crates) (u : Unicode) : Machine CountedBook NormalizedDelta Unit where
  step s d :=
    let r := s.book.process x u d
    (⟨r.1, if r.2.isOk then if d.isSnapshot then 0 else s.applied + 1 else s.applied⟩, [])

/-- The first book, with a depth or without. -/
def start (pair : TradingPair) (maxDepth : Option ℕ) : CountedBook :=
  ⟨(OrderbookDelta.new pair).withMaxDepth maxDepth, 0⟩

/-- **The representation invariant**: the book is in shape, and counts what
is to be counted. -/
def Sound (s : CountedBook) : Prop := s.book.Shaped ∧ s.book.deltaCount = s.applied

/-- **A book keeps its shape exactly as long as updates are clean**, and always
counts right. -/
theorem sound_iff (x : Crates) (u : Unicode) (pair : TradingPair) (maxDepth : Option ℕ)
    (ds : List NormalizedDelta) :
    (∀ pre, pre <+: ds → ((processing x u).run (start pair maxDepth) pre).1.book.deltaCount
        = ((processing x u).run (start pair maxDepth) pre).1.applied) ∧
      ((∀ pre, pre <+: ds → ((processing x u).run (start pair maxDepth) pre).1.Sound) ↔
        (processing x u).Meets (fun s d => OrderbookDelta.Clean x u s.book d)
          (start pair maxDepth) ds) := by
  have hcount : ∀ s d, s.book.deltaCount = s.applied →
      ((processing x u).step s d).1.book.deltaCount = ((processing x u).step s d).1.applied := by
    intro s d h
    show (s.book.process x u d).1.deltaCount = _
    rw [OrderbookDelta.process_deltaCount, h]
    rfl
  have hstart : (start pair maxDepth).Sound := by
    refine ⟨fun side => ?_, rfl⟩
    cases side with
    | bids => exact ⟨fun e he => absurd he List.not_mem_nil, fun n _ => Nat.zero_le n⟩
    | asks => exact ⟨fun e he => absurd he List.not_mem_nil, fun n _ => Nat.zero_le n⟩
  constructor
  · exact fun pre _ => ((processing x u).forall_of_invariant (P := fun _ _ => True)
      (Q := fun _ => True) (fun s d h _ => ⟨hcount s d h, fun _ _ => trivial⟩) rfl
      (Machine.along_of_forall (fun _ _ _ _ => trivial) () _)).1
  · exact (processing x u).forall_prefix_iff_meets (I := fun s => s.book.deltaCount = s.applied)
      hcount (fun s d hI hS => (and_iff_left (hcount s d hI)).trans
        (OrderbookDelta.shaped_process_iff hS.1)) rfl hstart ds

/-- A bid and an ask. -/
def bidAndAsk : NormalizedDelta where
  symbol := "BTC/USDT"
  bids := [("10", "1")]
  asks := [("11", "1")]
  updateId := 1
  sequence := 1
  isSnapshot := true

/-- A bid of negative size. -/
def negativeBid : NormalizedDelta where
  symbol := "BTC/USDT"
  bids := [("9", "-1")]
  asks := []
  updateId := 2
  sequence := 2
  isSnapshot := false

/-- Another bid, and an ask that cannot be read. -/
def unreadableAsk : NormalizedDelta :=
  { negativeBid with bids := [("9", "1")], asks := [("x", "1")] }

/-- **A negative size is stored**, and an update that fails half way leaves
more levels than the depth. -/
theorem not_sound :
    ¬ (∀ (x : Crates) (u : Unicode) (pair : TradingPair) (maxDepth : Option ℕ)
      (ds : List NormalizedDelta), ((processing x u).run (start pair maxDepth) ds).1.Sound) ∧
    ((processing .signed ⟨id, id⟩).run (start ⟨"BTC", "USDT"⟩ none)
        [bidAndAsk, negativeBid]).1.book.bids.entries.map (·.2.value) = [-1, 1] ∧
    ((processing .signed ⟨id, id⟩).run (start ⟨"BTC", "USDT"⟩ (some 1))
        [bidAndAsk, unreadableAsk]).1.book.bids.len = 2 := by
  have hsizes : ((processing .signed ⟨id, id⟩).run (start ⟨"BTC", "USDT"⟩ none)
      [bidAndAsk, negativeBid]).1.book.bids.entries.map (·.2.value) = [-1, 1] := by decide
  refine ⟨fun h => ?_, hsizes, by decide⟩
  have hpos := ((h .signed ⟨id, id⟩ ⟨"BTC", "USDT"⟩ none [bidAndAsk, negativeBid]).1 .bids).positive
  obtain ⟨e, he, hneg⟩ := List.mem_map.mp (hsizes ▸ List.mem_cons_self (a := (-1 : ℚ)) (l := [1]))
  have hlt := hpos e he
  rw [hneg] at hlt
  exact absurd hlt (by decide)

end CountedBook
