import Mathlib.Algebra.Order.Ring.Cast
import Mathlib.Data.Set.Function
import Aetelier.SourcedOrderbook

/-!
# The Kraken window

A venue keeps its whole book, and tells its clients of the ten best levels of
each side. A client keeps ten levels a side too: it applies a frame, prunes
what is now in excess, and hashes the rest. It forgets what it prunes, the
venue does not. A level that was pushed out of the window and is pulled back
in must therefore be sent again – and it is, because the venue compares two
windows and the level is not in the old one.

What the client has in excess after a frame is a level that left the window
and not the book. It is worse than the ten levels of the new window, which
the client has, so that pruning takes it and nothing else: the least entries
of a map are those of any map that has them and no other keys
(`OrdMap.keepFirst_eq`). That is the argument for one side
(`FrameSide.window_eq`); the rest carries it to the book, its checksum and a
whole history of frames.
-/

namespace OrderbookDelta

/-! ## A side and its window -/

/-- The best levels of a side: the highest bids, the lowest asks. -/
def windowOf (side : OrderSide) (n : ℕ) (m : PriceMap Decimal) : PriceMap Decimal :=
  match side with
  | .bids => m.keepLast n
  | .asks => m.keepFirst n

section Window

variable {side : OrderSide} {n : ℕ} {m m' : PriceMap Decimal}

theorem mem_of_mem_windowOf {e : Decimal × Decimal} (h : e ∈ (windowOf side n m).entries) :
    e ∈ m.entries := by
  cases side with
  | bids => exact OrdMap.mem_of_mem_keepLast h
  | asks => exact OrdMap.mem_of_mem_keepFirst h

/-- **The window of a side** is that of any side that has it and has no other
prices. -/
theorem windowOf_eq (hkeys : ∀ e' ∈ m'.entries, ∃ e ∈ m.entries, e.1.value = e'.1.value)
    (htop : ∀ e ∈ (windowOf side n m).entries, e ∈ m'.entries) :
    windowOf side n m' = windowOf side n m := by
  cases side with
  | bids => exact OrdMap.keepLast_eq hkeys htop
  | asks => exact OrdMap.keepFirst_eq hkeys htop

theorem sizeAt_eq_some_iff {q v : ℚ} :
    sizeAt m q = some v ↔ ∃ e ∈ m.entries, e.1.value = q ∧ e.2.value = v := by
  unfold sizeAt
  rw [Option.map_eq_some_iff]
  constructor
  · rintro ⟨s, hs, rfl⟩
    obtain ⟨k, hk, hmem⟩ := OrdMap.mem_of_get? hs
    exact ⟨(k, s), hmem, hk, rfl⟩
  · rintro ⟨e, he, rfl, rfl⟩
    exact ⟨e.2, m.get?_of_mem he, rfl⟩

theorem sizeAt_of_mem {e : Decimal × Decimal} (he : e ∈ m.entries) :
    sizeAt m e.1.value = some e.2.value :=
  sizeAt_eq_some_iff.mpr ⟨e, he, rfl, rfl⟩

end Window

/-- The level an entry of a frame reads as. -/
def readLevel (x : Crates) (level : String × String) : Option (Decimal × Decimal) :=
  (parseLevel x level).toOption

theorem readLevel_eq_some_iff {x : Crates} {l : String × String} {e : Decimal × Decimal} :
    readLevel x l = some e ↔ parseLevel x l = .ok e := by
  unfold readLevel
  cases parseLevel x l with
  | error err => exact ⟨nofun, nofun⟩
  | ok e' => exact ⟨fun h => congrArg Except.ok (Option.some.inj h),
      fun h => congrArg some (Except.ok.inj h)⟩

theorem mentions_of_readLevel {x : Crates} {levels : List (String × String)} {l : String × String}
    {e : Decimal × Decimal} (hl : l ∈ levels) (he : readLevel x l = some e) :
    Mentions x levels e.1.value :=
  ⟨l, hl, e.1, e.2, readLevel_eq_some_iff.mp he, rfl⟩

end OrderbookDelta

/-- **How a venue spells its numbers**: one way for a price, one way for a
size. -/
structure Spelling where
  /-- The prices, as they are written. -/
  prices : Set Decimal
  /-- The sizes, as they are written. -/
  sizes : Set Decimal
  /-- A price is written in one way. -/
  price_inj : Set.InjOn Decimal.value prices
  /-- A size is written in one way. -/
  size_inj : Set.InjOn Decimal.value sizes

namespace Spelling

open OrderbookDelta

variable {S : Spelling} {x : Crates}

/-- A level is spelled as the venue does. -/
def Spells (S : Spelling) (e : Decimal × Decimal) : Prop := e.1 ∈ S.prices ∧ e.2 ∈ S.sizes

/-- Where a side has the size of a level, it has the level. -/
theorem mem_of_sizeAt {m : PriceMap Decimal} {e : Decimal × Decimal}
    (hm : ∀ e ∈ m.entries, S.Spells e) (he : S.Spells e)
    (h : sizeAt m e.1.value = some e.2.value) : e ∈ m.entries := by
  obtain ⟨e', he', hprice, hsize⟩ := sizeAt_eq_some_iff.mp h
  have hp := S.price_inj (hm e' he').1 he.1 hprice
  have hs := S.size_inj (hm e' he').2 he.2 hsize
  rw [← Prod.ext hp hs]
  exact he'

theorem spells_insert {m : PriceMap Decimal} {p s : Decimal} (hm : ∀ e ∈ m.entries, S.Spells e)
    (he : S.Spells (p, s)) : ∀ e ∈ (m.insert p s).entries, S.Spells e := by
  intro e hmem
  rcases OrdMap.key_of_mem_insertEntries hmem with hmem | ⟨hs, hp | ⟨w, hw⟩⟩
  · exact hm e hmem
  · exact ⟨hp ▸ he.1, hs ▸ he.2⟩
  · exact ⟨(hm _ hw).1, hs ▸ he.2⟩

/-- A delta whose levels are spelled keeps a side spelled. -/
theorem spells_applySide {levels : List (String × String)}
    (hl : ∀ l ∈ levels, ∀ e ∈ readLevel x l, e.2.value ≠ 0 → S.Spells e)
    (m : PriceMap Decimal) (hm : ∀ e ∈ m.entries, S.Spells e) :
    ∀ e ∈ (applySide x m levels).1.entries, S.Spells e := by
  induction levels generalizing m with
  | nil => exact hm
  | cons l rest ih =>
    obtain ⟨hhead, hrest⟩ := List.forall_mem_cons.mp hl
    unfold applySide
    split
    · exact hm
    · next p s hparse =>
      refine ih hrest _ ?_
      unfold applyLevel
      split
      · exact fun e he => hm e (List.mem_filter.mp he).1
      · next hs => exact spells_insert hm (hhead _ (readLevel_eq_some_iff.mpr hparse) hs)

/-- A snapshot whose levels are spelled fills a side with spelled levels. -/
theorem spells_fillSide {levels : List (String × String)}
    (hl : ∀ l ∈ levels, ∀ e ∈ readLevel x l, S.Spells e)
    (m : PriceMap Decimal) (hm : ∀ e ∈ m.entries, S.Spells e) :
    ∀ e ∈ (fillSide x m levels).1.entries, S.Spells e := by
  induction levels generalizing m with
  | nil => exact hm
  | cons l rest ih =>
    obtain ⟨hhead, hrest⟩ := List.forall_mem_cons.mp hl
    unfold fillSide
    split
    · exact hm
    · next p s hparse =>
      split
      · exact ih hrest _ (spells_insert hm (hhead _ (readLevel_eq_some_iff.mpr hparse)))
      · exact ih hrest _ hm

end Spelling

/-- **A side of a venue's book**: levels of positive size, spelled as the venue
does. -/
structure VenueSide (S : Spelling) where
  /-- The levels. -/
  levels : PriceMap Decimal
  /-- They are spelled in one way. -/
  spelled : ∀ e ∈ levels.entries, S.Spells e
  /-- There are no empty levels. -/
  pos : ∀ e ∈ levels.entries, 0 < e.2.value

namespace VenueSide

open OrderbookDelta

variable {S : Spelling} {x : Crates} {side : OrderSide} {old new : VenueSide S}
  {levels : List (String × String)}

/-- The ten best levels. -/
def window (v : VenueSide S) (side : OrderSide) : PriceMap Decimal := windowOf side 10 v.levels

theorem spelled_window (v : VenueSide S) : ∀ e ∈ (v.window side).entries, S.Spells e :=
  fun e he => v.spelled e (mem_of_mem_windowOf he)

/-- The size at a price, zero where there is no level. -/
def size (m : PriceMap Decimal) (q : ℚ) : ℚ := (sizeAt m q).getD 0

theorem levelOf_size {m : PriceMap Decimal} (hpos : ∀ e ∈ m.entries, 0 < e.2.value) (q : ℚ) :
    levelOf (size m q) = sizeAt m q := by
  unfold size
  cases h : sizeAt m q with
  | none => rfl
  | some v =>
    obtain ⟨e, he, -, hv⟩ := sizeAt_eq_some_iff.mp h
    exact if_neg (hv ▸ (hpos e he).ne')

theorem size_of_mem {m : PriceMap Decimal} {e : Decimal × Decimal} (he : e ∈ m.entries) :
    size m e.1.value = e.2.value := by
  unfold size
  rw [sizeAt_of_mem he]
  rfl

/-- **A snapshot of a window**: its levels, in any order. -/
structure SnapshotSide (x : Crates) (side : OrderSide) (new : VenueSide S)
    (levels : List (String × String)) : Prop where
  /-- Every entry is a level of the window. -/
  carried : ∀ l ∈ levels, ∃ e ∈ readLevel x l, e ∈ (new.window side).entries
  /-- Every level of the window has an entry. -/
  all : ∀ e ∈ (new.window side).entries, ∃ l ∈ levels, readLevel x l = some e

/-- **A frame between two windows**: the levels of the new window that are new
or changed, and a zero where a level of the old window has left the book, in
any order. -/
structure FrameSide (x : Crates) (side : OrderSide) (old new : VenueSide S)
    (levels : List (String × String)) : Prop where
  /-- Every entry is a level of the new window, or the deletion of a price. -/
  carried : ∀ l ∈ levels, ∃ e ∈ readLevel x l, e ∈ (new.window side).entries ∨
    (e.2.value = 0 ∧ sizeAt new.levels e.1.value = none)
  /-- What is new or changed against the old window has an entry. -/
  changed : ∀ e ∈ (new.window side).entries,
    sizeAt (old.window side) e.1.value ≠ some e.2.value → ∃ l ∈ levels, readLevel x l = some e
  /-- What has left the book has an entry. -/
  deleted : ∀ e ∈ (old.window side).entries, sizeAt new.levels e.1.value = none →
    ∃ l ∈ levels, ∃ e' ∈ readLevel x l, e'.1.value = e.1.value

/-- A side that has the window, and no prices the book has not, has this
window. -/
theorem windowOf_eq_window {m : PriceMap Decimal} (hspell : ∀ e ∈ m.entries, S.Spells e)
    (hprices : ∀ e ∈ m.entries, sizeAt new.levels e.1.value ≠ none)
    (hsizes : ∀ e ∈ (new.window side).entries, sizeAt m e.1.value = some e.2.value) :
    windowOf side 10 m = new.window side := by
  refine windowOf_eq (fun e' he' => ?_) (fun e he => ?_)
  · obtain ⟨v, hv⟩ := Option.ne_none_iff_exists'.mp (hprices e' he')
    obtain ⟨e, he, hq, -⟩ := sizeAt_eq_some_iff.mp hv
    exact ⟨e, he, hq⟩
  · exact Spelling.mem_of_sizeAt hspell (new.spelled_window e he) (hsizes e he)

/-- Every entry of a frame has the size of the new book at its price. -/
theorem FrameSide.truthful (h : FrameSide x side old new levels) :
    Truthful x (size new.levels) levels := by
  intro l hl
  obtain ⟨e, he, hcase⟩ := h.carried l hl
  refine ⟨e.1, e.2, readLevel_eq_some_iff.mp he, ?_⟩
  rcases hcase with hmem | ⟨hzero, hnone⟩
  · exact (size_of_mem (mem_of_mem_windowOf hmem)).symm
  · rw [hzero, size, hnone]
    rfl

theorem FrameSide.spells (h : FrameSide x side old new levels) :
    ∀ e ∈ (applySide x (old.window side) levels).1.entries, S.Spells e := by
  refine Spelling.spells_applySide (fun l hl e he hne => ?_) _ old.spelled_window
  obtain ⟨e', he', hcase⟩ := h.carried l hl
  rw [Option.mem_def.mp he] at he'
  cases he'
  exact new.spelled_window e (hcase.resolve_right (fun hz => hne hz.1))

/-- **A frame takes one window to the next.** What the client has in excess
is in the new book and not in its window, and is pruned. -/
theorem FrameSide.window_eq (h : FrameSide x side old new levels) :
    windowOf side 10 (applySide x (old.window side) levels).1 = new.window side := by
  obtain ⟨-, hspec⟩ := applySide_spec h.truthful (old.window side)
  refine windowOf_eq_window h.spells (fun e' he' => ?_) (fun e he => ?_)
  · have hsize := sizeAt_of_mem he'
    by_cases hm : Mentions x levels e'.1.value
    · rw [(hspec _).1 hm, levelOf_size new.pos] at hsize
      rw [hsize]
      exact nofun
    · -- an old level the frame is silent about has not left the book
      rw [(hspec _).2 hm] at hsize
      obtain ⟨e₀, he₀, hprice, -⟩ := sizeAt_eq_some_iff.mp hsize
      rw [← hprice] at hm ⊢
      intro hnone
      obtain ⟨l, hl, e₁, he₁, hq⟩ := h.deleted e₀ he₀ hnone
      rw [← hq] at hm
      exact hm (mentions_of_readLevel hl he₁)
  · by_cases hm : Mentions x levels e.1.value
    · rw [(hspec _).1 hm, levelOf_size new.pos, sizeAt_of_mem (mem_of_mem_windowOf he)]
    · rw [(hspec _).2 hm]
      by_contra hne
      obtain ⟨l, hl, hread⟩ := h.changed e he hne
      exact hm (mentions_of_readLevel hl hread)

theorem pos_window (v : VenueSide S) : ∀ e ∈ (v.window side).entries, 0 < e.2.value :=
  fun e he => v.pos e (mem_of_mem_windowOf he)

theorem size_nonneg {m : PriceMap Decimal} (hpos : ∀ e ∈ m.entries, 0 < e.2.value) (q : ℚ) :
    0 ≤ size m q := by
  unfold size
  cases h : sizeAt m q with
  | none => exact le_refl _
  | some v =>
    obtain ⟨e, he, -, hv⟩ := sizeAt_eq_some_iff.mp h
    exact hv ▸ (hpos e he).le

theorem SnapshotSide.truthful (h : SnapshotSide x side new levels) :
    Truthful x (size (new.window side)) levels := by
  intro l hl
  obtain ⟨e, he, hmem⟩ := h.carried l hl
  exact ⟨e.1, e.2, readLevel_eq_some_iff.mp he, (size_of_mem hmem).symm⟩

/-- **A snapshot of a window fills a side with it.** -/
theorem SnapshotSide.window_eq (h : SnapshotSide x side new levels) :
    windowOf side 10 (fillSide x OrdMap.empty levels).1 = new.window side := by
  have hsize (q : ℚ) : sizeAt (fillSide x OrdMap.empty levels).1 q
      = sizeAt (new.window side) q := by
    rw [sizeAt_fillSide_empty (size_nonneg new.pos_window) h.truthful, levelOf_size new.pos_window]
    intro q hq
    have hne : sizeAt (new.window side) q ≠ none := fun hnone => hq (by rw [size, hnone]; rfl)
    obtain ⟨v, hv⟩ := Option.ne_none_iff_exists'.mp hne
    obtain ⟨e, he, rfl, -⟩ := sizeAt_eq_some_iff.mp hv
    obtain ⟨l, hl, hread⟩ := h.all e he
    exact mentions_of_readLevel hl hread
  refine windowOf_eq_window
    (Spelling.spells_fillSide (fun l hl e he => ?_) _ (by simp [OrdMap.empty]))
    (fun e' he' => ?_) (fun e he => ?_)
  · obtain ⟨e', he', hmem⟩ := h.carried l hl
    rw [Option.mem_def.mp he] at he'
    cases he'
    exact new.spelled_window e hmem
  · have hs := sizeAt_of_mem he'
    rw [hsize] at hs
    obtain ⟨e, he, hq, -⟩ := sizeAt_eq_some_iff.mp hs
    rw [← hq, sizeAt_of_mem (mem_of_mem_windowOf he)]
    exact nofun
  · rw [hsize, sizeAt_of_mem he]

end VenueSide

/-! ## The book -/

namespace OrderbookDelta

section Depth

variable {x : Crates} {u : Unicode} {ob : OrderbookDelta} {d : NormalizedDelta} {n : ℕ}

theorem pruneToDepth_of_some (h : ob.maxDepth = some n) :
    ob.pruneToDepth = { ob with
      bids := windowOf .bids n ob.bids
      asks := windowOf .asks n ob.asks } := by
  unfold pruneToDepth
  rw [h]
  rfl

theorem pruneToDepth_maxDepth (ob : OrderbookDelta) : ob.pruneToDepth.maxDepth = ob.maxDepth := by
  unfold pruneToDepth
  split <;> rfl

/-- The depth of a book never changes. -/
theorem process_maxDepth (ob : OrderbookDelta) (d : NormalizedDelta) :
    (ob.process x u d).1.maxDepth = ob.maxDepth := by
  unfold process
  split
  · rfl
  · split
    · unfold applySnapshot
      dsimp only
      split
      · rfl
      · split
        · rfl
        · exact pruneToDepth_maxDepth _
    · unfold applyDelta
      dsimp only
      split
      · rfl
      · split
        · rfl
        · split
          · rfl
          · exact pruneToDepth_maxDepth _

/-- **A delta of a book with a depth**: both sides are brought up to date and
pruned. -/
theorem process_delta_window (hdepth : ob.maxDepth = some n) (hsnap : d.isSnapshot = false)
    (hsym : ob.acceptsSymbol u d.symbol = true) (hinit : ob.initialized = true)
    (hb : ∃ c, (applySide x ob.bids d.bids).2 = .ok c)
    (ha : ∃ c, (applySide x ob.asks d.asks).2 = .ok c) :
    (∃ r, (ob.process x u d).2 = .ok r) ∧ (ob.process x u d).1.initialized = true ∧
      (ob.process x u d).1.bids = windowOf .bids n (applySide x ob.bids d.bids).1 ∧
      (ob.process x u d).1.asks = windowOf .asks n (applySide x ob.asks d.asks).1 := by
  obtain ⟨c, hc⟩ := hb
  obtain ⟨c', hc'⟩ := ha
  unfold process
  rw [if_neg (by rw [hsym]; simp), if_neg (by rw [hsnap]; simp)]
  unfold applyDelta
  rw [if_neg (by rw [hinit]; simp)]
  simp only [hc, hc']
  rw [pruneToDepth_of_some (by exact hdepth)]
  exact ⟨⟨_, rfl⟩, hinit, rfl, rfl⟩

/-- **A snapshot of a book with a depth**: both sides are filled and pruned. -/
theorem process_snapshot_window {r : OrderbookUpdate} (hdepth : ob.maxDepth = some n)
    (hsnap : d.isSnapshot = true) (h : (ob.process x u d).2 = .ok r) :
    (ob.process x u d).1.initialized = true ∧
      (ob.process x u d).1.bids = windowOf .bids n (fillSide x OrdMap.empty d.bids).1 ∧
      (ob.process x u d).1.asks = windowOf .asks n (fillSide x OrdMap.empty d.asks).1 := by
  unfold process at h ⊢
  split at h
  · cases h
  · next hsym =>
    rw [if_neg hsym, if_pos hsnap]
    unfold applySnapshot at h ⊢
    dsimp only at h ⊢
    split at h
    · cases h
    · split at h
      · cases h
      · rw [pruneToDepth_of_some (by exact hdepth)]
        exact ⟨rfl, rfl, rfl⟩

end Depth

end OrderbookDelta

namespace SourcedOrderbook

section Checksummed

variable {x : Crates} {u : Unicode} {sb : SourcedOrderbook} {d : NormalizedDelta}
  {fmt : ChecksumFmt}

theorem applyModel_checksummed (hmodel : sb.model = .checksumDelta fmt) :
    sb.applyModel x u d = sb.applyChecksummed x u d fmt := by
  unfold applyModel
  rw [hmodel]

/-- What becomes of a checksummed book, whatever comes of the update. -/
theorem apply_checksummed_book (hmodel : sb.model = .checksumDelta fmt) :
    (sb.apply x u d).1.book = (sb.book.process x u d).1 := by
  have hbook : (sb.applyModel x u d).1.book = (sb.book.process x u d).1 := by
    rw [applyModel_checksummed hmodel]
    unfold applyChecksummed
    cases hp : (sb.book.process x u d).2 with
    | error e =>
      rw [processed_of_error hp]
      rfl
    | ok r =>
      rw [processed_of_ok hp]
      dsimp only
      split
      · split <;> rfl
      · split <;> rfl
  rw [← hbook]
  unfold apply
  split
  · next sb' e h => rw [h]
  · next sb' output h =>
    rw [h]
    split <;> rfl

/-- **A checksummed update applies** if it reads, its checksum is the book's,
and the book is not crossed. -/
theorem apply_checksummed_ok {r : OrderbookUpdate} (hmodel : sb.model = .checksumDelta fmt)
    (hp : (sb.book.process x u d).2 = .ok r)
    (hsum : d.checksum = some (Checksum.bookChecksum x fmt (sb.book.process x u d).1))
    (hcrossed : crossed? (sb.book.process x u d).1 = none) :
    (sb.apply x u d).2 = .ok (outputOf d.isSnapshot) := by
  have happly : sb.applyModel x u d
      = synced (outputOf d.isSnapshot)
        { sb with book := (sb.book.process x u d).1, last := some d.updateId } := by
    rw [applyModel_checksummed hmodel]
    unfold applyChecksummed
    rw [processed_of_ok hp, hsum]
    dsimp only
    rw [if_neg (not_not.mpr rfl)]
  rw [apply_of_model happly hcrossed]

theorem process_of_apply_ok {output : BookOutput} (hmodel : sb.model = .checksumDelta fmt)
    (h : (sb.apply x u d).2 = .ok output) : ∃ r, (sb.book.process x u d).2 = .ok r := by
  have happly := (apply_ok (Prod.ext rfl h)).1
  rw [applyModel_checksummed hmodel] at happly
  obtain ⟨r, hr, -⟩ := processed_ok happly
  exact ⟨r, hr⟩

end Checksummed

/-- The book after a list of updates, whatever came of them. -/
def applyAll (x : Crates) (u : Unicode) (sb : SourcedOrderbook) (ds : List NormalizedDelta) :
    SourcedOrderbook :=
  ds.foldl (fun sb d => (sb.apply x u d).1) sb

end SourcedOrderbook

/-! ## Histories -/

/-- **A venue's whole book**, uncrossed. -/
structure FullBook (S : Spelling) where
  /-- The bids. -/
  bids : VenueSide S
  /-- The asks. -/
  asks : VenueSide S
  /-- Every bid is below every ask. -/
  uncrossed : ∀ b ∈ bids.levels.entries, ∀ a ∈ asks.levels.entries, b.1.value < a.1.value

namespace FullBook

open OrderbookDelta

variable {S : Spelling} (x : Crates) (u : Unicode) (pair : TradingPair)

/-- The window of a book, as a book of ten levels a side. -/
def window (v : FullBook S) : OrderbookDelta :=
  { OrderbookDelta.new pair with bids := v.bids.window .bids, asks := v.asks.window .asks }

/-- **The snapshot of a window.** -/
structure WindowSnapshot (v : FullBook S) (d : NormalizedDelta) : Prop where
  /-- It is a snapshot. -/
  snapshot : d.isSnapshot = true
  /-- It has the bids of the window. -/
  bids : v.bids.SnapshotSide x .bids d.bids
  /-- It has the asks of the window. -/
  asks : v.asks.SnapshotSide x .asks d.asks

/-- **The frame between two books**, with the checksum of the new window. -/
structure WindowFrame (old new : FullBook S) (d : NormalizedDelta) : Prop where
  /-- It is a delta. -/
  delta : d.isSnapshot = false
  /-- It is for this pair. -/
  symbol : (OrderbookDelta.new pair).acceptsSymbol u d.symbol = true
  /-- It has what is new of the bids. -/
  bids : old.bids.FrameSide x .bids new.bids d.bids
  /-- It has what is new of the asks. -/
  asks : old.asks.FrameSide x .asks new.asks d.asks
  /-- It has the checksum of the new window. -/
  checksum : d.checksum = some (Checksum.bookChecksum x .krakenTop10 (new.window pair))

/-- **A history without loss**: each book with the frame that leads to it. -/
def FrameHistory : FullBook S → List (FullBook S × NormalizedDelta) → Prop
  | _, [] => True
  | old, (new, d) :: rest => WindowFrame x u pair old new d ∧ FrameHistory new rest

/-- A maintained book is the window of the venue's. -/
structure Shows (v : FullBook S) (sb : SourcedOrderbook) : Prop where
  /-- The bids are. -/
  bids : sb.book.bids = v.bids.window .bids
  /-- The asks are. -/
  asks : sb.book.asks = v.asks.window .asks

/-- **A maintained book follows a history**: every frame applies, and after it
the book is the window. -/
def Follows : SourcedOrderbook → List (FullBook S × NormalizedDelta) → Prop
  | _, [] => True
  | sb, (v, d) :: rest => (sb.apply x u d).2 = .ok .applied ∧ v.Shows (sb.apply x u d).1 ∧
      Follows (sb.apply x u d).1 rest

/-- A book of a pair that is checked as Kraken's is. -/
structure KrakenBook (sb : SourcedOrderbook) : Prop where
  /-- It is checked by Kraken's recipe. -/
  model : sb.model = .checksumDelta .krakenTop10
  /-- It has ten levels a side. -/
  depth : sb.book.maxDepth = some 10
  /-- It is of the pair. -/
  pair : sb.book.pair = pair

variable {x u pair} {sb : SourcedOrderbook} {v old new : FullBook S} {d : NormalizedDelta}

theorem krakenBook_new (pair : TradingPair) (recovery : RecoveryAction) :
    KrakenBook pair (SourcedOrderbook.new pair (.checksumDelta .krakenTop10) recovery) :=
  ⟨rfl, rfl, rfl⟩

theorem KrakenBook.apply (h : KrakenBook pair sb) (d : NormalizedDelta) :
    KrakenBook pair (sb.apply x u d).1 := by
  have hbook := SourcedOrderbook.apply_checksummed_book (x := x) (u := u) (d := d) h.model
  refine ⟨(sb.apply_model d).trans h.model, ?_, ?_⟩
  · rw [hbook, OrderbookDelta.process_maxDepth]
    exact h.depth
  · rw [hbook, OrderbookDelta.process_pair]
    exact h.pair

/-- Whatever was applied to it, a Kraken book is one. -/
theorem KrakenBook.applyAll (h : KrakenBook pair sb) (ds : List NormalizedDelta) :
    KrakenBook pair (sb.applyAll x u ds) := by
  induction ds generalizing sb with
  | nil => exact h
  | cons d ds ih => exact ih (h.apply d)

/-- Only the pair of a book decides which symbols it takes. -/
theorem acceptsSymbol_of_pair {ob : OrderbookDelta} (h : ob.pair = pair) (symbol : String) :
    ob.acceptsSymbol u symbol = (OrderbookDelta.new pair).acceptsSymbol u symbol := by
  unfold OrderbookDelta.acceptsSymbol
  rw [h]
  rfl

/-- The checksum of a book is that of its window. -/
theorem checksum_of_shows {ob : OrderbookDelta} (hb : ob.bids = v.bids.window .bids)
    (ha : ob.asks = v.asks.window .asks) :
    Checksum.bookChecksum x .krakenTop10 ob
      = Checksum.bookChecksum x .krakenTop10 (v.window pair) := by
  unfold Checksum.bookChecksum Checksum.krakenTop10 OrderbookDelta.topAsks OrderbookDelta.topBids
  rw [hb, ha]
  rfl

/-- A window is not crossed. -/
theorem not_crossed_of_shows {ob : OrderbookDelta} (hb : ob.bids = v.bids.window .bids)
    (ha : ob.asks = v.asks.window .asks) : SourcedOrderbook.crossed? ob = none := by
  rw [SourcedOrderbook.crossed?_eq_none_iff, hb, ha]
  intro p q hp hq
  obtain ⟨sp, hsp⟩ := Option.isSome_iff_exists.mp hp
  obtain ⟨sq, hsq⟩ := Option.isSome_iff_exists.mp hq
  obtain ⟨b, hb, rfl, -⟩ := sizeAt_eq_some_iff.mp hsp
  obtain ⟨a, ha, rfl, -⟩ := sizeAt_eq_some_iff.mp hsq
  exact v.uncrossed b (mem_of_mem_windowOf hb) a (mem_of_mem_windowOf ha)

/-- A snapshot that applies leaves the window. -/
theorem WindowSnapshot.shows {output : BookOutput} (h : WindowSnapshot x v d)
    (hsb : KrakenBook pair sb) (hok : (sb.apply x u d).2 = .ok output) :
    (sb.apply x u d).1.book.initialized = true ∧ v.Shows (sb.apply x u d).1 := by
  obtain ⟨r, hr⟩ := SourcedOrderbook.process_of_apply_ok hsb.model hok
  obtain ⟨hinit, hb, ha⟩ :=
    OrderbookDelta.process_snapshot_window hsb.depth h.snapshot hr
  have hbook := SourcedOrderbook.apply_checksummed_book (x := x) (u := u) (d := d) hsb.model
  refine ⟨by rw [hbook]; exact hinit, ?_, ?_⟩
  · rw [hbook, hb]
    exact h.bids.window_eq
  · rw [hbook, ha]
    exact h.asks.window_eq

/-- **A frame takes the window of the old book to that of the new one.** -/
theorem WindowFrame.shows (h : WindowFrame x u pair old new d) (hsb : KrakenBook pair sb)
    (hinit : sb.book.initialized = true) (hshows : old.Shows sb) :
    (sb.apply x u d).2 = .ok .applied ∧ (sb.apply x u d).1.book.initialized = true ∧
      new.Shows (sb.apply x u d).1 := by
  have hsym : sb.book.acceptsSymbol u d.symbol = true := by
    rw [acceptsSymbol_of_pair hsb.pair]
    exact h.symbol
  obtain ⟨⟨r, hr⟩, hinit', hb, ha⟩ := OrderbookDelta.process_delta_window (x := x) hsb.depth
    h.delta hsym hinit (by rw [hshows.bids]; exact (applySide_spec h.bids.truthful _).1)
    (by rw [hshows.asks]; exact (applySide_spec h.asks.truthful _).1)
  rw [hshows.bids, h.bids.window_eq] at hb
  rw [hshows.asks, h.asks.window_eq] at ha
  have hbook := SourcedOrderbook.apply_checksummed_book (x := x) (u := u) (d := d) hsb.model
  refine ⟨?_, by rw [hbook]; exact hinit', by rw [hbook]; exact hb, by rw [hbook]; exact ha⟩
  rw [SourcedOrderbook.apply_checksummed_ok hsb.model hr
    (by rw [h.checksum, checksum_of_shows hb ha]) (not_crossed_of_shows hb ha), h.delta]
  rfl

/-- A book that shows the window follows every history from there. -/
theorem FrameHistory.follows {frames : List (FullBook S × NormalizedDelta)}
    (h : FrameHistory x u pair v frames) (hsb : KrakenBook pair sb)
    (hinit : sb.book.initialized = true) (hshows : v.Shows sb) : Follows x u sb frames := by
  induction frames generalizing v sb with
  | nil => exact trivial
  | cons f rest ih =>
    obtain ⟨new, d⟩ := f
    obtain ⟨hframe, hrest⟩ := h
    obtain ⟨hok, hinit', hshows'⟩ := hframe.shows hsb hinit hshows
    exact ⟨hok, hshows', ih hrest (hsb.apply d) hinit' hshows'⟩

/-- **The window is followed.** Whatever a Kraken book has been through: after
a snapshot of the venue's window that applies, every frame of a history
without loss applies, and leaves the venue's window. -/
theorem window_followed (recovery : RecoveryAction) (before : List NormalizedDelta)
    {output : BookOutput} {frames : List (FullBook S × NormalizedDelta)}
    (hsb : (SourcedOrderbook.new pair (.checksumDelta .krakenTop10) recovery).applyAll x u before
      = sb)
    (hsnap : WindowSnapshot x v d) (hok : (sb.apply x u d).2 = .ok output)
    (hframes : FrameHistory x u pair v frames) :
    v.Shows (sb.apply x u d).1 ∧ Follows x u (sb.apply x u d).1 frames := by
  have hkraken : KrakenBook pair sb := hsb ▸ (krakenBook_new pair recovery).applyAll before
  obtain ⟨hinit, hshows⟩ := hsnap.shows hkraken hok
  exact ⟨hshows, hframes.follows (hkraken.apply d) hinit hshows⟩

end FullBook

/-! ## A level that leaves the window and comes back -/

theorem Decimal.value_injOn_whole : Set.InjOn Decimal.value { d | d.scale = 0 } := by
  rintro ⟨m, s⟩ rfl ⟨m', s'⟩ rfl h
  simp only [Decimal.value, pow_zero, Rat.mkRat_one, Rat.intCast_inj] at h
  rw [h]

/-- Whole numbers, written without a point. -/
def Spelling.whole : Spelling where
  prices := { d | d.scale = 0 }
  sizes := { d | d.scale = 0 }
  price_inj := Decimal.value_injOn_whole
  size_inj := Decimal.value_injOn_whole

namespace FullBook

/-- A side of levels of whole price and size, lowest price first. -/
def wholeSide (levels : List (ℕ × ℕ)) (hsorted : levels.Pairwise (fun a b => a.1 < b.1))
    (hpos : ∀ l ∈ levels, 0 < l.2) : VenueSide .whole where
  levels := ⟨levels.map (fun l => (⟨l.1, 0⟩, ⟨l.2, 0⟩)),
    List.pairwise_map.mpr (hsorted.imp (fun h => by
      simpa only [Decimal.value, pow_zero, Rat.mkRat_one, Int.cast_natCast, Nat.cast_lt] using h))⟩
  spelled := List.forall_mem_map.mpr (fun _ _ => ⟨rfl, rfl⟩)
  pos := List.forall_mem_map.mpr (fun l hl => by
    simpa only [Decimal.value, pow_zero, Rat.mkRat_one, Int.cast_natCast, Nat.cast_pos]
      using hpos l hl)

/-- Eleven bids; the lowest is outside the window. -/
def elevenBids : FullBook .whole where
  bids := wholeSide ((List.range 11).map (fun i => (90 + i, 1))) (by decide) (by decide)
  asks := wholeSide [(101, 3)] (by decide) (by decide)
  uncrossed := by decide

/-- The bid at 95 is gone, and the lowest is pulled in. -/
def pulledIn : FullBook .whole where
  bids := wholeSide [(90, 1), (91, 1), (92, 1), (93, 1), (94, 1), (96, 1), (97, 1), (98, 1),
    (99, 1), (100, 1)] (by decide) (by decide)
  asks := wholeSide [(101, 3)] (by decide) (by decide)
  uncrossed := by decide

/-- A bid at 95 is back, and the lowest is pushed out again. -/
def pushedOut : FullBook .whole where
  bids := wholeSide [(90, 1), (91, 1), (92, 1), (93, 1), (94, 1), (95, 2), (96, 1), (97, 1),
    (98, 1), (99, 1), (100, 1)] (by decide) (by decide)
  asks := wholeSide [(101, 3)] (by decide) (by decide)
  uncrossed := by decide

/-- A snapshot of the first window. -/
def windowSnap : NormalizedDelta where
  symbol := "BTC/USDT"
  bids := (List.range 10).map (fun i => (toString (100 - i), "1"))
  asks := [("101", "3")]
  updateId := 0
  sequence := 0
  isSnapshot := true

/-- The frame that pulls the lowest bid in. -/
def pullIn : NormalizedDelta where
  symbol := "BTC/USDT"
  bids := [("95", "0"), ("90", "1")]
  asks := []
  updateId := 0
  sequence := 0
  isSnapshot := false
  checksum := some (Checksum.bookChecksum .plain .krakenTop10 (pulledIn.window ⟨"BTC", "USDT"⟩))

/-- The frame that pushes it out. -/
def pushOut : NormalizedDelta where
  symbol := "BTC/USDT"
  bids := [("95", "2")]
  asks := []
  updateId := 0
  sequence := 0
  isSnapshot := false
  checksum := some (Checksum.bookChecksum .plain .krakenTop10 (pushedOut.window ⟨"BTC", "USDT"⟩))

theorem windowSnap_snapshot : WindowSnapshot .plain elevenBids windowSnap :=
  ⟨rfl, ⟨by decide, by decide⟩, ⟨by decide, by decide⟩⟩

theorem windowSnap_ok : ((SourcedOrderbook.new ⟨"BTC", "USDT"⟩ (.checksumDelta .krakenTop10)
    .resubscribe).apply .plain ⟨id, id⟩ windowSnap).2 = .ok .snapshot := by
  decide

theorem pullIn_frame :
    WindowFrame .plain ⟨id, id⟩ ⟨"BTC", "USDT"⟩ elevenBids pulledIn pullIn :=
  ⟨rfl, by decide, ⟨by decide, by decide, by decide⟩,
    ⟨by decide, by decide, by decide⟩, rfl⟩

theorem pushOut_frame :
    WindowFrame .plain ⟨id, id⟩ ⟨"BTC", "USDT"⟩ pulledIn pushedOut pushOut :=
  ⟨rfl, by decide, ⟨by decide, by decide, by decide⟩,
    ⟨by decide, by decide, by decide⟩, rfl⟩

/-- **A bid is pulled into the window and pushed out again**, and the
maintained book follows. -/
theorem window_followed_in_and_out :
    elevenBids.Shows ((SourcedOrderbook.new ⟨"BTC", "USDT"⟩ (.checksumDelta .krakenTop10)
        .resubscribe).apply .plain ⟨id, id⟩ windowSnap).1 ∧
      Follows .plain ⟨id, id⟩ ((SourcedOrderbook.new ⟨"BTC", "USDT"⟩
        (.checksumDelta .krakenTop10) .resubscribe).apply .plain ⟨id, id⟩ windowSnap).1
        [(pulledIn, pullIn), (pushedOut, pushOut)] :=
  window_followed .resubscribe [] rfl windowSnap_snapshot windowSnap_ok
    ⟨pullIn_frame, pushOut_frame, trivial⟩

end FullBook
