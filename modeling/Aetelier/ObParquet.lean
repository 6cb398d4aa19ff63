import Aetelier.RowGroups
import Aetelier.MarketTypes
import Aetelier.LeafIndex
import Mathlib.Data.Prod.Lex
import Mathlib.Data.String.Basic

/-!
# Order books in a file

A batch of order books becomes a file of one row per level: the bids of a book
from the best one down, then its asks from the best one up, each with its rank
and with the symbol, the venue and the times of its book. Reading the file
back, the rows are put together again by their symbol and time.

That key does not tell two venues apart, and a book without a level has no
row. `roundTrips_iff` says which batches come back as they went: those with
a level in every book and one book to a symbol and time.

Prices and sizes are floating-point columns. As in the statement of the round
trip, the conversion is taken to be exact, and a row holds the decimals. The
rows of a file are read in batches, of whatever sizes.
-/

/-- A row of an order book file. -/
structure ObRow where
  /-- Time of the book. -/
  orderbookTsUs : ℕ
  /-- Canonical symbol. -/
  symbol : String
  /-- Exchange name. -/
  exchange : String
  /-- `bid` or `ask`. -/
  side : String
  /-- Rank of the level, best first. -/
  level : ℕ
  /-- Price. -/
  price : Decimal
  /-- Volume. -/
  size : Decimal
  /-- Exchange event time. -/
  sourceOrderbookTsUs : ℕ
  /-- Local receipt time. -/
  localOrderbookTsUs : ℕ
  /-- Round trip of the connection. -/
  sourceOrderbookRttUs : ℕ
deriving DecidableEq

/-- A file: how many columns it has, and its rows. Older files lack the last
three columns. -/
structure ObFile where
  /-- The number of columns. -/
  columns : ℕ
  /-- The rows. -/
  rows : List ObRow

/-- How the rows of a file are read, a batch at a time. -/
structure BatchReader where
  /-- The batches. -/
  batches : List ObRow → List (List ObRow)
  /-- They are the rows, in order. -/
  flatten_batches : ∀ rows, (batches rows).flatten = rows

/-- The text of a side. -/
def OrderSide.asStr : OrderSide → String
  | .bids => "bid"
  | .asks => "ask"

/-! ## Writing -/

namespace Orderbook

/-- The row of a level. -/
def row (ob : Orderbook) (side : OrderSide) (idx : ℕ) (l : Level) : ObRow where
  orderbookTsUs := ob.orderbookTsUs
  symbol := ob.pair.toCanonical
  exchange := ob.exchange
  side := side.asStr
  level := idx
  price := l.price
  size := l.volume
  sourceOrderbookTsUs := ob.sourceOrderbookTsUs
  localOrderbookTsUs := ob.localOrderbookTsUs
  sourceOrderbookRttUs := ob.sourceOrderbookRttUs

/-- The rows of a side, best level first. -/
def sideRows (ob : Orderbook) (side : OrderSide) (levels : List Level) : List ObRow :=
  levels.mapIdx (ob.row side)

/-- The rows of a book. Bids are kept by ascending price, and written from the
last one. -/
def rows (ob : Orderbook) : List ObRow :=
  ob.sideRows .bids (ob.bids.entries.map Prod.snd).reverse
    ++ ob.sideRows .asks (ob.asks.entries.map Prod.snd)

/-- What the rows of a book are put together by. -/
def fileKey (ob : Orderbook) : String × ℕ := (ob.pair.toCanonical, ob.orderbookTsUs)

end Orderbook

/-- `write_ob_parquet`. The name of the file is taken from the first book, of
a batch that must have one. -/
def writeObParquet (snapshots : List Orderbook) : Option ObFile :=
  match snapshots with
  | [] => none
  | _ :: _ => some ⟨10, snapshots.flatMap Orderbook.rows⟩

/-! ## Reading -/

/-- The rows of one symbol and time. -/
structure BookGroup where
  symbol : String
  exchange : String
  sourceTsUs : ℕ
  localTsUs : ℕ
  rttUs : ℕ
  /-- Rank, price and size of the bids. -/
  bids : List (ℕ × Decimal × Decimal)
  /-- Rank, price and size of the asks. -/
  asks : List (ℕ × Decimal × Decimal)

/-- The groups, by symbol and time. -/
abbrev BookGroups := OrdMap (String × ℕ) BookGroup (fun k => toLex k)

namespace ObFile

variable (columns : ℕ)

/-- What a row is grouped by. -/
def key (r : ObRow) : String × ℕ := (r.symbol, r.orderbookTsUs)

/-- The group a row begins. -/
def fresh (r : ObRow) : BookGroup where
  symbol := r.symbol
  exchange := r.exchange
  sourceTsUs := if 7 < columns then r.sourceOrderbookTsUs else 0
  localTsUs := if 8 < columns then r.localOrderbookTsUs else 0
  rttUs := if 9 < columns then r.sourceOrderbookRttUs else 0
  bids := []
  asks := []

/-- A row is added to the bids of its group, or to its asks. -/
def push (g : BookGroup) (r : ObRow) : BookGroup :=
  if r.side = "bid" then { g with bids := g.bids ++ [(r.level, r.price, r.size)] }
  else { g with asks := g.asks ++ [(r.level, r.price, r.size)] }

/-- The error of a side that is neither. -/
def unknownSide (path : String) (i : ℕ) (side : String) : PersistError :=
  .parse ("row " ++ toString i ++ ": unknown book side '" ++ side ++ "' in " ++ path)

/-- The loop over the rows of a batch. -/
def groupBatch (path : String) : ℕ → BookGroups → List ObRow → Except PersistError BookGroups
  | _, groups, [] => .ok groups
  | i, groups, r :: rest =>
    if r.side = "bid" ∨ r.side = "ask" then
      groupBatch path (i + 1) (groups.upsert key (fresh columns) push r) rest
    else .error (unknownSide path i r.side)

/-- The loop over the batches. -/
def groupBatches (path : String) : BookGroups → List (List ObRow) →
    Except PersistError BookGroups
  | groups, [] => .ok groups
  | groups, batch :: rest =>
    match groupBatch columns path 0 groups batch with
    | .ok groups => groupBatches path groups rest
    | .error e => .error e

end ObFile

namespace BookGroup

/-- The levels of a side, by rank. A rank is a `u64` in the file and a `u32`
in a book. -/
def levels (side : OrderSide) (rows : List (ℕ × Decimal × Decimal)) : List Level :=
  (rows.mergeSort (fun a b => a.1 ≤ b.1)).map (fun r => ⟨r.1 % 2 ^ 32, side, r.2.1, r.2.2⟩)

/-- The error of a symbol that is not one. -/
def malformedSymbol (path symbol : String) : PersistError :=
  .parse ("malformed symbol '" ++ symbol ++ "' in " ++ path)

/-- The book of a group. -/
def toOrderbook (u : Unicode) (path : String) (ts : ℕ) (g : BookGroup) :
    Except PersistError Orderbook :=
  match TradingPair.fromStr u g.symbol with
  | none => .error (malformedSymbol path g.symbol)
  | some pair =>
    .ok { Orderbook.fromLevels 0 ts pair g.exchange (levels .bids g.bids) (levels .asks g.asks) with
      sourceOrderbookTsUs := g.sourceTsUs
      localOrderbookTsUs := g.localTsUs
      sourceOrderbookRttUs := g.rttUs }

end BookGroup

/-- The books of the groups, up to the first that is none. -/
def toOrderbooks (u : Unicode) (path : String) :
    List ((String × ℕ) × BookGroup) → Except PersistError (List Orderbook)
  | [] => .ok []
  | (key, g) :: rest =>
    match g.toOrderbook u path key.2 with
    | .ok ob => (toOrderbooks u path rest).map (ob :: ·)
    | .error e => .error e

/-- `load_parquet_to_ob`. -/
def loadParquetToOb (u : Unicode) (reader : BatchReader) (path : String) (file : ObFile) :
    Except PersistError (List Orderbook) :=
  match ObFile.groupBatches file.columns path .empty (reader.batches file.rows) with
  | .ok groups => toOrderbooks u path groups.entries
  | .error e => .error e

/-! ## What comes back -/

/-- A price and the volume at it. -/
def Level.quote (l : Level) : Decimal × Decimal := (l.price, l.volume)

/-- **What a file holds of a book.** -/
@[ext] structure StoredBook where
  orderbookTsUs : ℕ
  sourceOrderbookTsUs : ℕ
  localOrderbookTsUs : ℕ
  sourceOrderbookRttUs : ℕ
  pair : TradingPair
  exchange : String
  bids : List (Decimal × Decimal)
  asks : List (Decimal × Decimal)
deriving DecidableEq

/-- The times, symbol, venue and levels of a book. -/
def Orderbook.stored (ob : Orderbook) : StoredBook where
  orderbookTsUs := ob.orderbookTsUs
  sourceOrderbookTsUs := ob.sourceOrderbookTsUs
  localOrderbookTsUs := ob.localOrderbookTsUs
  sourceOrderbookRttUs := ob.sourceOrderbookRttUs
  pair := ob.pair
  exchange := ob.exchange
  bids := ob.bids.entries.map (fun e => e.2.quote)
  asks := ob.asks.entries.map (fun e => e.2.quote)

/-- The batch in the order of symbols and times. -/
def inFileOrder (snapshots : List Orderbook) : List Orderbook :=
  snapshots.mergeSort (fun a b => toLex a.fileKey ≤ toLex b.fileKey)

/-- **The batch comes back as it went**: it is written, the file is read, and
the books read are the books written, each once, in the order of their symbols
and times. -/
def RoundTrips (u : Unicode) (reader : BatchReader) (path : String) (snapshots : List Orderbook) :
    Prop :=
  ∃ file books, writeObParquet snapshots = some file
    ∧ loadParquetToOb u reader path file = .ok books
    ∧ books.map Orderbook.stored = (inFileOrder snapshots).map Orderbook.stored

/-- The levels of a side are by ascending price, as they are in every book
built by `from_levels`. -/
def Ascends (levels : List Level) : Prop :=
  levels.Pairwise (fun a b => a.price.value < b.price.value)

/-- The book has a level. -/
def Orderbook.HasLevel (ob : Orderbook) : Prop := ob.bids.entries ≠ [] ∨ ob.asks.entries ≠ []

/-- **A book that can be read back**: its symbol reads as its pair, and its
levels are in order. -/
structure Orderbook.Readable (u : Unicode) (ob : Orderbook) : Prop where
  symbol : TradingPair.fromStr u ob.pair.toCanonical = some ob.pair
  bids : Ascends (ob.bids.entries.map Prod.snd)
  asks : Ascends (ob.asks.entries.map Prod.snd)

/-! ### The group of one book -/

namespace ObFile

variable {columns : ℕ}

/-- What is kept of a row in its group. -/
def ranked (r : ObRow) : ℕ × Decimal × Decimal := (r.level, r.price, r.size)

theorem foldl_push (g : BookGroup) (rows : List ObRow) :
    rows.foldl push g
      = { g with
          bids := g.bids ++ (rows.filter (fun r => r.side = "bid")).map ranked
          asks := g.asks ++ (rows.filter (fun r => ¬ r.side = "bid")).map ranked } := by
  induction rows generalizing g with
  | nil => simp
  | cons r rest ih =>
    rw [List.foldl_cons, ih]
    unfold push
    by_cases hside : r.side = "bid" <;> simp [hside, ranked]

/-- A group begins with its first row and takes in all of them. -/
theorem gather_push (rows : List ObRow) :
    OrdMap.gather (fresh columns) push rows
      = rows.head?.map (fun r =>
        { fresh columns r with
          bids := (rows.filter (fun r => r.side = "bid")).map ranked
          asks := (rows.filter (fun r => ¬ r.side = "bid")).map ranked }) := by
  cases rows with
  | nil => rfl
  | cons r rest =>
    show some (List.foldl push (fresh columns r) (r :: rest)) = _
    rw [foldl_push]
    rfl

end ObFile

namespace Orderbook

variable {ob : Orderbook}

/-- The rank, price and volume of every level. -/
def ranks (levels : List Level) : List (ℕ × Decimal × Decimal) :=
  levels.mapIdx (fun idx l => (idx, l.price, l.volume))

/-- The group of a book. -/
def group (ob : Orderbook) : BookGroup where
  symbol := ob.pair.toCanonical
  exchange := ob.exchange
  sourceTsUs := ob.sourceOrderbookTsUs
  localTsUs := ob.localOrderbookTsUs
  rttUs := ob.sourceOrderbookRttUs
  bids := ranks (ob.bids.entries.map Prod.snd).reverse
  asks := ranks (ob.asks.entries.map Prod.snd)

theorem mem_sideRows {side : OrderSide} {levels : List Level} {r : ObRow}
    (h : r ∈ ob.sideRows side levels) : ∃ idx l, r = ob.row side idx l := by
  obtain ⟨idx, hidx, rfl⟩ := List.mem_mapIdx.mp h
  exact ⟨idx, _, rfl⟩

theorem mem_rows {r : ObRow} (h : r ∈ ob.rows) : ∃ side idx l, r = ob.row side idx l := by
  rcases List.mem_append.mp h with h | h
  · exact ⟨.bids, mem_sideRows h⟩
  · exact ⟨.asks, mem_sideRows h⟩

theorem rows_ne_nil_iff : ob.rows ≠ [] ↔ ob.HasLevel := by
  unfold rows sideRows HasLevel
  rw [Ne, List.append_eq_nil_iff, List.mapIdx_eq_nil_iff, List.mapIdx_eq_nil_iff,
    List.reverse_eq_nil_iff, List.map_eq_nil_iff, List.map_eq_nil_iff, not_and_or]

theorem map_ranked_sideRows (side : OrderSide) (levels : List Level) :
    (ob.sideRows side levels).map ObFile.ranked = ranks levels := by
  unfold sideRows ranks
  refine List.ext_getElem? (fun idx => ?_)
  rw [List.getElem?_map, List.getElem?_mapIdx, List.getElem?_mapIdx, Option.map_map]
  rfl

theorem filter_bid_rows :
    ob.rows.filter (fun r => r.side = "bid")
      = ob.sideRows .bids (ob.bids.entries.map Prod.snd).reverse := by
  unfold rows
  rw [List.filter_append, List.filter_eq_self.mpr, List.filter_eq_nil_iff.mpr, List.append_nil]
  · intro r hr
    obtain ⟨idx, l, rfl⟩ := mem_sideRows hr
    show ¬ decide ("ask" = "bid") = true
    decide
  · intro r hr
    obtain ⟨idx, l, rfl⟩ := mem_sideRows hr
    rfl

theorem filter_ask_rows :
    ob.rows.filter (fun r => ¬ r.side = "bid")
      = ob.sideRows .asks (ob.asks.entries.map Prod.snd) := by
  unfold rows
  rw [List.filter_append, List.filter_eq_nil_iff.mpr, List.filter_eq_self.mpr, List.nil_append]
  · intro r hr
    obtain ⟨idx, l, rfl⟩ := mem_sideRows hr
    rfl
  · intro r hr
    obtain ⟨idx, l, rfl⟩ := mem_sideRows hr
    show ¬ decide (¬ "bid" = "bid") = true
    decide

/-- **The rows of a book make its group.** -/
theorem gather_rows (h : ob.HasLevel) :
    OrdMap.gather (ObFile.fresh 10) ObFile.push ob.rows = some ob.group := by
  obtain ⟨r, hr⟩ := Option.isSome_iff_exists.mp (List.isSome_head?.mpr (rows_ne_nil_iff.mpr h))
  obtain ⟨side, idx, l, rfl⟩ := mem_rows (List.mem_of_mem_head? hr)
  rw [ObFile.gather_push, hr, filter_bid_rows, filter_ask_rows, map_ranked_sideRows,
    map_ranked_sideRows]
  rfl

end Orderbook

/-! ### The book of a group -/

/-- The levels read back. -/
def BookGroup.readBack (side : OrderSide) (levels : List Level) : List Level :=
  levels.mapIdx (fun idx l => ⟨idx % 2 ^ 32, side, l.price, l.volume⟩)

theorem BookGroup.levels_ranks (side : OrderSide) (levels : List Level) :
    BookGroup.levels side (Orderbook.ranks levels) = readBack side levels := by
  have hsorted : (Orderbook.ranks levels).Pairwise
      (fun a b => decide (a.1 ≤ b.1) = true) := by
    unfold Orderbook.ranks
    refine List.pairwise_iff_getElem.mpr (fun i j hi hj hlt => decide_eq_true ?_)
    rw [List.getElem_mapIdx, List.getElem_mapIdx]
    exact hlt.le
  unfold BookGroup.levels
  rw [List.mergeSort_of_pairwise hsorted]
  refine List.ext_getElem? (fun idx => ?_)
  unfold Orderbook.ranks readBack
  rw [List.getElem?_map, List.getElem?_mapIdx, List.getElem?_mapIdx, Option.map_map]
  rfl

theorem BookGroup.map_quote_readBack (side : OrderSide) (levels : List Level) :
    (readBack side levels).map Level.quote = levels.map Level.quote := by
  refine List.ext_getElem? (fun idx => ?_)
  unfold readBack
  rw [List.getElem?_map, List.getElem?_map, List.getElem?_mapIdx, Option.map_map]
  rfl

/-- Levels are in order exactly when their prices are. -/
theorem ascends_iff_quotes {levels : List Level} :
    Ascends levels
      ↔ (levels.map Level.quote).Pairwise (fun a b => a.1.value < b.1.value) := by
  rw [List.pairwise_map]
  rfl

/-- **The levels of a side come back as they went exactly when they were in
order.** -/
theorem quotes_ofList_iff (levels : List Level) {read sorted : List Level}
    (hperm : read.Perm sorted) (hquotes : sorted.map Level.quote = levels.map Level.quote) :
    (OrdMap.ofList (read.map (fun l => (l.price, l))) : PriceMap Level).entries.map
        (fun e => e.2.quote) = levels.map Level.quote
      ↔ Ascends levels := by
  show List.map (Level.quote ∘ Prod.snd) _ = _ ↔ _
  rw [← List.map_map]
  constructor
  · intro h
    rw [ascends_iff_quotes, ← h]
    exact List.pairwise_map.mpr (OrdMap.values_ofList_sorted read)
  · intro h
    rw [ascends_iff_quotes, ← hquotes, ← ascends_iff_quotes] at h
    rw [OrdMap.values_ofList_of_perm hperm h, hquotes]

/-- **A book's group gives the book back exactly when it can be read.** -/
theorem Orderbook.toOrderbook_group_iff (u : Unicode) (path : String) (ob : Orderbook) :
    (∃ ob', ob.group.toOrderbook u path ob.orderbookTsUs = .ok ob' ∧ ob'.stored = ob.stored)
      ↔ ob.Readable u := by
  have hbids := quotes_ofList_iff (ob.bids.entries.map Prod.snd)
    (List.reverse_perm (BookGroup.readBack .bids (ob.bids.entries.map Prod.snd).reverse)).symm
    (by rw [List.map_reverse, BookGroup.map_quote_readBack, List.map_reverse, List.reverse_reverse])
  have hasks := quotes_ofList_iff (ob.asks.entries.map Prod.snd)
    (List.Perm.refl (BookGroup.readBack .asks (ob.asks.entries.map Prod.snd)))
    (BookGroup.map_quote_readBack _ _)
  rw [List.map_map] at hbids hasks
  unfold BookGroup.toOrderbook
  rw [show ob.group.symbol = ob.pair.toCanonical from rfl]
  cases hpair : TradingPair.fromStr u ob.pair.toCanonical with
  | none =>
    refine iff_of_false ?_ (fun h => ?_)
    · rintro ⟨ob', hob, -⟩
      cases hob
    · cases hpair.symm.trans h.symbol
  | some pair =>
    constructor
    · rintro ⟨ob', hob, hstored⟩
      cases hob
      have hp : pair = ob.pair := congrArg StoredBook.pair hstored
      refine ⟨hp ▸ hpair, hbids.mp ?_, hasks.mp ?_⟩
      · rw [← BookGroup.levels_ranks]
        exact congrArg StoredBook.bids hstored
      · rw [← BookGroup.levels_ranks]
        exact congrArg StoredBook.asks hstored
    · intro h
      cases hpair.symm.trans h.symbol
      refine ⟨_, rfl, ?_⟩
      have hb := hbids.mpr h.bids
      have ha := hasks.mpr h.asks
      rw [← BookGroup.levels_ranks] at hb ha
      unfold Orderbook.stored
      exact StoredBook.ext rfl rfl rfl rfl rfl rfl hb ha

/-! ### The groups of a batch -/

/-- The groups of the rows of a batch. -/
def groupsOf (snapshots : List Orderbook) : BookGroups :=
  (snapshots.flatMap Orderbook.rows).foldl
    (OrdMap.upsert ObFile.key (ObFile.fresh 10) ObFile.push) .empty

theorem ObFile.groupBatch_eq {columns : ℕ} {path : String} {rows : List ObRow}
    (h : ∀ r ∈ rows, r.side = "bid" ∨ r.side = "ask") (i : ℕ) (groups : BookGroups) :
    groupBatch columns path i groups rows
      = .ok (rows.foldl (OrdMap.upsert key (fresh columns) push) groups) := by
  induction rows generalizing i groups with
  | nil => rfl
  | cons r rest ih =>
    rw [groupBatch, if_pos (h r List.mem_cons_self),
      ih (fun r' hr' => h r' (List.mem_cons_of_mem _ hr'))]
    rfl

/-- The sizes of the batches do not matter. -/
theorem ObFile.groupBatches_eq {columns : ℕ} {path : String} {batches : List (List ObRow)}
    (h : ∀ r ∈ batches.flatten, r.side = "bid" ∨ r.side = "ask") (groups : BookGroups) :
    groupBatches columns path groups batches
      = .ok (batches.flatten.foldl (OrdMap.upsert key (fresh columns) push) groups) := by
  induction batches generalizing groups with
  | nil => rfl
  | cons batch rest ih =>
    rw [List.flatten_cons] at h
    rw [groupBatches, groupBatch_eq (fun r hr => h r (List.mem_append_left _ hr))]
    simp only
    rw [ih (fun r hr => h r (List.mem_append_right _ hr)), List.flatten_cons, List.foldl_append]

/-- **Reading a file that was written** is taking its groups for books. -/
theorem loadParquetToOb_written (u : Unicode) (reader : BatchReader) (path : String)
    (snapshots : List Orderbook) :
    loadParquetToOb u reader path ⟨10, snapshots.flatMap Orderbook.rows⟩
      = toOrderbooks u path (groupsOf snapshots).entries := by
  unfold loadParquetToOb
  rw [ObFile.groupBatches_eq]
  · rw [reader.flatten_batches]
    rfl
  · rw [reader.flatten_batches]
    intro r hr
    obtain ⟨ob, -, hr⟩ := List.mem_flatMap.mp hr
    obtain ⟨side, idx, l, rfl⟩ := Orderbook.mem_rows hr
    cases side
    · exact Or.inl rfl
    · exact Or.inr rfl

theorem Orderbook.key_of_mem_rows {ob : Orderbook} {r : ObRow} (h : r ∈ ob.rows) :
    ObFile.key r = ob.fileKey := by
  obtain ⟨side, idx, l, rfl⟩ := mem_rows h
  rfl

theorem toLex_injective_key :
    Function.Injective (fun k : String × ℕ => toLex k) := toLex.injective

/-- A group has the key of a book with a level. -/
theorem mem_keys_groupsOf {snapshots : List Orderbook} {k : String × ℕ} :
    k ∈ (groupsOf snapshots).entries.map Prod.fst
      ↔ ∃ ob ∈ snapshots, ob.HasLevel ∧ ob.fileKey = k := by
  have hsome : k ∈ (groupsOf snapshots).entries.map Prod.fst
      ↔ ((groupsOf snapshots).get? (toLex k)).isSome := by
    rw [Option.isSome_iff_exists, List.mem_map]
    constructor
    · rintro ⟨e, he, rfl⟩
      exact ⟨e.2, (groupsOf snapshots).get?_of_mem he⟩
    · rintro ⟨g, hg⟩
      obtain ⟨k', hk, hmem⟩ := OrdMap.mem_of_get? hg
      exact ⟨_, hmem, toLex_injective_key hk⟩
  rw [hsome, groupsOf, OrdMap.isSome_get?_foldl_upsert]
  constructor
  · rintro ⟨r, hr, hk⟩
    obtain ⟨ob, hob, hr⟩ := List.mem_flatMap.mp hr
    exact ⟨ob, hob, Orderbook.rows_ne_nil_iff.mp (List.ne_nil_of_mem hr),
      (Orderbook.key_of_mem_rows hr).symm.trans (toLex_injective_key hk)⟩
  · rintro ⟨ob, hob, hlevel, rfl⟩
    obtain ⟨r, hr⟩ := List.exists_mem_of_ne_nil _ (Orderbook.rows_ne_nil_iff.mpr hlevel)
    exact ⟨r, List.mem_flatMap.mpr ⟨ob, hob, hr⟩, congrArg toLex (Orderbook.key_of_mem_rows hr)⟩

/-- The rows of a key no other book has are those of its book. -/
theorem filter_flatMap_rows {snapshots : List Orderbook}
    (hdistinct : (snapshots.map Orderbook.fileKey).Nodup) {ob : Orderbook} (hob : ob ∈ snapshots) :
    (snapshots.flatMap Orderbook.rows).filter (fun r => toLex (ObFile.key r) = toLex ob.fileKey)
      = ob.rows := by
  induction snapshots with
  | nil => cases hob
  | cons ob' rest ih =>
    rw [List.map_cons, List.nodup_cons] at hdistinct
    rw [List.flatMap_cons, List.filter_append]
    have hother : ∀ obs : List Orderbook, (∀ o ∈ obs, o.fileKey ≠ ob.fileKey) →
        (obs.flatMap Orderbook.rows).filter (fun r => toLex (ObFile.key r) = toLex ob.fileKey)
          = [] := by
      intro obs hne
      refine List.filter_eq_nil_iff.mpr (fun r hr => ?_)
      obtain ⟨o, ho, hr⟩ := List.mem_flatMap.mp hr
      have hkey := Orderbook.key_of_mem_rows hr
      simpa [hkey] using hne o ho
    have hown : ∀ {o : Orderbook}, o.fileKey = ob.fileKey →
        o.rows.filter (fun r => toLex (ObFile.key r) = toLex ob.fileKey) = o.rows := by
      intro o ho
      refine List.filter_eq_self.mpr (fun r hr => ?_)
      simpa [Orderbook.key_of_mem_rows hr] using ho
    rcases List.mem_cons.mp hob with rfl | hob
    · rw [hown rfl, hother rest (fun o ho heq => hdistinct.1 (heq ▸ List.mem_map_of_mem ho)),
        List.append_nil]
    · have hne : ob'.fileKey ≠ ob.fileKey := fun heq =>
        hdistinct.1 (heq ▸ List.mem_map_of_mem hob)
      have hhead := hother [ob'] (by simpa using hne)
      rw [List.flatMap_cons, List.flatMap_nil, List.append_nil] at hhead
      rw [hhead, List.nil_append, ih hdistinct.2 hob]

/-- The batch in the order of its keys, which are distinct. -/
theorem inFileOrder_sorted {snapshots : List Orderbook}
    (hdistinct : (snapshots.map Orderbook.fileKey).Nodup) :
    (inFileOrder snapshots).Pairwise (fun a b => toLex a.fileKey < toLex b.fileKey) := by
  have hle : (inFileOrder snapshots).Pairwise (fun a b => toLex a.fileKey ≤ toLex b.fileKey) := by
    refine (List.pairwise_mergeSort ?_ ?_ snapshots).imp (fun h => by simpa using h)
    · intro a b c hab hbc
      simp only [decide_eq_true_eq] at hab hbc ⊢
      exact hab.trans hbc
    · intro a b
      simpa using le_total (toLex a.fileKey) (toLex b.fileKey)
  have hne : (inFileOrder snapshots).Pairwise (fun a b => a.fileKey ≠ b.fileKey) := by
    refine List.pairwise_map.mp (List.Perm.nodup ?_ hdistinct)
    exact ((List.mergeSort_perm snapshots _).map _).symm
  exact (hle.and hne).imp (fun h => lt_of_le_of_ne h.1 (fun heq => h.2 (toLex.injective heq)))

/-- **One group to a book**, if every book has a level and a key of its own. -/
theorem entries_groupsOf {snapshots : List Orderbook} (hlevels : ∀ ob ∈ snapshots, ob.HasLevel)
    (hdistinct : (snapshots.map Orderbook.fileKey).Nodup) :
    (groupsOf snapshots).entries
      = (inFileOrder snapshots).map (fun ob => (ob.fileKey, ob.group)) := by
  have hsorted : ((inFileOrder snapshots).map (fun ob => (ob.fileKey, ob.group))).Pairwise
      (fun a b => toLex a.1 < toLex b.1) :=
    List.pairwise_map.mpr (inFileOrder_sorted hdistinct)
  have hget : ∀ ob ∈ snapshots, (groupsOf snapshots).get? (toLex ob.fileKey) = some ob.group := by
    intro ob hob
    rw [groupsOf, OrdMap.get?_foldl_upsert, filter_flatMap_rows hdistinct hob,
      Orderbook.gather_rows (hlevels ob hob)]
  refine OrdMap.eq_of_mem_iff (groupsOf snapshots).sorted hsorted (fun e => ?_)
  rw [List.mem_map]
  constructor
  · intro he
    obtain ⟨ob, hob, -, hkey⟩ := mem_keys_groupsOf.mp (List.mem_map_of_mem he)
    have hg := (groupsOf snapshots).get?_of_mem he
    rw [← hkey, hget ob hob] at hg
    exact ⟨ob, (List.mergeSort_perm snapshots _).mem_iff.mpr hob,
      Prod.ext hkey (Option.some.inj hg)⟩
  · rintro ⟨ob, hob, rfl⟩
    obtain ⟨k, hk, hmem⟩ := OrdMap.mem_of_get?
      (hget ob ((List.mergeSort_perm snapshots _).mem_iff.mp hob))
    rw [← toLex_injective_key hk]
    exact hmem

/-! ### The round trip -/

variable {u : Unicode} {path : String}

theorem length_of_toOrderbooks {entries : List ((String × ℕ) × BookGroup)} {books : List Orderbook}
    (h : toOrderbooks u path entries = .ok books) : books.length = entries.length := by
  induction entries generalizing books with
  | nil =>
    cases h
    rfl
  | cons e rest ih =>
    unfold toOrderbooks at h
    split at h
    · cases hrest : toOrderbooks u path rest with
      | error err =>
        rw [hrest] at h
        cases h
      | ok books' =>
        rw [hrest] at h
        cases h
        exact congrArg (· + 1) (ih hrest)
    · cases h

/-- Groups of books give the books back exactly when each can be read. -/
theorem toOrderbooks_groups_iff (u : Unicode) (path : String) (l : List Orderbook) :
    (∃ books, toOrderbooks u path (l.map (fun ob => (ob.fileKey, ob.group))) = .ok books
        ∧ books.map Orderbook.stored = l.map Orderbook.stored)
      ↔ ∀ ob ∈ l, ob.Readable u := by
  induction l with
  | nil => exact iff_of_true ⟨[], rfl, rfl⟩ (fun _ h => absurd h List.not_mem_nil)
  | cons ob rest ih =>
    rw [List.forall_mem_cons, ← Orderbook.toOrderbook_group_iff u path, ← ih, List.map_cons,
      toOrderbooks]
    constructor
    · rintro ⟨books, hbooks, hstored⟩
      split at hbooks
      · next ob' hob =>
        cases hrest : toOrderbooks u path (rest.map (fun ob => (ob.fileKey, ob.group))) with
        | error e =>
          rw [hrest] at hbooks
          cases hbooks
        | ok books' =>
          rw [hrest] at hbooks
          cases hbooks
          obtain ⟨hhead, htail⟩ := List.cons.inj hstored
          exact ⟨⟨ob', hob, hhead⟩, books', rfl, htail⟩
      · cases hbooks
    · rintro ⟨⟨ob', hob, hhead⟩, books, hbooks, htail⟩
      have hob : BookGroup.toOrderbook u path ob.fileKey.2 ob.group = .ok ob' := hob
      refine ⟨ob' :: books, ?_, ?_⟩
      · rw [hob, hbooks]
        rfl
      · rw [List.map_cons, List.map_cons, hhead, htail]

/-- **Nothing is merged and nothing lost** if a batch comes back as it went:
every book has a level, and a key of its own. -/
theorem levels_and_distinct_of_length {snapshots : List Orderbook}
    (h : (groupsOf snapshots).entries.length = snapshots.length) :
    (∀ ob ∈ snapshots, ob.HasLevel) ∧ (snapshots.map Orderbook.fileKey).Nodup := by
  have hnodup : ((groupsOf snapshots).entries.map Prod.fst).Nodup :=
    List.pairwise_map.mpr ((groupsOf snapshots).sorted.imp
      (fun hlt heq => absurd (congrArg toLex heq) hlt.ne))
  have hsub : (groupsOf snapshots).entries.map Prod.fst ⊆ snapshots.map Orderbook.fileKey := by
    intro k hk
    obtain ⟨ob, hob, -, rfl⟩ := mem_keys_groupsOf.mp hk
    exact List.mem_map_of_mem hob
  -- as many groups as books, so the keys of the groups are the keys of the books
  have hperm := (List.subperm_of_subset hnodup hsub).perm_of_length_le
    (by rw [List.length_map, List.length_map, h])
  have hdistinct := hperm.nodup_iff.mp hnodup
  refine ⟨fun ob hob => ?_, hdistinct⟩
  obtain ⟨ob', hob', hlevel, hkey⟩ := mem_keys_groupsOf.mp
    (hperm.mem_iff.mpr (List.mem_map_of_mem hob))
  rw [← List.inj_on_of_nodup_map hdistinct hob' hob hkey]
  exact hlevel

theorem RoundTrips.levels_and_distinct {reader : BatchReader} {snapshots : List Orderbook}
    (h : RoundTrips u reader path snapshots) :
    (∀ ob ∈ snapshots, ob.HasLevel) ∧ (snapshots.map Orderbook.fileKey).Nodup := by
  obtain ⟨file, books, hwrite, hload, hstored⟩ := h
  cases snapshots with
  | nil => cases hwrite
  | cons ob rest =>
    cases hwrite
    rw [loadParquetToOb_written] at hload
    refine levels_and_distinct_of_length ?_
    rw [← length_of_toOrderbooks hload, ← List.length_map (f := Orderbook.stored), hstored,
      List.length_map, inFileOrder, List.length_mergeSort]

/-- **A batch comes back as it went exactly when every book has a level, no two
books share a symbol and a time, and each can be read by itself.** -/
theorem roundTrips_iff (u : Unicode) (reader : BatchReader) (path : String)
    (snapshots : List Orderbook) :
    RoundTrips u reader path snapshots
      ↔ snapshots ≠ [] ∧ (∀ ob ∈ snapshots, ob.HasLevel)
        ∧ (snapshots.map Orderbook.fileKey).Nodup ∧ ∀ ob ∈ snapshots, ob.Readable u := by
  have hmem : ∀ ob, ob ∈ inFileOrder snapshots ↔ ob ∈ snapshots := fun ob =>
    (List.mergeSort_perm snapshots _).mem_iff
  constructor
  · intro h
    obtain ⟨hlevels, hdistinct⟩ := h.levels_and_distinct
    obtain ⟨file, books, hwrite, hload, hstored⟩ := h
    cases snapshots with
    | nil => cases hwrite
    | cons ob rest =>
      cases hwrite
      refine ⟨List.cons_ne_nil ob rest, hlevels, hdistinct, fun ob' hob' => ?_⟩
      rw [loadParquetToOb_written, entries_groupsOf hlevels hdistinct] at hload
      exact (toOrderbooks_groups_iff u path _).mp ⟨books, hload, hstored⟩ ob' ((hmem ob').mpr hob')
  · rintro ⟨hne, hlevels, hdistinct, hread⟩
    obtain ⟨ob, rest, rfl⟩ := List.exists_cons_of_ne_nil hne
    obtain ⟨books, hload, hstored⟩ := (toOrderbooks_groups_iff u path
      (inFileOrder (ob :: rest))).mpr (fun ob' hob' => hread ob' ((hmem ob').mp hob'))
    refine ⟨_, books, rfl, ?_, hstored⟩
    rw [loadParquetToOb_written, entries_groupsOf hlevels hdistinct]
    exact hload

/-! ### One pair, one time, two venues -/

/-- A book with one ask. -/
def venueBook (exchange : String) : Orderbook :=
  Orderbook.fromLevels 0 1700000000000000 ⟨"BTC", "USDT"⟩ exchange []
    [⟨0, .asks, ⟨36000, 0⟩, ⟨1, 0⟩⟩]

/-- A reader that takes a file in one batch. -/
def wholeReader : BatchReader := ⟨fun rows => [rows], fun _ => List.append_nil _⟩

/-- **The books of two venues are read as one.** -/
theorem not_roundTrips_two_venues :
    ¬ RoundTrips ⟨id, id⟩ wholeReader "ob.parquet" [venueBook "kraken", venueBook "bybit"]
      ∧ (groupsOf [venueBook "kraken", venueBook "bybit"]).entries.length = 1 := by
  refine ⟨fun h => ?_, by decide⟩
  exact absurd h.levels_and_distinct.2 (by decide)
