import Aetelier.RecordFiles
import Aetelier.StableSort
import Mathlib.Data.List.Forall2

/-!
# What the validator sees of a batch of order books

The validator tests the order books of a file after they have been read, and
the reader puts the rows of a file together by symbol and time before anything
is tested. Two books of one symbol and time are then one book, and the books
of a symbol come in the order of their times, whatever the order they were
written in. So the test for a repeated timestamp and the test for the order
can only fail by accident: on the times of two different symbols in one file.

The columns of prices and sizes are of floating-point numbers, so what is
tested are not the decimals that were written, and two prices can be read as
one. A merged book holds every price its parts are read with, so a book that is
crossed as it is read is seen. A volume need not be: where two rows of one
symbol and time are read at one price, the one of the greater rank prevails.

`ValidateCall.missesNothing_iff` says for which batches nothing is missed.
-/

namespace Orderbook

/-- The canonical symbol of a book. -/
def symbol (ob : Orderbook) : String := ob.pair.toCanonical

/-- The best bid of the book is not below its best ask. -/
def Crosses (ob : Orderbook) : Prop :=
  ∃ b ∈ ob.bids.entries, ∃ a ∈ ob.asks.entries, a.2.price.value ≤ b.2.price.value

/-- The book holds a price or a volume that is not positive. -/
def HoldsNonPositive (ob : Orderbook) : Prop :=
  ∃ e ∈ ob.bids.entries ++ ob.asks.entries, e.2.price.value ≤ 0 ∨ e.2.volume.value ≤ 0

end Orderbook

/-! ## The columns of a file -/

/-- **A row as it lies in a file**: its price and its size are floating-point
numbers. -/
structure ObFileRow (F : Type) where
  orderbookTsUs : ℕ
  symbol : String
  exchange : String
  side : String
  level : ℕ
  price : F
  size : F
  sourceOrderbookTsUs : ℕ
  localOrderbookTsUs : ℕ
  sourceOrderbookRttUs : ℕ

/-- A file as it lies on the disk. -/
structure ObColumns (F : Type) where
  /-- The number of columns. -/
  columns : ℕ
  /-- The rows. -/
  rows : List (ObFileRow F)

/-- The groups of some rows. -/
def groupsOfRows (columns : ℕ) (rows : List ObRow) : BookGroups :=
  rows.foldl (OrdMap.upsert ObFile.key (ObFile.fresh columns) ObFile.push) .empty

/-- **A file that can be read**: every side is one, and every symbol a pair. -/
def ObFile.CanBeRead (u : Unicode) (file : ObFile) : Prop :=
  ∀ r ∈ file.rows, (r.side = "bid" ∨ r.side = "ask") ∧ (TradingPair.fromStr u r.symbol).isSome

instance (u : Unicode) (file : ObFile) : Decidable (file.CanBeRead u) :=
  inferInstanceAs (Decidable (∀ r ∈ file.rows, _ ∧ _))

section Columns

variable {F : Type} (x : StoredFloats F)

/-- The row that is written: `decimal_to_f64` of the price and of the size. -/
def ObRow.write (r : ObRow) : ObFileRow F where
  orderbookTsUs := r.orderbookTsUs
  symbol := r.symbol
  exchange := r.exchange
  side := r.side
  level := r.level
  price := x.ofDecimal r.price
  size := x.ofDecimal r.size
  sourceOrderbookTsUs := r.sourceOrderbookTsUs
  localOrderbookTsUs := r.localOrderbookTsUs
  sourceOrderbookRttUs := r.sourceOrderbookRttUs

/-- The row that is read: `f64_to_decimal` of both, as a level is built. -/
def ObFileRow.read (r : ObFileRow F) : ObRow where
  orderbookTsUs := r.orderbookTsUs
  symbol := r.symbol
  exchange := r.exchange
  side := r.side
  level := r.level
  price := x.toDecimal r.price
  size := x.toDecimal r.size
  sourceOrderbookTsUs := r.sourceOrderbookTsUs
  localOrderbookTsUs := r.localOrderbookTsUs
  sourceOrderbookRttUs := r.sourceOrderbookRttUs

/-- The file the reader finds. -/
def ObColumns.read (file : ObColumns F) : ObFile :=
  ⟨file.columns, file.rows.map (ObFileRow.read x)⟩

/-- The rows of a batch as they are read. -/
def rowsRead (batch : List Orderbook) : List ObRow :=
  (batch.flatMap Orderbook.rows).map (fun r => (r.write x).read x)

end Columns

/-- **A call of the validator on a file of order books.** -/
structure ValidateCall (F : Type) where
  floats : StoredFloats F
  unicode : Unicode
  reader : BatchReader
  cli : ValidateCli
  dir : String
  exchange : String
  sizeBytes : ℕ
  name : String

namespace ValidateCall

variable {F : Type}

/-- Two books of a symbol share a timestamp. -/
def SharesTime (batch : List Orderbook) : Prop := ¬ (batch.map Orderbook.fileKey).Nodup

/-- Two books of a symbol were written out of time order. -/
def OutOfOrder (batch : List Orderbook) : Prop :=
  ¬ batch.Pairwise (fun a b => a.symbol = b.symbol → a.orderbookTsUs ≤ b.orderbookTsUs)

/-- The file of a batch. -/
def written (v : ValidateCall F) (batch : List Orderbook) : ObColumns F :=
  ⟨10, (batch.flatMap Orderbook.rows).map (ObRow.write v.floats)⟩

/-- The validator reports a test on a file. -/
def Reports (v : ValidateCall F) (file : ObColumns F) (test : TestId) : Prop :=
  ∃ report, Validate.orderbookFile v.unicode v.reader v.cli v.dir v.exchange v.sizeBytes v.name
    (file.read v.floats) = .ok report ∧ test.code ∈ report.failed

/-- **The validator misses nothing** in the file of a batch. -/
structure MissesNothing (v : ValidateCall F) (batch : List Orderbook) : Prop where
  /-- Two books of a symbol that share a timestamp are reported. -/
  sharesTime : SharesTime batch → v.Reports (v.written batch) .uniqueOrderbookTs
  /-- So are two that were written out of time order. -/
  outOfOrder : OutOfOrder batch → v.Reports (v.written batch) .monotonicTimestamps
  /-- So is a crossed book. -/
  crosses : (∃ ob ∈ batch, ob.Crosses) → v.Reports (v.written batch) .notCrossedOrderbook
  /-- So is a price or a volume that is not positive. -/
  nonPositive : (∃ ob ∈ batch, ob.HoldsNonPositive) →
    v.Reports (v.written batch) .positivePricesSizes

/-- The symbol of every book with a level reads as a pair. -/
def Readable (u : Unicode) (batch : List Orderbook) : Prop :=
  ∀ ob ∈ batch, ob.HasLevel → (TradingPair.fromStr u ob.symbol).isSome

/-- Two rows stand for one level: the symbol, time, side and price are the
same. -/
def samePlace (r r' : ObRow) : Bool :=
  decide (ObFile.key r' = ObFile.key r ∧ (r'.side = "bid" ↔ r.side = "bid") ∧
    r'.price.value = r.price.value)

/-- A row prevails: none of its place has a greater rank, or its rank and a
later place in the file. -/
def Prevails (rows : List ObRow) (r : ObRow) : Prop :=
  StableSort.prevails ObRow.level (samePlace r) rows = some r

/-- A bid and an ask of one symbol and time cross. -/
def RowsCross (rows : List ObRow) : Prop :=
  ∃ b ∈ rows, ∃ a ∈ rows, ObFile.key b = ObFile.key a ∧ b.side = "bid" ∧ a.side ≠ "bid" ∧
    a.price.value ≤ b.price.value

/-- **No defect of the batch is masked**: its symbols can be read; what is
wrong with the times of one symbol is wrong between two symbols as well; and of
the rows as they are read, a bid and an ask still cross, and what is not
positive prevails somewhere. -/
structure Unmasked (x : StoredFloats F) (u : Unicode) (batch : List Orderbook) : Prop where
  readable : (SharesTime batch ∨ OutOfOrder batch ∨ (∃ ob ∈ batch, ob.Crosses) ∨
    ∃ ob ∈ batch, ob.HoldsNonPositive) → Readable u batch
  sharesTime : SharesTime batch → ∃ a ∈ batch, ∃ b ∈ batch, a.HasLevel ∧ b.HasLevel ∧
    a.symbol ≠ b.symbol ∧ a.orderbookTsUs = b.orderbookTsUs
  outOfOrder : OutOfOrder batch → ∃ a ∈ batch, ∃ b ∈ batch, a.HasLevel ∧ b.HasLevel ∧
    a.symbol < b.symbol ∧ b.orderbookTsUs < a.orderbookTsUs
  crosses : (∃ ob ∈ batch, ob.Crosses) → RowsCross (rowsRead x batch)
  nonPositive : (∃ ob ∈ batch, ob.HoldsNonPositive) →
    ∃ r, Prevails (rowsRead x batch) r ∧ (r.price.value ≤ 0 ∨ r.size.value ≤ 0)

end ValidateCall

/-! ## The tests -/

namespace Validate

/-- The loop finds a timestamp seen before exactly if one is repeated. -/
theorem seenTs_iff (seen ts : List ℕ) (hseen : seen.Nodup) :
    (seenTs seen ts).2 = true ↔ ¬ (seen.reverse ++ ts).Nodup := by
  induction ts generalizing seen with
  | nil =>
    rw [List.append_nil]
    exact iff_of_false (fun h => by cases h) (not_not_intro (List.nodup_reverse.mpr hseen))
  | cons t ts ih =>
    unfold seenTs
    split
    · next hmem =>
      refine iff_of_true rfl (fun hnodup => ?_)
      exact (List.nodup_append.mp hnodup).2.2 t (List.mem_reverse.mpr hmem) t
        List.mem_cons_self rfl
    · next hmem =>
      rw [ih (t :: seen) (List.nodup_cons.mpr ⟨hmem, hseen⟩), List.reverse_cons,
        List.append_assoc, List.singleton_append]

/-- The times are monotonic exactly if each is no greater than any later
one. -/
theorem monotonic_iff (ts : List ℕ) : monotonic ts = true ↔ ts.Pairwise (· ≤ ·) := by
  induction ts with
  | nil => exact iff_of_true rfl List.Pairwise.nil
  | cons a ts ih =>
    cases ts with
    | nil => exact iff_of_true rfl (List.pairwise_singleton _ _)
    | cons b ts =>
      rw [monotonic, Bool.and_eq_true, decide_eq_true_eq, ih, List.pairwise_cons (a := a)]
      refine and_congr_left (fun hrest => ⟨fun hab c hc => ?_, fun h => h b List.mem_cons_self⟩)
      rcases List.mem_cons.mp hc with rfl | hc
      · exact hab
      · exact hab.trans ((List.pairwise_cons.mp hrest).1 c hc)

/-- The codes of tests that fail. -/
theorem mem_codes {tests : List (Bool × TestId)} {code : String} :
    code ∈ codes tests ↔ ∃ t ∈ tests, t.1 = true ∧ t.2.code = code := by
  unfold codes
  rw [List.mem_map]
  constructor
  · rintro ⟨t, ht, hcode⟩
    obtain ⟨hmem, hfail⟩ := List.mem_filter.mp ht
    exact ⟨t, hmem, hfail, hcode⟩
  · rintro ⟨t, hmem, hfail, hcode⟩
    exact ⟨t, List.mem_filter.mpr ⟨hmem, hfail⟩, hcode⟩

/-- Codes tell the tests apart. -/
theorem code_injective : Function.Injective TestId.code := by
  intro s t h
  cases s <;> cases t <;> first | rfl | exact absurd h (by decide)

/-- A test is among the codes of a list exactly if an entry of it failed. -/
theorem code_mem_codes {tests : List (Bool × TestId)} {test : TestId} :
    test.code ∈ codes tests ↔ (true, test) ∈ tests := by
  rw [mem_codes]
  constructor
  · rintro ⟨⟨failed, test'⟩, hmem, hfailed, hcode⟩
    obtain rfl := code_injective hcode
    obtain rfl : failed = true := hfailed
    exact hmem
  · exact fun hmem => ⟨_, hmem, rfl, rfl⟩

/-- The tests of a file of order books, and whether they failed. -/
def orderbookTests (name : String) (sizeBytes : ℕ) (cli : ValidateCli) (books : List Orderbook) :
    List (Bool × TestId) :=
  let ts := books.map Orderbook.orderbookTsUs
  [(!matchesConvention name .orderbook, .filenameConvention),
    ((seenTs [] ts).2, .uniqueOrderbookTs), (books.any crossed, .notCrossedOrderbook),
    (books.any nonPositive, .positivePricesSizes),
    (decide (sizeBytes = 0 ∨ books.length = 0), .fileNonEmpty),
    (!monotonic ts, .monotonicTimestamps),
    (!spanInRange cli .orderbook (ts.getLast?.getD 0 - ts.head?.getD 0), .flushSpan)]

theorem codes_append (l m : List (Bool × TestId)) : codes (l ++ m) = codes l ++ codes m := by
  unfold codes
  rw [List.filter_append, List.map_append]

/-- **The report on a file of order books** fails what fails of its tests. -/
theorem failed_report (dir name exchange : String) (sizeBytes : ℕ) (cli : ValidateCli)
    (books : List Orderbook) :
    (report dir name exchange .orderbook sizeBytes cli (orderbooks books)).failed
      = codes (orderbookTests name sizeBytes cli books) := by
  cases books with
  | nil =>
    show codes [_] ++ codes [(false, .uniqueOrderbookTs), (false, .notCrossedOrderbook),
      (false, .positivePricesSizes)] ++ codes [_, _, _] = codes _
    rw [← codes_append, ← codes_append]
    rfl
  | cons ob books =>
    unfold report orderbooks
    rw [if_neg (List.cons_ne_nil _ _)]
    show codes [_] ++ codes [_, _, _] ++ codes [_, _, _] = codes _
    rw [← codes_append, ← codes_append]
    rfl

end Validate

/-! ## The books that are read -/

namespace ValidateCall

variable {F : Type} {x : StoredFloats F} {u : Unicode} {path : String} {batch : List Orderbook}
variable {columns : ℕ}

/-- **The rows of a batch keep their places** when they are written and read. -/
theorem map_rowsRead {β : Type} {f : ObRow → β} (hf : ∀ r, f ((ObRow.write x r).read x) = f r) :
    (rowsRead x batch).map f = (batch.flatMap Orderbook.rows).map f := by
  unfold rowsRead
  rw [List.map_map]
  exact List.map_congr_left (fun r _ => hf r)

/-- The rows that are read are of the books with a level. -/
theorem exists_rowsRead_iff {k : String × ℕ} :
    (∃ r ∈ rowsRead x batch, ObFile.key r = k) ↔ ∃ ob ∈ batch, ob.HasLevel ∧ ob.fileKey = k := by
  rw [← List.mem_map, map_rowsRead (f := ObFile.key) (fun _ => rfl), List.mem_map]
  constructor
  · rintro ⟨r, hr, rfl⟩
    obtain ⟨ob, hob, hr⟩ := List.mem_flatMap.mp hr
    exact ⟨ob, hob, Orderbook.rows_ne_nil_iff.mp (List.ne_nil_of_mem hr),
      (Orderbook.key_of_mem_rows hr).symm⟩
  · rintro ⟨ob, hob, hlevel, rfl⟩
    obtain ⟨r, hr⟩ := List.exists_mem_of_ne_nil _ (Orderbook.rows_ne_nil_iff.mpr hlevel)
    exact ⟨r, List.mem_flatMap.mpr ⟨ob, hob, hr⟩, Orderbook.key_of_mem_rows hr⟩

/-- The rows that are read are of one side or the other. -/
theorem side_of_mem_rowsRead {r : ObRow} (hr : r ∈ rowsRead x batch) :
    r.side = "bid" ∨ r.side = "ask" := by
  obtain ⟨r', hr', rfl⟩ := List.mem_map.mp hr
  obtain ⟨ob, -, hr'⟩ := List.mem_flatMap.mp hr'
  obtain ⟨side, idx, l, rfl⟩ := Orderbook.mem_rows hr'
  cases side
  · exact Or.inl rfl
  · exact Or.inr rfl

/-- A key has a group exactly if it has a row. -/
theorem mem_keys_groupsOfRows {rows : List ObRow} {k : String × ℕ} :
    k ∈ (groupsOfRows columns rows).entries.map Prod.fst ↔ ∃ r ∈ rows, ObFile.key r = k := by
  have hsome : ((groupsOfRows columns rows).get? (toLex k)).isSome
      ↔ ∃ r ∈ rows, toLex (ObFile.key r) = toLex k := OrdMap.isSome_get?_foldl_upsert rows _
  rw [List.mem_map]
  constructor
  · rintro ⟨e, he, rfl⟩
    obtain ⟨r, hr, hkey⟩ := hsome.mp (by rw [OrdMap.get?_of_mem _ he]; rfl)
    exact ⟨r, hr, toLex_injective_key hkey⟩
  · rintro ⟨r, hr, rfl⟩
    obtain ⟨g, hg⟩ := Option.isSome_iff_exists.mp (hsome.mpr ⟨r, hr, rfl⟩)
    obtain ⟨k, hk, hmem⟩ := OrdMap.mem_of_get? hg
    exact ⟨_, hmem, toLex_injective_key hk⟩

/-- The groups of the file of a batch are those of its books with a level. -/
theorem mem_keys_readGroups {k : String × ℕ} :
    k ∈ (groupsOfRows 10 (rowsRead x batch)).entries.map Prod.fst
      ↔ ∃ ob ∈ batch, ob.HasLevel ∧ ob.fileKey = k :=
  mem_keys_groupsOfRows.trans exists_rowsRead_iff

/-- A group has the symbol of its key. -/
theorem symbol_of_mem_groupsOfRows {rows : List ObRow} {e : (String × ℕ) × BookGroup}
    (he : e ∈ (groupsOfRows columns rows).entries) : e.2.symbol = e.1.1 := by
  have hget := (groupsOfRows columns rows).get?_of_mem he
  rw [groupsOfRows, OrdMap.get?_foldl_upsert, ObFile.gather_push] at hget
  obtain ⟨r, hr, hg⟩ := Option.map_eq_some_iff.mp hget
  have hkey := (List.mem_filter.mp (List.mem_of_mem_head? hr)).2
  rw [← hg, ← toLex_injective_key (of_decide_eq_true hkey)]
  rfl

/-- The books read are the books of the groups, one to a group. -/
theorem forall₂_of_toOrderbooks {entries : List ((String × ℕ) × BookGroup)}
    {books : List Orderbook} (h : toOrderbooks u path entries = .ok books) :
    List.Forall₂ (fun e ob => e.2.toOrderbook u path e.1.2 = .ok ob) entries books := by
  induction entries generalizing books with
  | nil =>
    cases h
    exact List.Forall₂.nil
  | cons e rest ih =>
    unfold toOrderbooks at h
    split at h
    · next ob hob =>
      cases hrest : toOrderbooks u path rest with
      | error err =>
        rw [hrest] at h
        cases h
      | ok books' =>
        rw [hrest] at h
        cases h
        exact List.Forall₂.cons hob (ih hrest)
    · cases h

/-- The groups make books exactly if every symbol reads as a pair. -/
theorem exists_toOrderbooks_iff {entries : List ((String × ℕ) × BookGroup)} :
    (∃ books, toOrderbooks u path entries = .ok books)
      ↔ ∀ e ∈ entries, (TradingPair.fromStr u e.2.symbol).isSome := by
  induction entries with
  | nil => exact iff_of_true ⟨[], rfl⟩ (fun _ h => absurd h List.not_mem_nil)
  | cons e rest ih =>
    have hfails : ∀ {err : PersistError},
        ¬ ∃ books : List Orderbook, Except.error err = .ok books :=
      fun h => by cases h.choose_spec
    rw [List.forall_mem_cons, ← ih, toOrderbooks]
    unfold BookGroup.toOrderbook
    cases TradingPair.fromStr u e.2.symbol with
    | none => exact iff_of_false hfails (fun h => by cases h.1)
    | some pair =>
      dsimp only
      rw [and_iff_right (show (some pair).isSome = true from rfl)]
      cases toOrderbooks u path rest with
      | error err => exact iff_of_false hfails hfails
      | ok books => exact iff_of_true ⟨_, rfl⟩ ⟨_, rfl⟩

theorem side_of_groupBatch {rows : List ObRow} {i : ℕ} {groups groups' : BookGroups}
    (h : ObFile.groupBatch columns path i groups rows = .ok groups') :
    ∀ r ∈ rows, r.side = "bid" ∨ r.side = "ask" := by
  induction rows generalizing i groups with
  | nil => exact fun r hr => absurd hr List.not_mem_nil
  | cons r rest ih =>
    unfold ObFile.groupBatch at h
    split at h
    · next hside => exact List.forall_mem_cons.mpr ⟨hside, ih h⟩
    · cases h

theorem side_of_groupBatches {batches : List (List ObRow)} {groups groups' : BookGroups}
    (h : ObFile.groupBatches columns path groups batches = .ok groups') :
    ∀ r ∈ batches.flatten, r.side = "bid" ∨ r.side = "ask" := by
  induction batches generalizing groups with
  | nil => exact fun r hr => absurd hr List.not_mem_nil
  | cons batch rest ih =>
    unfold ObFile.groupBatches at h
    split at h
    · next hbatch =>
      rw [List.flatten_cons]
      exact List.forall_mem_append.mpr ⟨side_of_groupBatch hbatch, ih h⟩
    · cases h

/-- **Reading a file** is taking the groups of its rows for books, if every side
is one. -/
theorem loadParquetToOb_eq_ok_iff {reader : BatchReader} {file : ObFile} {books : List Orderbook} :
    loadParquetToOb u reader path file = .ok books ↔
      (∀ r ∈ file.rows, r.side = "bid" ∨ r.side = "ask") ∧
        toOrderbooks u path (groupsOfRows file.columns file.rows).entries = .ok books := by
  have hrows := reader.flatten_batches file.rows
  have hload : (∀ r ∈ file.rows, r.side = "bid" ∨ r.side = "ask") →
      loadParquetToOb u reader path file
        = toOrderbooks u path (groupsOfRows file.columns file.rows).entries := by
    intro hsides
    unfold loadParquetToOb
    rw [ObFile.groupBatches_eq (by rw [hrows]; exact hsides), hrows]
    rfl
  constructor
  · intro h
    have hsides : ∀ r ∈ file.rows, r.side = "bid" ∨ r.side = "ask" := by
      unfold loadParquetToOb at h
      split at h
      · next groups hgroups =>
        have hall := side_of_groupBatches hgroups
        rw [hrows] at hall
        exact hall
      · cases h
    exact ⟨hsides, (hload hsides).symm.trans h⟩
  · rintro ⟨hsides, hbooks⟩
    exact (hload hsides).trans hbooks

/-- A file is read exactly if it can be. -/
theorem exists_loadParquetToOb_iff {reader : BatchReader} {file : ObFile} :
    (∃ books, loadParquetToOb u reader path file = .ok books) ↔ file.CanBeRead u := by
  simp only [loadParquetToOb_eq_ok_iff, exists_and_left, exists_toOrderbooks_iff]
  unfold ObFile.CanBeRead
  have hsymbols : (∀ e ∈ (groupsOfRows file.columns file.rows).entries,
      (TradingPair.fromStr u e.2.symbol).isSome) ↔
        ∀ r ∈ file.rows, (TradingPair.fromStr u r.symbol).isSome := by
    constructor
    · intro h r hr
      obtain ⟨e, he, hkey⟩ := List.mem_map.mp (mem_keys_groupsOfRows.mpr ⟨r, hr, rfl⟩)
      have hsymbol := h e he
      rw [symbol_of_mem_groupsOfRows he, hkey] at hsymbol
      exact hsymbol
    · intro h e he
      obtain ⟨r, hr, hkey⟩ := mem_keys_groupsOfRows.mp (List.mem_map_of_mem he)
      rw [symbol_of_mem_groupsOfRows he, ← hkey]
      exact h r hr
  rw [hsymbols]
  exact ⟨fun h r hr => ⟨h.1 r hr, h.2 r hr⟩, fun h => ⟨fun r hr => (h r hr).1,
    fun r hr => (h r hr).2⟩⟩

/-- The file of a batch, as it is read. -/
theorem read_written (v : ValidateCall F) (batch : List Orderbook) :
    (v.written batch).read v.floats = ⟨10, rowsRead v.floats batch⟩ := by
  unfold written ObColumns.read rowsRead
  rw [List.map_map]
  rfl

/-- **Reading the file of a batch** is taking the groups of its rows for
books. -/
theorem load_written_iff (v : ValidateCall F) (path : String) (batch : List Orderbook)
    (books : List Orderbook) :
    loadParquetToOb v.unicode v.reader path ((v.written batch).read v.floats) = .ok books
      ↔ toOrderbooks v.unicode path (groupsOfRows 10 (rowsRead v.floats batch)).entries
        = .ok books := by
  rw [read_written, loadParquetToOb_eq_ok_iff]
  exact and_iff_right (fun r hr => side_of_mem_rowsRead hr)

variable (path) in
/-- **The file of a batch is read** exactly if the symbols of its books can
be. -/
theorem exists_load_iff (v : ValidateCall F) (batch : List Orderbook) :
    (∃ books, loadParquetToOb v.unicode v.reader path ((v.written batch).read v.floats)
        = .ok books) ↔ Readable v.unicode batch := by
  rw [read_written, exists_loadParquetToOb_iff]
  constructor
  · intro h ob hob hlevel
    obtain ⟨r, hr, hkey⟩ := exists_rowsRead_iff (x := v.floats).mpr ⟨ob, hob, hlevel, rfl⟩
    have hsymbol := (h r hr).2
    rw [show r.symbol = ob.symbol from congrArg Prod.fst hkey] at hsymbol
    exact hsymbol
  · intro h r hr
    obtain ⟨ob, hob, hlevel, hkey⟩ := exists_rowsRead_iff.mp ⟨r, hr, rfl⟩
    refine ⟨side_of_mem_rowsRead hr, ?_⟩
    rw [show r.symbol = ob.symbol from (congrArg Prod.fst hkey).symm]
    exact h ob hob hlevel

/-- The time and the sides of the book of a group. -/
theorem sides_of_toOrderbook {g : BookGroup} {ts : ℕ} {ob : Orderbook}
    (h : g.toOrderbook u path ts = .ok ob) :
    ob.orderbookTsUs = ts ∧
      ob.bids = OrdMap.ofList ((BookGroup.levels .bids g.bids).map (fun l => (l.price, l))) ∧
      ob.asks = OrdMap.ofList ((BookGroup.levels .asks g.asks).map (fun l => (l.price, l))) := by
  unfold BookGroup.toOrderbook at h
  split at h
  · cases h
  · cases h
    exact ⟨rfl, rfl, rfl⟩

/-- What holds of some book that is read holds of its group, and the other way
round. -/
theorem any_iff_of_forall₂ {P : Orderbook → Prop} {Q : (String × ℕ) × BookGroup → Prop}
    {entries : List ((String × ℕ) × BookGroup)} {books : List Orderbook}
    (h : List.Forall₂ (fun e ob => e.2.toOrderbook u path e.1.2 = .ok ob) entries books)
    (hiff : ∀ e ∈ entries, ∀ ob, e.2.toOrderbook u path e.1.2 = .ok ob → (P ob ↔ Q e)) :
    (∃ ob ∈ books, P ob) ↔ ∃ e ∈ entries, Q e := by
  induction h with
  | nil => exact iff_of_false (fun ⟨_, h, _⟩ => by cases h) (fun ⟨_, h, _⟩ => by cases h)
  | cons hob _ ih =>
    rw [List.exists_mem_cons_iff, List.exists_mem_cons_iff, hiff _ List.mem_cons_self _ hob,
      ih (fun e he => hiff e (List.mem_cons_of_mem _ he))]

/-- The times of the books read are those of the keys. -/
theorem map_orderbookTsUs {entries : List ((String × ℕ) × BookGroup)} {books : List Orderbook}
    (h : List.Forall₂ (fun e ob => e.2.toOrderbook u path e.1.2 = .ok ob) entries books) :
    books.map Orderbook.orderbookTsUs = entries.map (fun e => e.1.2) := by
  induction h with
  | nil => rfl
  | cons hob _ ih => rw [List.map_cons, List.map_cons, ih, (sides_of_toOrderbook hob).1]

/-- **What is true of the times of two groups** is true of two books with a
level, the one of the lesser symbol, or of the same symbol and earlier. -/
theorem pairwise_ts_iff {R : ℕ → ℕ → Prop} :
    ((groupsOfRows 10 (rowsRead x batch)).entries.map (fun e => e.1.2)).Pairwise R ↔
      ∀ a ∈ batch, ∀ b ∈ batch, a.HasLevel → b.HasLevel → toLex a.fileKey < toLex b.fileKey →
        R a.orderbookTsUs b.orderbookTsUs := by
  rw [List.pairwise_map, StableSort.pairwise_iff_of_sorted (fun _ _ h => h.asymm)
    (groupsOfRows 10 (rowsRead x batch)).sorted]
  constructor
  · intro h a ha b hb hla hlb hlt
    obtain ⟨e, he, hkey⟩ := List.mem_map.mp (mem_keys_readGroups.mpr ⟨a, ha, hla, rfl⟩)
    obtain ⟨e', he', hkey'⟩ := List.mem_map.mp (mem_keys_readGroups.mpr ⟨b, hb, hlb, rfl⟩)
    have hR := h e he e' he' (by rw [hkey, hkey']; exact hlt)
    rw [hkey, hkey'] at hR
    exact hR
  · intro h e he e' he' hlt
    obtain ⟨a, ha, hla, hkey⟩ := mem_keys_readGroups.mp (List.mem_map_of_mem he)
    obtain ⟨b, hb, hlb, hkey'⟩ := mem_keys_readGroups.mp (List.mem_map_of_mem he')
    rw [← hkey, ← hkey'] at hlt ⊢
    exact h a ha b hb hla hlb hlt

/-- **A timestamp is repeated among the books read** exactly if two books of
different symbols share it. -/
theorem not_nodup_ts_iff :
    ¬ ((groupsOfRows 10 (rowsRead x batch)).entries.map (fun e => e.1.2)).Nodup ↔
      ∃ a ∈ batch, ∃ b ∈ batch, a.HasLevel ∧ b.HasLevel ∧ a.symbol ≠ b.symbol ∧
        a.orderbookTsUs = b.orderbookTsUs := by
  unfold List.Nodup
  rw [pairwise_ts_iff]
  push Not
  constructor
  · rintro ⟨a, ha, b, hb, hla, hlb, hlt, hts⟩
    refine ⟨a, ha, b, hb, hla, hlb, fun hsymbol => hlt.ne ?_, hts⟩
    exact congrArg toLex (Prod.ext hsymbol hts)
  · rintro ⟨a, ha, b, hb, hla, hlb, hsymbol, hts⟩
    have hne : toLex a.fileKey ≠ toLex b.fileKey := fun h =>
      hsymbol (congrArg Prod.fst (toLex_injective_key h))
    rcases lt_or_gt_of_ne hne with hlt | hgt
    · exact ⟨a, ha, b, hb, hla, hlb, hlt, hts⟩
    · exact ⟨b, hb, a, ha, hlb, hla, hgt, hts.symm⟩

/-- **The books read are out of time order** exactly if a book of an earlier
symbol is later than one of a later symbol. -/
theorem not_pairwise_ts_iff :
    ¬ ((groupsOfRows 10 (rowsRead x batch)).entries.map (fun e => e.1.2)).Pairwise (· ≤ ·) ↔
      ∃ a ∈ batch, ∃ b ∈ batch, a.HasLevel ∧ b.HasLevel ∧ a.symbol < b.symbol ∧
        b.orderbookTsUs < a.orderbookTsUs := by
  rw [pairwise_ts_iff]
  push Not
  constructor
  · rintro ⟨a, ha, b, hb, hla, hlb, hlt, hts⟩
    refine ⟨a, ha, b, hb, hla, hlb, ?_, hts⟩
    rcases Prod.Lex.toLex_lt_toLex.mp hlt with hsymbol | ⟨-, hle⟩
    · exact hsymbol
    · exact absurd hts hle.asymm
  · rintro ⟨a, ha, b, hb, hla, hlb, hsymbol, hts⟩
    exact ⟨a, ha, b, hb, hla, hlb, Prod.Lex.toLex_lt_toLex.mpr (.inl hsymbol), hts⟩

/-! ## What a side holds -/

/-- A side as it is read: at each price the row that prevails. -/
theorem get?_ofList_levels (side : OrderSide) (rows : List (ℕ × Decimal × Decimal)) (p : ℚ) :
    (OrdMap.ofList ((BookGroup.levels side rows).map (fun l => (l.price, l))) :
      PriceMap Level).get? p
      = (StableSort.prevails Prod.fst (fun r => decide (r.2.1.value = p)) rows).map
        (fun r => ⟨r.1 % 2 ^ 32, side, r.2.1, r.2.2⟩) := by
  rw [OrdMap.get?_ofList_eq, ← StableSort.getLast?_filter_sort]
  unfold BookGroup.levels
  rw [List.map_map, List.filter_map, List.getLast?_map, Option.map_map]
  rfl

/-- The test a row of a group's side passes at a price. -/
def atPlace (k : String × ℕ) (bid : Bool) (p : ℚ) (r : ObRow) : Bool :=
  decide (r.price.value = p) && (decide (r.side = "bid") == bid) &&
    decide (toLex (ObFile.key r) = toLex k)

/-- The rows of a file at a price, on a side of a group. -/
theorem prevails_side {rows : List ObRow} (k : String × ℕ) (bid : Bool) (p : ℚ) :
    StableSort.prevails Prod.fst (fun r : ℕ × Decimal × Decimal => decide (r.2.1.value = p))
        (((rows.filter (fun r => toLex (ObFile.key r) = toLex k)).filter
          (fun r => decide (r.side = "bid") == bid)).map ObFile.ranked)
      = (StableSort.prevails ObRow.level (atPlace k bid p) rows).map ObFile.ranked := by
  rw [StableSort.prevails_map, StableSort.prevails_filter, StableSort.prevails_filter]
  rfl

/-- A row that prevails at a place prevails. -/
theorem prevails_of_atPlace {rows : List ObRow} {k : String × ℕ} {bid : Bool} {p : ℚ} {r : ObRow}
    (hr : atPlace k bid p r = true) :
    Prevails rows r ↔ StableSort.prevails ObRow.level (atPlace k bid p) rows = some r := by
  unfold atPlace at hr
  rw [Bool.and_eq_true, Bool.and_eq_true, decide_eq_true_eq, beq_iff_eq, decide_eq_true_eq] at hr
  obtain ⟨⟨hprice, hside⟩, hkey⟩ := hr
  have hplace : samePlace r = atPlace k bid p := by
    funext r'
    unfold samePlace atPlace
    rw [← hprice, ← hside, ← hkey, Bool.eq_iff_iff]
    simp only [decide_eq_true_eq, Bool.and_eq_true, beq_iff_eq, decide_eq_decide]
    exact ⟨fun ⟨h₁, h₂, h₃⟩ => ⟨⟨h₃, h₂⟩, congrArg toLex h₁⟩,
      fun ⟨⟨h₃, h₂⟩, h₁⟩ => ⟨toLex_injective_key h₁, h₂, h₃⟩⟩
  unfold Prevails
  rw [hplace]

/-- The level of a row, as it is read. -/
def levelOfRow (side : OrderSide) (r : ObRow) : Level :=
  ⟨r.level % 2 ^ 32, side, r.price, r.size⟩

/-- **What a book that is read holds at a price** is the level of the row that
prevails there. -/
theorem get?_sides {rows : List ObRow} {e : (String × ℕ) × BookGroup}
    (he : e ∈ (groupsOfRows columns rows).entries) {ob : Orderbook}
    (h : e.2.toOrderbook u path e.1.2 = .ok ob) (p : ℚ) :
    ob.bids.get? p
        = (StableSort.prevails ObRow.level (atPlace e.1 true p) rows).map (levelOfRow .bids) ∧
      ob.asks.get? p
        = (StableSort.prevails ObRow.level (atPlace e.1 false p) rows).map (levelOfRow .asks) := by
  have hget := (groupsOfRows columns rows).get?_of_mem he
  rw [groupsOfRows, OrdMap.get?_foldl_upsert, ObFile.gather_push] at hget
  obtain ⟨r, -, hg⟩ := Option.map_eq_some_iff.mp hget
  obtain ⟨-, hbids, hasks⟩ := sides_of_toOrderbook h
  constructor
  · have hrows : e.2.bids = ((rows.filter
        (fun r => toLex (ObFile.key r) = toLex e.1)).filter
          (fun r => decide (r.side = "bid") == true)).map ObFile.ranked := by
      rw [← hg]
      refine congrArg (List.map ObFile.ranked) (List.filter_congr (fun r _ => ?_))
      rw [beq_true]
    rw [hbids, get?_ofList_levels, hrows, prevails_side, Option.map_map]
    rfl
  · have hrows : e.2.asks = ((rows.filter
        (fun r => toLex (ObFile.key r) = toLex e.1)).filter
          (fun r => decide (r.side = "bid") == false)).map ObFile.ranked := by
      rw [← hg]
      refine congrArg (List.map ObFile.ranked) (List.filter_congr (fun r _ => ?_))
      rw [beq_false, decide_not]
    rw [hasks, get?_ofList_levels, hrows, prevails_side, Option.map_map]
    rfl

/-- A side has an entry with a property exactly if it answers with one. -/
theorem exists_entry_iff {side : PriceMap Level} {P : ℚ → Level → Prop} :
    (∃ e ∈ side.entries, P e.1.value e.2) ↔ ∃ p l, side.get? p = some l ∧ P p l := by
  constructor
  · rintro ⟨e, he, hP⟩
    exact ⟨_, _, side.get?_of_mem he, hP⟩
  · rintro ⟨p, l, hget, hP⟩
    obtain ⟨k, rfl, hmem⟩ := OrdMap.mem_of_get? hget
    exact ⟨_, hmem, hP⟩

/-- What is not positive in a side that is read is a row that prevails. -/
theorem exists_nonPositive_side {rows : List ObRow} {k : String × ℕ} {bid : Bool}
    {side : OrderSide} {m : PriceMap Level}
    (hget : ∀ p, m.get? p
      = (StableSort.prevails ObRow.level (atPlace k bid p) rows).map (levelOfRow side)) :
    (∃ e ∈ m.entries, e.1.value ≤ 0 ∨ e.2.volume.value ≤ 0) ↔
      ∃ r, Prevails rows r ∧ ObFile.key r = k ∧ decide (r.side = "bid") = bid ∧
        (r.price.value ≤ 0 ∨ r.size.value ≤ 0) := by
  rw [exists_entry_iff (P := fun p l => p ≤ 0 ∨ l.volume.value ≤ 0)]
  constructor
  · rintro ⟨p, l, hl, hpos⟩
    rw [hget] at hl
    obtain ⟨r, hr, rfl⟩ := Option.map_eq_some_iff.mp hl
    have hplace := (StableSort.mem_of_prevails hr).2
    refine ⟨r, (prevails_of_atPlace hplace).mpr hr, ?_⟩
    unfold atPlace at hplace
    rw [Bool.and_eq_true, Bool.and_eq_true, decide_eq_true_eq, beq_iff_eq,
      decide_eq_true_eq] at hplace
    obtain ⟨⟨hprice, hside⟩, hkey⟩ := hplace
    exact ⟨toLex_injective_key hkey, hside, hpos.imp (fun hp => hprice.trans_le hp) id⟩
  · rintro ⟨r, hr, hkey, hside, hpos⟩
    have hplace : atPlace k bid r.price.value r = true := by
      unfold atPlace
      rw [hside, hkey]
      simp
    refine ⟨r.price.value, levelOfRow side r, ?_, hpos⟩
    rw [hget, (prevails_of_atPlace hplace).mp hr]
    rfl

/-- **What is not positive is seen** exactly if it prevails. -/
theorem exists_nonPositive_iff {rows : List ObRow} {books : List Orderbook}
    (h : List.Forall₂ (fun e ob => e.2.toOrderbook u path e.1.2 = .ok ob)
      (groupsOfRows columns rows).entries books) :
    books.any Validate.nonPositive = true ↔
      ∃ r, Prevails rows r ∧ (r.price.value ≤ 0 ∨ r.size.value ≤ 0) := by
  have hbook : ∀ e ∈ (groupsOfRows columns rows).entries, ∀ ob,
      e.2.toOrderbook u path e.1.2 = .ok ob →
      (Validate.nonPositive ob = true ↔ ∃ r, Prevails rows r ∧
        ObFile.key r = e.1 ∧ (r.price.value ≤ 0 ∨ r.size.value ≤ 0)) := by
    intro e he ob hob
    have hsplit : Validate.nonPositive ob = true ↔
        (∃ x ∈ ob.bids.entries, x.1.value ≤ 0 ∨ x.2.volume.value ≤ 0) ∨
          ∃ x ∈ ob.asks.entries, x.1.value ≤ 0 ∨ x.2.volume.value ≤ 0 := by
      unfold Validate.nonPositive
      simp only [List.any_append, Bool.or_eq_true, List.any_eq_true, decide_eq_true_eq]
    rw [hsplit, exists_nonPositive_side (fun p => (get?_sides he hob p).1),
      exists_nonPositive_side (fun p => (get?_sides he hob p).2)]
    constructor
    · rintro (⟨r, hr, hkey, -, hpos⟩ | ⟨r, hr, hkey, -, hpos⟩) <;> exact ⟨r, hr, hkey, hpos⟩
    · rintro ⟨r, hr, hkey, hpos⟩
      cases hside : decide (r.side = "bid") with
      | true => exact .inl ⟨r, hr, hkey, hside, hpos⟩
      | false => exact .inr ⟨r, hr, hkey, hside, hpos⟩
  rw [List.any_eq_true, any_iff_of_forall₂ h hbook]
  constructor
  · rintro ⟨e, -, r, hr, -, hpos⟩
    exact ⟨r, hr, hpos⟩
  · rintro ⟨r, hr, hpos⟩
    obtain ⟨e, he, hkey⟩ := List.mem_map.mp
      (mem_keys_groupsOfRows.mpr ⟨r, (StableSort.mem_of_prevails hr).1, rfl⟩)
    exact ⟨e, he, r, hr, hkey.symm, hpos⟩

/-- The prices of a side that is read are those of its rows. -/
theorem exists_price_side {rows : List ObRow} {k : String × ℕ} {bid : Bool} {side : OrderSide}
    {m : PriceMap Level} (hget : ∀ p, m.get? p
      = (StableSort.prevails ObRow.level (atPlace k bid p) rows).map (levelOfRow side))
    (P : ℚ → Prop) :
    (∃ e ∈ m.entries, P e.1.value) ↔
      ∃ r ∈ rows, ObFile.key r = k ∧ decide (r.side = "bid") = bid ∧ P r.price.value := by
  rw [exists_entry_iff (P := fun p _ => P p)]
  constructor
  · rintro ⟨p, l, hl, hP⟩
    rw [hget] at hl
    obtain ⟨r, hr, -⟩ := Option.map_eq_some_iff.mp hl
    obtain ⟨hmem, hplace⟩ := StableSort.mem_of_prevails hr
    unfold atPlace at hplace
    rw [Bool.and_eq_true, Bool.and_eq_true, decide_eq_true_eq, beq_iff_eq,
      decide_eq_true_eq] at hplace
    obtain ⟨⟨hprice, hside⟩, hkey⟩ := hplace
    exact ⟨r, hmem, toLex_injective_key hkey, hside, hprice ▸ hP⟩
  · rintro ⟨r, hr, hkey, hside, hP⟩
    have hplace : atPlace k bid r.price.value r = true := by
      unfold atPlace
      rw [hside, hkey]
      simp
    obtain ⟨r', hr'⟩ := StableSort.isSome_prevails (f := ObRow.level) hr hplace
    refine ⟨r.price.value, levelOfRow side r', ?_, hP⟩
    rw [hget, hr']
    rfl

/-- A book is crossed exactly if two entries of it cross. -/
theorem crossed_iff {ob : Orderbook} :
    Validate.crossed ob = true ↔
      ∃ b ∈ ob.bids.entries, ∃ a ∈ ob.asks.entries, a.1.value ≤ b.1.value := by
  unfold Validate.crossed
  constructor
  · intro h
    split at h
    · next b lb a la hlast hfirst =>
      exact ⟨(b, lb), List.mem_of_getLast? hlast, (a, la), List.mem_of_head? hfirst,
        of_decide_eq_true h⟩
    · cases h
  · rintro ⟨b, hb, a, ha, hle⟩
    cases hlast : ob.bids.last? with
    | none =>
      rw [List.getLast?_eq_none_iff.mp hlast] at hb
      cases hb
    | some best =>
      cases hfirst : ob.asks.first? with
      | none =>
        rw [List.head?_eq_none_iff.mp hfirst] at ha
        cases ha
      | some low =>
        exact decide_eq_true ((OrdMap.first?_le hfirst ha).trans
          (hle.trans (OrdMap.le_last? hlast hb)))

/-- **A crossed book is seen** exactly if two rows cross as they are read. -/
theorem exists_crossed_iff {rows : List ObRow} {books : List Orderbook}
    (h : List.Forall₂ (fun e ob => e.2.toOrderbook u path e.1.2 = .ok ob)
      (groupsOfRows columns rows).entries books) :
    books.any Validate.crossed = true ↔ RowsCross rows := by
  have hbook : ∀ e ∈ (groupsOfRows columns rows).entries, ∀ ob,
      e.2.toOrderbook u path e.1.2 = .ok ob →
      (Validate.crossed ob = true ↔ ∃ b ∈ rows, ObFile.key b = e.1 ∧
        decide (b.side = "bid") = true ∧ ∃ a ∈ rows, ObFile.key a = e.1 ∧
          decide (a.side = "bid") = false ∧ a.price.value ≤ b.price.value) := by
    intro e he ob hob
    have hasks : ∀ p : ℚ, (∃ a ∈ ob.asks.entries, a.1.value ≤ p) ↔ ∃ a ∈ rows,
        ObFile.key a = e.1 ∧ decide (a.side = "bid") = false ∧ a.price.value ≤ p := fun p =>
      exists_price_side (fun q => (get?_sides he hob q).2) (fun q => q ≤ p)
    rw [crossed_iff, ← exists_price_side (fun q => (get?_sides he hob q).1)
      (fun q => ∃ a ∈ rows, ObFile.key a = e.1 ∧ decide (a.side = "bid") = false ∧
        a.price.value ≤ q)]
    exact exists_congr (fun b => and_congr_right (fun _ => hasks b.1.value))
  rw [List.any_eq_true, any_iff_of_forall₂ h hbook]
  simp only [decide_eq_true_eq, decide_eq_false_iff_not]
  constructor
  · rintro ⟨e, -, b, hb, hkey, hbid, a, ha, hkey', hask, hle⟩
    exact ⟨b, hb, a, ha, hkey.trans hkey'.symm, hbid, hask, hle⟩
  · rintro ⟨b, hb, a, ha, hkey, hbid, hask, hle⟩
    obtain ⟨e, he, hentry⟩ := List.mem_map.mp (mem_keys_groupsOfRows.mpr ⟨b, hb, rfl⟩)
    exact ⟨e, he, b, hb, hentry.symm, hbid, a, ha, hkey.symm.trans hentry.symm, hask, hle⟩

/-- A side of a book has a row for each of its levels. -/
theorem exists_row (ob : Orderbook) (side : OrderSide) {levels : List Level} {l : Level}
    (hl : l ∈ levels) : ∃ r ∈ ob.sideRows side levels, r.side = side.asStr ∧ r.price = l.price := by
  obtain ⟨idx, hidx, rfl⟩ := List.mem_iff_getElem.mp hl
  exact ⟨ob.row side idx levels[idx], List.mem_mapIdx.mpr ⟨idx, hidx, rfl⟩, rfl, rfl⟩

/-- **Where storing a decimal keeps the order, every crossed book is seen**,
whatever it is merged with. -/
theorem rowsCross_of_crosses
    (hmono : ∀ d d' : Decimal, d.value ≤ d'.value → (x.stored d).value ≤ (x.stored d').value)
    {ob : Orderbook} (hob : ob ∈ batch) (hcross : ob.Crosses) : RowsCross (rowsRead x batch) := by
  obtain ⟨b, hb, a, ha, hle⟩ := hcross
  obtain ⟨rb, hrb, hbside, hbprice⟩ := exists_row ob .bids
    (List.mem_reverse.mpr (List.mem_map_of_mem (f := Prod.snd) hb))
  obtain ⟨ra, hra, haside, haprice⟩ := exists_row ob .asks
    (List.mem_map_of_mem (f := Prod.snd) ha)
  have hrb : rb ∈ ob.rows := List.mem_append_left _ hrb
  have hra : ra ∈ ob.rows := List.mem_append_right _ hra
  refine ⟨_, List.mem_map_of_mem (List.mem_flatMap.mpr ⟨ob, hob, hrb⟩), _,
    List.mem_map_of_mem (List.mem_flatMap.mpr ⟨ob, hob, hra⟩), ?_, hbside, ?_, ?_⟩
  · exact (Orderbook.key_of_mem_rows hrb).trans (Orderbook.key_of_mem_rows hra).symm
  · show ra.side ≠ "bid"
    rw [haside]
    decide
  · show (x.stored ra.price).value ≤ (x.stored rb.price).value
    rw [hbprice, haprice]
    exact hmono _ _ hle

/-! ## What is missed -/

/-- **What the validator reports** of a batch that was written: nothing if a
symbol cannot be read, and otherwise the tests that fail on the books read. -/
theorem reports_iff (v : ValidateCall F) (batch : List Orderbook) (test : TestId) :
    v.Reports (v.written batch) test ↔
      ∃ books, loadParquetToOb v.unicode v.reader (Str.joinPath v.dir v.name)
        ((v.written batch).read v.floats)
          = .ok books ∧
        (true, test) ∈ Validate.orderbookTests v.name v.sizeBytes v.cli books := by
  unfold Reports Validate.orderbookFile
  cases loadParquetToOb v.unicode v.reader (Str.joinPath v.dir v.name)
        ((v.written batch).read v.floats) with
  | error e => exact iff_of_false (fun ⟨_, h, _⟩ => by cases h) (fun ⟨_, h, _⟩ => by cases h)
  | ok books =>
    constructor
    · rintro ⟨report, hreport, hcode⟩
      cases hreport
      rw [Validate.failed_report, Validate.code_mem_codes] at hcode
      exact ⟨books, rfl, hcode⟩
    · rintro ⟨books', hbooks, htest⟩
      cases hbooks
      refine ⟨_, rfl, ?_⟩
      rw [Validate.failed_report, Validate.code_mem_codes]
      exact htest

section Reported

variable (v : ValidateCall F) (batch : List Orderbook)

/-- A test that says something of the groups of a batch is reported exactly if
the batch is read and it is so. -/
theorem reports_iff_of_groups {test : TestId} {P : Prop}
    (h : ∀ books, List.Forall₂ (fun e ob => e.2.toOrderbook v.unicode
        (Str.joinPath v.dir v.name) e.1.2 = .ok ob)
        (groupsOfRows 10 (rowsRead v.floats batch)).entries books →
      ((true, test) ∈ Validate.orderbookTests v.name v.sizeBytes v.cli books ↔ P)) :
    v.Reports (v.written batch) test ↔ Readable v.unicode batch ∧ P := by
  rw [reports_iff, ← exists_load_iff (Str.joinPath v.dir v.name) v batch]
  have hread : ∀ books, loadParquetToOb v.unicode v.reader (Str.joinPath v.dir v.name)
      ((v.written batch).read v.floats) = .ok books → ((true, test) ∈
        Validate.orderbookTests v.name v.sizeBytes v.cli books ↔ P) := by
    intro books hload
    exact h books (forall₂_of_toOrderbooks ((load_written_iff v _ batch books).mp hload))
  constructor
  · rintro ⟨books, hload, htest⟩
    exact ⟨⟨books, hload⟩, (hread books hload).mp htest⟩
  · rintro ⟨⟨books, hload⟩, hP⟩
    exact ⟨books, hload, (hread books hload).mpr hP⟩

theorem reports_uniqueOrderbookTs_iff :
    v.Reports (v.written batch) .uniqueOrderbookTs ↔ Readable v.unicode batch ∧
      ∃ a ∈ batch, ∃ b ∈ batch, a.HasLevel ∧ b.HasLevel ∧ a.symbol ≠ b.symbol ∧
        a.orderbookTsUs = b.orderbookTsUs := by
  refine reports_iff_of_groups v batch (fun books h => ?_)
  rw [← not_nodup_ts_iff, ← map_orderbookTsUs h]
  have hseen := Validate.seenTs_iff [] (books.map Orderbook.orderbookTsUs) List.nodup_nil
  rw [List.reverse_nil, List.nil_append] at hseen
  rw [← hseen]
  simp [Validate.orderbookTests]

theorem reports_monotonicTimestamps_iff :
    v.Reports (v.written batch) .monotonicTimestamps ↔ Readable v.unicode batch ∧
      ∃ a ∈ batch, ∃ b ∈ batch, a.HasLevel ∧ b.HasLevel ∧ a.symbol < b.symbol ∧
        b.orderbookTsUs < a.orderbookTsUs := by
  refine reports_iff_of_groups v batch (fun books h => ?_)
  rw [← not_pairwise_ts_iff, ← map_orderbookTsUs h, ← Validate.monotonic_iff]
  simp [Validate.orderbookTests]

theorem reports_positivePricesSizes_iff :
    v.Reports (v.written batch) .positivePricesSizes ↔ Readable v.unicode batch ∧
      ∃ r, Prevails (rowsRead v.floats batch) r ∧
        (r.price.value ≤ 0 ∨ r.size.value ≤ 0) := by
  refine reports_iff_of_groups v batch (fun books h => ?_)
  rw [← exists_nonPositive_iff h]
  simp [Validate.orderbookTests]

theorem reports_notCrossedOrderbook_iff :
    v.Reports (v.written batch) .notCrossedOrderbook ↔ Readable v.unicode batch ∧
      RowsCross (rowsRead v.floats batch) := by
  refine reports_iff_of_groups v batch (fun books h => ?_)
  rw [← exists_crossed_iff h]
  simp [Validate.orderbookTests]

end Reported

/-- **When the validator misses nothing in a file of order books**: exactly if
no defect of the batch is masked. -/
theorem missesNothing_iff (v : ValidateCall F) (batch : List Orderbook) :
    v.MissesNothing batch ↔ Unmasked v.floats v.unicode batch := by
  constructor
  · rintro ⟨hshares, horder, hcross, hpos⟩
    refine ⟨?_, fun h => ((reports_uniqueOrderbookTs_iff v batch).mp (hshares h)).2,
      fun h => ((reports_monotonicTimestamps_iff v batch).mp (horder h)).2,
      fun h => ((reports_notCrossedOrderbook_iff v batch).mp (hcross h)).2,
      fun h => ((reports_positivePricesSizes_iff v batch).mp (hpos h)).2⟩
    rintro (h | h | h | h)
    · exact ((reports_uniqueOrderbookTs_iff v batch).mp (hshares h)).1
    · exact ((reports_monotonicTimestamps_iff v batch).mp (horder h)).1
    · exact ((reports_notCrossedOrderbook_iff v batch).mp (hcross h)).1
    · exact ((reports_positivePricesSizes_iff v batch).mp (hpos h)).1
  · rintro ⟨hread, hshares, horder, hcross, hpos⟩
    exact ⟨fun h => (reports_uniqueOrderbookTs_iff v batch).mpr ⟨hread (.inl h), hshares h⟩,
      fun h => (reports_monotonicTimestamps_iff v batch).mpr ⟨hread (.inr (.inl h)), horder h⟩,
      fun h => (reports_notCrossedOrderbook_iff v batch).mpr
        ⟨hread (.inr (.inr (.inl h))), hcross h⟩,
      fun h => (reports_positivePricesSizes_iff v batch).mpr
        ⟨hread (.inr (.inr (.inr h))), hpos h⟩⟩

end ValidateCall
