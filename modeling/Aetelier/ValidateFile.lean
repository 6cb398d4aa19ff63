import Aetelier.ObParquet
import Aetelier.ParquetFlusher
import Aetelier.Entrepot

/-!
# The validator and the files it is run on

The validator reads a parquet file back and reports the tests it fails: the
convention of its name, its rows, its timestamps, the span they cover, and the
content of its order books or trades.

The names are made in another crate. Both writers end them with the time of
the batch, `%Y%m%d_%H%M%S%.3f`, and that text holds an underscore of its own.
The validator takes a name apart at its underscores and wants `sync` in the
last place but one, where it finds the date. So it rejects every file the
flusher writes (`accepted_iff`).

The span is a second such case: the timestamps are microseconds, and the span
they are held against is in milliseconds.

The tolerance of the span is a floating-point number in the source and a
rational one here.
-/

/-! ## The names the flusher gives its files -/

/-- A time as it stands in a name: the date and the time of day. -/
structure DayStamp where
  /-- `%Y%m%d`. -/
  date : String
  /-- `%H%M%S%.3f`. -/
  time : String
  /-- Neither holds an underscore. -/
  date_plain : '_' ∉ date.toList
  time_plain : '_' ∉ time.toList
  /-- A date is digits. -/
  date_ne : date ≠ "sync"

/-- `%Y%m%d_%H%M%S%.3f`. -/
def DayStamp.text (d : DayStamp) : String := d.date ++ "_" ++ d.time

/-- The date library and the clock. -/
structure StampClock where
  /-- `DateTime::from_timestamp_micros`. -/
  fromTimestampMicros : ℕ → Option DayStamp
  /-- `Utc::now`. -/
  now : DayStamp

namespace Naming

/-- `effective_us`. -/
def effectiveUs (primary fallback : ℕ) : ℕ := if 0 < primary then primary else fallback

/-- `batch_stamp`. -/
def batchStamp (clock : StampClock) (tsUs : List ℕ) : DayStamp :=
  let min := (tsUs.filter (fun t => 0 < t)).min?.getD 0
  match clock.fromTimestampMicros min with
  | some d => if 0 < min then d else clock.now
  | none => clock.now

/-- A symbol as it stands in a name. -/
def fileSymbol (canonical : String) : String := Str.replace ":" "_" (Str.replace "/" "-" canonical)

/-- A name up to its suffix. -/
def stem (exchange canonical tag mode : String) (stamp : DayStamp) : String :=
  exchange ++ "_" ++ fileSymbol canonical ++ "_" ++ tag ++ "_" ++ mode ++ "_" ++ stamp.text

/-- The name of a file of order books. -/
def obStem (clock : StampClock) (mode : String) (first : Orderbook) (snapshots : List Orderbook) :
    String :=
  stem first.exchange first.pair.toCanonical "ob" mode (batchStamp clock
    (snapshots.map (fun s => effectiveUs s.orderbookTsUs s.localOrderbookTsUs)))

/-- The name of a file of trades. -/
def tradesStem (clock : StampClock) (mode : String) (trades : List Trade) : String :=
  stem ((trades.head?.map Trade.exchange).getD "unknown")
    ((trades.head?.map (fun t => t.pair.toCanonical)).getD "unknown") "trades" mode
    (batchStamp clock (trades.map (fun t => effectiveUs t.sourceTradeTsUs t.localTradeTsUs)))

/-- The name a file gets in its leaf. It was unique among the staged files and
is made unique among those of the leaf. -/
def finalName (stem : String) (n m : ℕ) : String :=
  Leaf.candidate (Leaf.candidate (stem ++ parquetSuffix) n) m

end Naming

/-! ## Files of trades -/

/-- `TradeSide::from_str_loose`. -/
def TradeSide.fromStr (s : String) : Option TradeSide :=
  if String.ofList (s.toList.map Char.toLower) = "buy" then some .buy
  else if String.ofList (s.toList.map Char.toLower) = "sell" then some .sell
  else none

/-- The text of an origin. -/
def TradeOrigin.asStr : TradeOrigin → String
  | .ws => "ws"
  | .rest => "rest"

/-- `TradeOrigin::from_str`. -/
def TradeOrigin.fromStr (s : String) : Option TradeOrigin :=
  if s = "ws" then some .ws else if s = "rest" then some .rest else none

/-- A row of a file of trades. -/
structure TradeRow where
  sourceTradeTsUs : ℕ
  symbol : String
  side : String
  price : Decimal
  amount : Decimal
  exchange : String
  id : String
  localTradeTsUs : ℕ
  sourceTradeRttUs : ℕ
  origin : String

/-- A file of trades. Older files lack the last columns. -/
structure TradesFile where
  /-- The number of columns. -/
  columns : ℕ
  /-- The rows, in the batches they are read in. -/
  batches : List (List TradeRow)

/-- The row of a trade. -/
def Trade.row (t : Trade) : TradeRow where
  sourceTradeTsUs := t.sourceTradeTsUs
  symbol := t.pair.toCanonical
  side := t.side.asStr
  price := t.price
  amount := t.amount
  exchange := t.exchange
  id := t.id
  localTradeTsUs := t.localTradeTsUs
  sourceTradeRttUs := t.sourceTradeRttUs
  origin := t.origin.asStr

/-- `read_trades_parquet`, of a row. -/
def TradeRow.read (u : Unicode) (path : String) (columns i : ℕ) (r : TradeRow) :
    Except PersistError Trade :=
  let malformed (what text : String) : PersistError :=
    .parse ("row " ++ toString i ++ ": " ++ what ++ " '" ++ text ++ "' in " ++ path)
  match TradingPair.fromStr u r.symbol with
  | none => .error (malformed "malformed symbol" r.symbol)
  | some pair =>
    match TradeSide.fromStr r.side with
    | none => .error (malformed "unknown trade side" r.side)
    | some side =>
      match (if 9 < columns then TradeOrigin.fromStr r.origin else some .ws) with
      | none => .error (malformed "unknown trade origin" r.origin)
      | some origin => .ok {
          sourceTradeTsUs := r.sourceTradeTsUs
          localTradeTsUs := if 7 < columns then r.localTradeTsUs else 0
          sourceTradeRttUs := if 8 < columns then r.sourceTradeRttUs else 0
          pair := pair
          side := side
          amount := r.amount
          price := r.price
          exchange := r.exchange
          id := r.id
          origin := origin }

/-- The rows of a batch, numbered. -/
def readTradeRows (u : Unicode) (path : String) (columns : ℕ) :
    ℕ → List TradeRow → Except PersistError (List Trade)
  | _, [] => .ok []
  | i, r :: rest =>
    match r.read u path columns i with
    | .ok t => (readTradeRows u path columns (i + 1) rest).map (t :: ·)
    | .error e => .error e

/-- `read_trades_parquet`. -/
def readTradesParquet (u : Unicode) (path : String) (columns : ℕ) :
    List (List TradeRow) → Except PersistError (List Trade)
  | [] => .ok []
  | batch :: rest =>
    match readTradeRows u path columns 0 batch with
    | .ok trades => (readTradesParquet u path columns rest).map (trades ++ ·)
    | .error e => .error e

/-! ## The validator -/

/-- The tests. -/
inductive TestId where
  | filesPresent
  | fileNonEmpty
  | filenameConvention
  | monotonicTimestamps
  | flushSpan
  | uniqueOrderbookTs
  | uniqueTradeIds
  | notCrossedOrderbook
  | positivePricesSizes
  | noTemporalOverlap
deriving DecidableEq, Repr

/-- The code of a test. -/
def TestId.code : TestId → String
  | filesPresent => "T01"
  | fileNonEmpty => "T02"
  | filenameConvention => "T03"
  | monotonicTimestamps => "T04"
  | flushSpan => "T05"
  | uniqueOrderbookTs => "T06"
  | uniqueTradeIds => "T07"
  | notCrossedOrderbook => "T08"
  | positivePricesSizes => "T09"
  | noTemporalOverlap => "T10"

/-- What a file is of. -/
inductive DataKind where
  | orderbook
  | trades
deriving DecidableEq, Repr

/-- The options the tests read. -/
structure ValidateCli where
  flushThreshold : ℕ
  gridPeriodMs : ℕ
  spanTolerance : ℚ

/-- The report on a file. -/
structure FileReport where
  path : String
  exchange : String
  symbol : String
  kind : DataKind
  sizeBytes : ℕ
  rowCount : ℕ
  distinctTsCount : ℕ
  firstTs : ℕ
  lastTs : ℕ
  spanMs : ℕ
  failed : List String

/-- What is found in the content of a file. -/
structure FileValidation where
  rowCount : ℕ
  distinctTs : ℕ
  firstTs : ℕ
  lastTs : ℕ
  monotonic : Bool
  failed : List String

/-- A file that is not read. -/
inductive ValidateError where
  | readObParquet (e : PersistError)
  | readTradesParquet (e : PersistError)

namespace Validate

/-- The codes of the tests that fail. -/
def codes (tests : List (Bool × TestId)) : List String :=
  (tests.filter Prod.fst).map (fun t => t.2.code)

/-- Every element is no greater than the next. -/
def monotonic : List ℕ → Bool
  | a :: b :: rest => decide (a ≤ b) && monotonic (b :: rest)
  | _ => true

/-- The loop that looks for a timestamp seen before: the distinct ones up to
it, and whether there is one. -/
def seenTs (seen : List ℕ) : List ℕ → List ℕ × Bool
  | [] => (seen, false)
  | t :: rest => if t ∈ seen then (seen, true) else seenTs (t :: seen) rest

/-- The best bid is not below the best ask. -/
def crossed (ob : Orderbook) : Bool :=
  match ob.bids.last?, ob.asks.first? with
  | some (b, _), some (a, _) => decide (a.value ≤ b.value)
  | _, _ => false

/-- A price or a volume is not positive. -/
def nonPositive (ob : Orderbook) : Bool :=
  (ob.bids.entries ++ ob.asks.entries).any (fun e =>
    decide (e.1.value ≤ 0) || decide (e.2.volume.value ≤ 0))

/-- `validate_orderbook_file`, of the books read. -/
def orderbooks (books : List Orderbook) : FileValidation :=
  if books = [] then ⟨0, 0, 0, 0, true, []⟩
  else
    let ts := books.map Orderbook.orderbookTsUs
    { rowCount := books.length
      distinctTs := (seenTs [] ts).1.length
      firstTs := ts.head?.getD 0
      lastTs := ts.getLast?.getD 0
      monotonic := monotonic ts
      failed := codes [((seenTs [] ts).2, .uniqueOrderbookTs),
        (books.any crossed, .notCrossedOrderbook), (books.any nonPositive, .positivePricesSizes)] }

/-- `validate_trades_file`, of the trades read. -/
def trades (ts : List Trade) : FileValidation :=
  if ts = [] then ⟨0, 0, 0, 0, true, []⟩
  else
    let times := ts.map Trade.sourceTradeTsUs
    { rowCount := ts.length
      distinctTs := times.dedup.length
      firstTs := times.head?.getD 0
      lastTs := times.getLast?.getD 0
      monotonic := monotonic times
      failed := codes [(decide (¬ (ts.map Trade.id).Nodup), .uniqueTradeIds),
        (ts.any (fun t => decide (¬ (0 < t.price.value ∧ 0 < t.amount.value))),
          .positivePricesSizes)] }

/-- `matches_convention`. -/
def matchesConvention (name : String) (kind : DataKind) : Bool :=
  match Str.stripSuffix ".parquet" name with
  | none => false
  | some stem =>
    let parts := Str.split '_' stem
    if parts.length < 4 then false
    else if parts[parts.length - 2]? ≠ some "sync" then false
    else match kind with
      | .orderbook => decide (parts[parts.length - 3]? = some "ob")
      | .trades => decide (parts[parts.length - 3]? = some "trades")

/-- `parse_symbol_from_filename`. -/
def parseSymbolFromFilename (name : String) : Option String :=
  match Str.stripSuffix ".parquet" name with
  | none => none
  | some stem =>
    let parts := Str.split '_' stem
    if parts.length < 4 then none
    else some ("_".intercalate (parts.take (parts.length - 3)))

/-- The span is one the options expect. Of trades, which are sparse, only the
upper bound is asked. The span to expect is a product of 64 bits. -/
def spanInRange (cli : ValidateCli) (kind : DataKind) (span : ℕ) : Bool :=
  let expected : ℚ := ((cli.flushThreshold - 1) * cli.gridPeriodMs % 2 ^ 64 : ℕ)
  if 0 < expected then
    let lo := expected * (1 - cli.spanTolerance)
    let hi := expected * (1 + cli.spanTolerance)
    match kind with
    | .orderbook => decide (lo ≤ span ∧ (span : ℚ) ≤ hi)
    | .trades => decide ((span : ℚ) ≤ hi)
  else true

/-- The report on a file, of what is found in its content. -/
def report (dir name exchange : String) (kind : DataKind) (sizeBytes : ℕ) (cli : ValidateCli)
    (v : FileValidation) : FileReport where
  path := Str.joinPath dir name
  exchange := exchange
  symbol := (parseSymbolFromFilename name).getD ""
  kind := kind
  sizeBytes := sizeBytes
  rowCount := v.rowCount
  distinctTsCount := v.distinctTs
  firstTs := v.firstTs
  lastTs := v.lastTs
  spanMs := v.lastTs - v.firstTs
  failed := codes [(!matchesConvention name kind, .filenameConvention)] ++ v.failed
    ++ codes [(decide (sizeBytes = 0 ∨ v.rowCount = 0), .fileNonEmpty),
      (!v.monotonic, .monotonicTimestamps),
      (!spanInRange cli kind (v.lastTs - v.firstTs), .flushSpan)]

/-- `validate_file`, of a file of order books. -/
def orderbookFile (u : Unicode) (reader : BatchReader) (cli : ValidateCli) (dir exchange : String)
    (sizeBytes : ℕ) (name : String) (file : ObFile) : Except ValidateError FileReport :=
  match loadParquetToOb u reader (Str.joinPath dir name) file with
  | .ok books => .ok (report dir name exchange .orderbook sizeBytes cli (orderbooks books))
  | .error e => .error (.readObParquet e)

/-- `validate_file`, of a file of trades. -/
def tradesFile (u : Unicode) (cli : ValidateCli) (dir exchange : String) (sizeBytes : ℕ)
    (name : String) (file : TradesFile) : Except ValidateError FileReport :=
  match readTradesParquet u (Str.joinPath dir name) file.columns file.batches with
  | .ok ts => .ok (report dir name exchange .trades sizeBytes cli (trades ts))
  | .error e => .error (.readTradesParquet e)

end Validate

/-! ## The files a flush writes, and what the validator makes of them -/

/-- **How a batch comes to be validated**: the clock that names its files, the
numbers that make the names unique, how the files are read, where they are and
how many bytes they have, and the options of the validator. -/
structure ValidateRun where
  clock : StampClock
  unicode : Unicode
  reader : BatchReader
  tradeBatches : List TradeRow → List (List TradeRow)
  cli : ValidateCli
  dir : LeafDatatype → String
  exchange : String
  sizeBytes : LeafDatatype → ℕ
  staged : LeafDatatype → ℕ
  final : LeafDatatype → ℕ

namespace ValidateRun

variable (run : ValidateRun)

/-- The file of order books a flush writes, if the batch has any. -/
def orderbooksFile (batch : List MarketSnapshot) : Option (String × ObFile) :=
  match (decomposeSnapshots batch).orderbooks with
  | [] => none
  | first :: rest =>
    some (Naming.finalName (Naming.obStem run.clock "sync" first (first :: rest))
        (run.staged .orderbooks) (run.final .orderbooks),
      ⟨10, (first :: rest).flatMap Orderbook.rows⟩)

/-- The file of trades a flush writes, if the batch has any. -/
def tradesFile (batch : List MarketSnapshot) : Option (String × TradesFile) :=
  match (decomposeSnapshots batch).trades with
  | [] => none
  | first :: rest =>
    some (Naming.finalName (Naming.tradesStem run.clock "sync" (first :: rest))
        (run.staged .trades) (run.final .trades),
      ⟨10, run.tradeBatches ((first :: rest).map Trade.row)⟩)

/-- **The validator has nothing to say against the files of a batch.** -/
def Accepted (batch : List MarketSnapshot) : Prop :=
  (∀ name file, run.orderbooksFile batch = some (name, file) →
      ∃ report, Validate.orderbookFile run.unicode run.reader run.cli (run.dir .orderbooks)
        run.exchange (run.sizeBytes .orderbooks) name file = .ok report ∧ report.failed = [])
    ∧ ∀ name file, run.tradesFile batch = some (name, file) →
      ∃ report, Validate.tradesFile run.unicode run.cli (run.dir .trades) run.exchange
        (run.sizeBytes .trades) name file = .ok report ∧ report.failed = []

end ValidateRun

/-! ### The place of the date -/

theorem Str.stripSuffix_append (q s : String) : Str.stripSuffix q (s ++ q) = some s := by
  unfold Str.stripSuffix
  rw [String.toList_append, if_pos (List.isSuffixOf_iff_suffix.mpr (List.suffix_append _ _)),
    List.length_append, Nat.add_sub_cancel, List.take_left, String.ofList_toList]

namespace Naming

/-- What a number adds to a name. -/
def numbered (n : ℕ) : String := if n = 0 then "" else "-" ++ toString n

theorem underscore_notMem_numbered (n : ℕ) : '_' ∉ (numbered n).toList := by
  unfold numbered
  split
  · simp
  · rw [String.toList_append, List.mem_append, not_or]
    exact ⟨by decide, by simp⟩

theorem candidate_append (s : String) (n : ℕ) :
    Leaf.candidate (s ++ parquetSuffix) n = s ++ numbered n ++ parquetSuffix := by
  unfold Leaf.candidate numbered
  split
  · rw [String.append_empty]
  · rw [Str.stripSuffix_append, Option.getD_some]
    simp [String.append_assoc]

theorem finalName_eq (s : String) (n m : ℕ) :
    finalName s n m = s ++ numbered n ++ numbered m ++ parquetSuffix := by
  unfold finalName
  rw [candidate_append, candidate_append]

end Naming

/-- A name ends with its date and its time. -/
theorem Naming.split_stem (exchange canonical tag mode : String) (stamp : DayStamp) (n m : ℕ) :
    ∃ parts, Str.split '_' (stem exchange canonical tag mode stamp ++ numbered n ++ numbered m)
      = parts ++ [stamp.date, stamp.time ++ numbered n ++ numbered m] := by
  have htime : '_' ∉ stamp.time.toList ++ (numbered n).toList ++ (numbered m).toList := by
    rw [List.mem_append, List.mem_append, not_or, not_or]
    exact ⟨⟨stamp.time_plain, underscore_notMem_numbered n⟩, underscore_notMem_numbered m⟩
  have hlist : (stem exchange canonical tag mode stamp ++ numbered n ++ numbered m).toList
      = (exchange ++ "_" ++ fileSymbol canonical ++ "_" ++ tag ++ "_" ++ mode).toList
        ++ '_' :: (stamp.date.toList ++ '_' :: (stamp.time.toList ++ (numbered n).toList
          ++ (numbered m).toList)) := by
    simp [stem, DayStamp.text]
  unfold Str.split
  rw [hlist, List.splitOn_append_cons_self, List.splitOn_append_cons_self,
    List.splitOn_eq_singleton stamp.date_plain, List.splitOn_eq_singleton htime, List.map_append]
  refine ⟨_, congrArg _ ?_⟩
  simp [String.ofList_append, String.append_assoc]

/-- **The validator finds the date where it looks for `sync`.** -/
theorem Validate.matchesConvention_finalName (exchange canonical tag mode : String)
    (stamp : DayStamp) (n m : ℕ) (kind : DataKind) :
    matchesConvention (Naming.finalName (Naming.stem exchange canonical tag mode stamp) n m) kind
      = false := by
  rw [Naming.finalName_eq]
  unfold matchesConvention
  rw [show ".parquet" = parquetSuffix from rfl, Str.stripSuffix_append]
  obtain ⟨parts, hparts⟩ := Naming.split_stem exchange canonical tag mode stamp n m
  have hdate : (parts ++ [stamp.date, stamp.time ++ Naming.numbered n ++ Naming.numbered m])[
      (parts ++ [stamp.date, stamp.time ++ Naming.numbered n ++ Naming.numbered m]).length - 2]?
        = some stamp.date := by
    simp
  simp only [hparts, hdate]
  split
  · rfl
  · rw [if_pos (fun h => stamp.date_ne (Option.some.inj h))]

/-- Whatever is in it, the file of such a name fails a test. -/
theorem Validate.failed_ne_nil {dir name exchange : String} {kind : DataKind} {sizeBytes : ℕ}
    {cli : ValidateCli} {v : FileValidation} (h : matchesConvention name kind = false) :
    (report dir name exchange kind sizeBytes cli v).failed ≠ [] := by
  have hmem : TestId.filenameConvention.code
      ∈ (report dir name exchange kind sizeBytes cli v).failed := by
    unfold report codes
    rw [h]
    exact List.mem_append_left _ (List.mem_append_left _ (List.mem_singleton_self _))
  exact List.ne_nil_of_mem hmem

namespace ValidateRun

variable {run : ValidateRun} {batch : List MarketSnapshot}

/-- No file of order books is accepted. -/
theorem Accepted.orderbooks_eq_nil (h : run.Accepted batch) :
    (decomposeSnapshots batch).orderbooks = [] := by
  by_contra hne
  obtain ⟨first, rest, hcons⟩ := List.exists_cons_of_ne_nil hne
  have hfile : run.orderbooksFile batch = some (Naming.finalName
      (Naming.obStem run.clock "sync" first (first :: rest)) (run.staged .orderbooks)
        (run.final .orderbooks), ⟨10, (first :: rest).flatMap Orderbook.rows⟩) := by
    unfold orderbooksFile
    rw [hcons]
  obtain ⟨report, hreport, hfailed⟩ := h.1 _ _ hfile
  unfold Validate.orderbookFile at hreport
  split at hreport
  · cases hreport
    exact Validate.failed_ne_nil (Validate.matchesConvention_finalName _ _ _ _ _ _ _ _) hfailed
  · cases hreport

/-- No file of trades is. -/
theorem Accepted.trades_eq_nil (h : run.Accepted batch) :
    (decomposeSnapshots batch).trades = [] := by
  by_contra hne
  obtain ⟨first, rest, hcons⟩ := List.exists_cons_of_ne_nil hne
  have hfile : run.tradesFile batch = some (Naming.finalName
      (Naming.tradesStem run.clock "sync" (first :: rest)) (run.staged .trades)
        (run.final .trades), ⟨10, run.tradeBatches ((first :: rest).map Trade.row)⟩) := by
    unfold tradesFile
    rw [hcons]
  obtain ⟨report, hreport, hfailed⟩ := h.2 _ _ hfile
  unfold Validate.tradesFile at hreport
  split at hreport
  · cases hreport
    exact Validate.failed_ne_nil (Validate.matchesConvention_finalName _ _ _ _ _ _ _ _) hfailed
  · cases hreport

end ValidateRun

/-- **The validator accepts what the flusher writes exactly when it writes
neither order books nor trades**, whatever the batch, the times, the numbers in
the names and the options are. -/
theorem accepted_iff (run : ValidateRun) (batch : List MarketSnapshot) :
    run.Accepted batch
      ↔ (decomposeSnapshots batch).orderbooks = [] ∧ (decomposeSnapshots batch).trades = [] := by
  constructor
  · exact fun h => ⟨h.orderbooks_eq_nil, h.trades_eq_nil⟩
  · rintro ⟨hbooks, htrades⟩
    refine ⟨fun name file hfile => ?_, fun name file hfile => ?_⟩
    · unfold ValidateRun.orderbooksFile at hfile
      rw [hbooks] at hfile
      cases hfile
    · unfold ValidateRun.tradesFile at hfile
      rw [htrades] at hfile
      cases hfile

/-! ### A batch of two rows -/

/-- The stamp of 2023-11-14 22:13:20 UTC. -/
def sampleStamp : DayStamp := ⟨"20231114", "221320.000", by decide, by decide, by decide⟩

/-- Two rows to a flush, a tenth of a second apart. -/
def sampleValidateRun : ValidateRun where
  clock := ⟨fun _ => some sampleStamp, sampleStamp⟩
  unicode := ⟨id, id⟩
  reader := wholeReader
  tradeBatches rows := [rows]
  cli := ⟨2, 100, 1 / 5⟩
  dir datatype := "/data/kraken/" ++ datatype.name
  exchange := "kraken"
  sizeBytes _ := 4096
  staged _ := 0
  final _ := 0

/-- A row with a book of one bid and one ask. -/
def sampleRow (tsUs : ℕ) : MarketSnapshot where
  tsUs := tsUs
  orderbook := some (Orderbook.fromLevels 0 tsUs ⟨"BTC", "USDT"⟩ "kraken"
    [⟨0, .bids, ⟨35999, 0⟩, ⟨1, 0⟩⟩] [⟨0, .asks, ⟨36000, 0⟩, ⟨1, 0⟩⟩])
  trades := []
  liquidations := []
  fundingRate := []
  openInterest := []
  fundingSettlements := []

/-- The codes reported on the file of order books of a batch. -/
def ValidateRun.orderbookCodes (run : ValidateRun) (batch : List MarketSnapshot) :
    Option (List String) :=
  (run.orderbooksFile batch).bind (fun file =>
    (Validate.orderbookFile run.unicode run.reader run.cli (run.dir .orderbooks) run.exchange
      (run.sizeBytes .orderbooks) file.1 file.2).toOption.map FileReport.failed)

/-- **Two rows of one symbol, on the grid, are rejected**, for the name and for
the span. -/
theorem not_accepted_sampleRows :
    ¬ sampleValidateRun.Accepted [sampleRow 1700000000000000, sampleRow 1700000000100000]
      ∧ sampleValidateRun.orderbookCodes [sampleRow 1700000000000000, sampleRow 1700000000100000]
        = some [TestId.filenameConvention.code, TestId.flushSpan.code] :=
  ⟨fun h => absurd h.orderbooks_eq_nil (by decide), by decide +kernel⟩
