import Aetelier.ColumnFile
import Aetelier.MarketFlush
import Aetelier.ValidateFile

/-!
# Records in files

Trades, liquidations, funding rates, settlements, open interest and aggregates each
have a file of their own: a column of each field, in a fixed order, and a reader that
goes by the numbers of the columns. Symbols, sides and origins are texts, and a text
that cannot be read ends the read with the row it is in. Decimals are stored as
floating-point numbers.

Columns were added to three of the formats over time, at the end. Their readers take a
file without them for one that holds the defaults – trades column by column, funding
rates and open interest all or nothing – and the epoch of a connection once had
another type, in which it reads as zero. The readers of the other formats panic at a
file that has fewer columns (`RecordKind.narrow_read`). What is written comes back if
its symbol and its decimals do (`RecordKind.file_keeps_iff`).
-/

/-- What the files ask of floating-point numbers. -/
structure StoredFloats (F : Type) extends Floats F where
  /-- `f64_to_decimal`. -/
  toDecimal : F → Decimal

namespace StoredFloats

variable {F : Type} (x : StoredFloats F)

/-- A number that is read; where there is none the column holds a zero. -/
def number (slot : Option F) : Decimal := x.toDecimal (slot.getD (x.ofNat 0))

/-- A decimal that is stored and read again. -/
def stored (d : Decimal) : Decimal := x.toDecimal (x.ofDecimal d)

/-- The decimal is still the same number. -/
def Keeps (d : Decimal) : Prop := (x.stored d).value = d.value

end StoredFloats

/-- A text that is not what it should be. -/
structure Malformed where
  what : String
  text : String
deriving DecidableEq, Repr

/-- The error of a row. -/
def Malformed.error (path : String) (i : ℕ) (w : Malformed) : ReadFailure PersistError :=
  .failed (.parse ("row " ++ toString i ++ ": " ++ w.what ++ " '" ++ w.text ++ "' in " ++ path))

variable {F : Type} (x : StoredFloats F) (u : Unicode) (path : String)

def parseSymbol (symbol : String) : Except Malformed TradingPair :=
  match TradingPair.fromStr u symbol with
  | some pair => .ok pair
  | none => .error ⟨"malformed symbol", symbol⟩

def parseSide (what side : String) : Except Malformed TradeSide :=
  match TradeSide.fromStr side with
  | some side => .ok side
  | none => .error ⟨what, side⟩

def parseOrigin (origin : String) : Except Malformed TradeOrigin :=
  match TradeOrigin.fromStr origin with
  | some origin => .ok origin
  | none => .error ⟨"unknown trade origin", origin⟩

@[simp] theorem parseSide_asStr (what : String) (side : TradeSide) :
    parseSide what side.asStr = .ok side := by
  cases side <;> rfl

@[simp] theorem parseOrigin_asStr (origin : TradeOrigin) :
    parseOrigin origin.asStr = .ok origin := by
  cases origin <;> rfl

/-- `conn_epoch_us_at`: older files hold seconds, which were always zero. -/
def connEpochUsAt (b : RecordBatch F) (ordinal i : ℕ) : Except (ReadFailure PersistError) ℕ :=
  match b.columns[ordinal]? with
  | some (_, .uint64 values) => .ok (values[i]?.getD 0)
  | some _ => .ok 0
  | none => .error .panicked

/-! ## Trades -/

namespace Trade

/-- The columns of `write_trades_parquet`. -/
def columns : List (String × Projection F Trade) :=
  [("source_trade_ts_us", .uint64 (·.sourceTradeTsUs)),
    ("symbol", .utf8 (·.pair.toCanonical)),
    ("side", .utf8 (·.side.asStr)),
    ("price", .float64 fun t => x.ofDecimal t.price),
    ("amount", .float64 fun t => x.ofDecimal t.amount),
    ("exchange", .utf8 (·.exchange)),
    ("id", .utf8 (·.id)),
    ("local_trade_ts_us", .uint64 (·.localTradeTsUs)),
    ("source_trade_rtt_us", .uint64 (·.sourceTradeRttUs)),
    ("origin", .utf8 (·.origin.asStr))]

/-- `read_trades_parquet`, of a batch. -/
def readBatch (b : RecordBatch F) : Except (ReadFailure PersistError) (List Trade) := do
  let timestamps ← b.uint64 0
  let symbols ← b.utf8 1
  let sides ← b.utf8 2
  let prices ← b.float64 3
  let amounts ← b.float64 4
  let exchanges ← b.utf8 5
  let ids ← b.utf8 6
  let localTs ← b.appended 7 b.uint64
  let rtts ← b.appended 8 b.uint64
  let origins ← b.appended 9 b.utf8
  b.rows fun i => do
    let pair ← (parseSymbol u (symbols i)).mapError (Malformed.error path i)
    let side ← (parseSide "unknown trade side" (sides i)).mapError (Malformed.error path i)
    let origin ← match origins with
      | some col => (parseOrigin (col i)).mapError (Malformed.error path i)
      | none => .ok .ws
    return {
      sourceTradeTsUs := timestamps i
      localTradeTsUs := (localTs.map (· i)).getD 0
      sourceTradeRttUs := (rtts.map (· i)).getD 0
      pair := pair
      side := side
      price := x.number (prices i)
      amount := x.number (amounts i)
      exchange := exchanges i
      id := ids i
      origin := origin }

/-- What is read of a trade that was written. -/
def decode (t : Trade) : Except Malformed Trade :=
  (parseSymbol u t.pair.toCanonical).map fun pair =>
    { t with pair := pair, price := x.stored t.price, amount := x.stored t.amount }

/-- A trade as a file of so many columns has it. -/
def older (k : ℕ) (t : Trade) : Trade :=
  { t with
    localTradeTsUs := if 7 < k then t.localTradeTsUs else 0
    sourceTradeRttUs := if 8 < k then t.sourceTradeRttUs else 0
    origin := if 9 < k then t.origin else .ws }

theorem older_of_le {k : ℕ} (hk : 10 ≤ k) (t : Trade) : older k t = t := by
  unfold older
  rw [if_pos (by omega), if_pos (by omega), if_pos (by omega)]

theorem readsAs (more : List (String × Projection F Trade)) :
    ReadsAs (readBatch x u path) (columns x ++ more) (decode x u) (Malformed.error path) := by
  intro ts
  have hlt : ∀ k < 10, k < (RecordBatch.write (columns x ++ more) ts).numColumns :=
    fun k hk => RecordBatch.lt_numColumns_write (columns x) ts hk more
  unfold readBatch
  rw [RecordBatch.appended_of_lt (hlt 7 (by decide)),
    RecordBatch.appended_of_lt (hlt 8 (by decide)), RecordBatch.appended_of_lt (hlt 9 (by decide))]
  refine RecordBatch.rows_write fun i t ht => ?_
  simp only [List.getElem?_map, ht, Option.map_some, Option.getD_some, parseSide_asStr,
    parseOrigin_asStr]
  unfold decode
  cases parseSymbol u t.pair.toCanonical <;> rfl

theorem readsAs_take {k : ℕ} (hk : 7 ≤ k) (hlt : k < 10) :
    ReadsAs (readBatch x u path) ((columns x).take k) (fun t => decode x u (older k t))
      (Malformed.error path) := by
  intro ts
  have hcases : k = 7 ∨ k = 8 ∨ k = 9 := by omega
  rcases hcases with rfl | rfl | rfl
  all_goals
    refine RecordBatch.rows_write fun i t ht => ?_
    simp only [List.getElem?_map, ht, Option.map_some, Option.getD_some, parseSide_asStr]
    unfold decode
    show _ = ((parseSymbol u t.pair.toCanonical).map _).mapError _
    cases parseSymbol u t.pair.toCanonical <;> rfl

/-! The validator's model has a file of trades as its rows, with the decimals as they are. -/

theorem numbered_eq_readTradeRows (hexact : ∀ d, x.stored d = d) (k i : ℕ) (ts : List Trade) :
    numbered (fun i t => (decode x u (older k t)).mapError (Malformed.error path i)) i ts
      = (readTradeRows u path k i (ts.map row)).mapError .failed := by
  induction ts generalizing i with
  | nil => rfl
  | cons t ts ih =>
    have hrow : (decode x u (older k t)).mapError (Malformed.error path i)
        = (t.row.read u path k i).mapError .failed := by
      have horigin : (if 9 < k then TradeOrigin.fromStr t.origin.asStr else some .ws)
          = some (older k t).origin := by
        show _ = some (if 9 < k then t.origin else .ws)
        split
        · cases t.origin <;> rfl
        · rfl
      have hside : TradeSide.fromStr t.side.asStr = some t.side := by
        cases t.side <;> rfl
      unfold decode TradeRow.read parseSymbol
      rw [hexact, hexact]
      have hpair : (older k t).pair = t.pair := rfl
      dsimp only [row]
      rw [horigin, hside, hpair]
      cases TradingPair.fromStr u t.pair.toCanonical <;> rfl
    unfold numbered
    rw [ih, hrow, List.map_cons, readTradeRows]
    cases t.row.read u path k i with
    | error e => rfl
    | ok t => cases readTradeRows u path k (i + 1) (ts.map row) <;> rfl

/-- **The columns hold what the rows do**: where no decimal is rounded, a file of trades is
read as the validator's model reads its rows. -/
theorem readFile_eq_readTradesParquet (hexact : ∀ d, x.stored d = d) (sizes : BatchSizes) {k : ℕ}
    (hk : 7 ≤ k) (ts : List Trade) :
    readFile sizes (readBatch x u path) (.write ((columns x).take k) ts)
      = (readTradesParquet u path k
        ((pieces (sizes.sizes ts.length) ts).map (List.map row))).mapError .failed := by
  have hbatch : ∀ batch, readBatch x u path (.write ((columns x).take k) batch)
      = (readTradeRows u path k 0 (batch.map row)).mapError .failed := by
    intro batch
    rw [← numbered_eq_readTradeRows x u path hexact]
    rcases Nat.lt_or_ge k 10 with hlt | hge
    · exact readsAs_take x u path hk hlt batch
    · have hfull := readsAs x u path [] batch
      rw [List.append_nil] at hfull
      have hcolumns : (columns x).take k = columns x := List.take_of_length_le hge
      rw [hcolumns, hfull]
      refine congrArg (numbered · 0 batch) (funext₂ fun i t => ?_)
      rw [older_of_le hge]
  unfold readFile
  rw [RecordBatch.batches_write]
  show (((pieces (sizes.sizes ts.length) ts).map
    (RecordBatch.write ((columns x).take k))).mapM (readBatch x u path)).map List.flatten = _
  generalize pieces (sizes.sizes ts.length) ts = batches
  induction batches with
  | nil => rfl
  | cons batch batches ih =>
    rw [List.map_cons, List.mapM_cons, hbatch, List.map_cons, readTradesParquet]
    cases readTradeRows u path k 0 (batch.map row) with
    | error e => rfl
    | ok trades =>
      refine (map_flatten_cons trades _).trans ?_
      rw [ih]
      cases readTradesParquet u path k (batches.map (List.map row)) <;> rfl

end Trade

/-! ## Liquidations -/

namespace Liquidation

/-- The columns of `write_liquidations_parquet`. -/
def columns : List (String × Projection F Liquidation) :=
  [("liquidation_ts_us", .uint64 (·.liquidationTsUs)),
    ("symbol", .utf8 (·.pair.toCanonical)),
    ("side", .utf8 (·.side.asStr)),
    ("price", .float64 fun l => x.ofDecimal l.price),
    ("amount", .float64 fun l => x.ofDecimal l.amount),
    ("exchange", .utf8 (·.exchange))]

/-- `read_liquidations_parquet`, of a batch. -/
def readBatch (b : RecordBatch F) : Except (ReadFailure PersistError) (List Liquidation) := do
  let timestamps ← b.uint64 0
  let symbols ← b.utf8 1
  let sides ← b.utf8 2
  let prices ← b.float64 3
  let amounts ← b.float64 4
  let exchanges ← b.utf8 5
  b.rows fun i => do
    let pair ← (parseSymbol u (symbols i)).mapError (Malformed.error path i)
    let side ← (parseSide "unknown liquidation side" (sides i)).mapError (Malformed.error path i)
    return {
      liquidationTsUs := timestamps i
      pair := pair
      side := side
      price := x.number (prices i)
      amount := x.number (amounts i)
      exchange := exchanges i }

/-- What is read of a liquidation that was written. -/
def decode (l : Liquidation) : Except Malformed Liquidation :=
  (parseSymbol u l.pair.toCanonical).map fun pair =>
    { l with pair := pair, price := x.stored l.price, amount := x.stored l.amount }

theorem readsAs (more : List (String × Projection F Liquidation)) :
    ReadsAs (readBatch x u path) (columns x ++ more) (decode x u) (Malformed.error path) := by
  intro ls
  refine RecordBatch.rows_write fun i l hl => ?_
  simp only [List.getElem?_map, hl, Option.map_some, Option.getD_some, parseSide_asStr]
  unfold decode
  cases parseSymbol u l.pair.toCanonical <;> rfl

end Liquidation

/-! ## Funding rates -/

namespace FundingRate

/-- The columns of `write_funding_parquet`. -/
def columns : List (String × Projection F FundingRate) :=
  [("funding_rate_ts_us", .uint64 (·.fundingRateTsUs)),
    ("symbol", .utf8 (·.pair.toCanonical)),
    ("funding_rate", .float64 fun fr => x.ofDecimal fr.fundingRate),
    ("next_funding_ts_us", .uint64 (·.nextFundingTsUs)),
    ("exchange", .utf8 (·.exchange)),
    ("local_funding_ts_us", .uint64 (·.localFundingTsUs)),
    ("recv_seq", .uint64 (·.recvSeq)),
    ("conn_epoch_us", .uint64 (·.connEpochUs)),
    ("premium", .nullable fun fr => fr.premium.map x.ofDecimal),
    ("interval_hours", .uint32 (·.intervalHours))]

/-- The fields of a row that a file may lack. -/
def readExtended (b : RecordBatch F) (extended : Bool) (i : ℕ) :
    Except (ReadFailure PersistError) (ℕ × ℕ × ℕ × Option Decimal × ℕ) := do
  if extended then
    let locals ← b.uint64 5
    let seqs ← b.uint64 6
    let premiums ← b.float64 8
    let intervals ← b.uint32 9
    let connEpochUs ← connEpochUsAt b 7 i
    return (locals i, seqs i, connEpochUs, (premiums i).map x.toDecimal, intervals i)
  else
    return (0, 0, 0, none, 8)

/-- `read_funding_parquet`, of a batch. -/
def readBatch (b : RecordBatch F) : Except (ReadFailure PersistError) (List FundingRate) := do
  let extended := decide (10 ≤ b.numColumns)
  let timestamps ← b.uint64 0
  let symbols ← b.utf8 1
  let fundingRates ← b.float64 2
  let nextFundingTimestamps ← b.uint64 3
  let exchanges ← b.utf8 4
  b.rows fun i => do
    let (localTs, recvSeq, connEpochUs, premium, intervalHours) ← readExtended x b extended i
    let pair ← (parseSymbol u (symbols i)).mapError (Malformed.error path i)
    return {
      fundingRateTsUs := timestamps i
      localFundingTsUs := localTs
      recvSeq := recvSeq
      connEpochUs := connEpochUs
      pair := pair
      fundingRate := x.number (fundingRates i)
      premium := premium
      intervalHours := intervalHours
      nextFundingTsUs := nextFundingTimestamps i
      exchange := exchanges i }

/-- What is read of a funding rate that was written. -/
def decode (fr : FundingRate) : Except Malformed FundingRate :=
  (parseSymbol u fr.pair.toCanonical).map fun pair =>
    { fr with
      pair := pair
      fundingRate := x.stored fr.fundingRate
      premium := fr.premium.map x.stored }

/-- A funding rate as a file of so many columns has it. -/
def older (k : ℕ) (fr : FundingRate) : FundingRate :=
  if 10 ≤ k then fr
  else { fr with
    localFundingTsUs := 0, recvSeq := 0, connEpochUs := 0, premium := none, intervalHours := 8 }

/-- A row of a file that has all columns. -/
theorem readExtended_write {more : List (String × Projection F FundingRate)}
    {frs : List FundingRate} {i : ℕ} {fr : FundingRate} (hfr : frs[i]? = some fr) :
    readExtended x (.write (columns x ++ more) frs) true i
      = .ok (fr.localFundingTsUs, fr.recvSeq, fr.connEpochUs, fr.premium.map x.stored,
        fr.intervalHours) := by
  show Except.ok _ = _
  simp only [List.getElem?_map, hfr, Option.map_some, Option.getD_some, Option.map_map]
  rfl

theorem readsAs (more : List (String × Projection F FundingRate)) :
    ReadsAs (readBatch x u path) (columns x ++ more) (decode x u) (Malformed.error path) := by
  intro frs
  have hextended : decide (10 ≤ (RecordBatch.write (columns x ++ more) frs).numColumns) = true :=
    decide_eq_true (RecordBatch.lt_numColumns_write (columns x) frs (Nat.lt_succ_self 9) more)
  unfold readBatch
  rw [hextended]
  refine RecordBatch.rows_write fun i fr hfr => ?_
  rw [readExtended_write x hfr]
  simp only [List.getElem?_map, hfr, Option.map_some, Option.getD_some]
  unfold decode
  cases parseSymbol u fr.pair.toCanonical <;> rfl

theorem readsAs_take {k : ℕ} (hk : 5 ≤ k) (hlt : k < 10) :
    ReadsAs (readBatch x u path) ((columns x).take k) (fun fr => decode x u (older k fr))
      (Malformed.error path) := by
  intro frs
  have hcases : k = 5 ∨ k = 6 ∨ k = 7 ∨ k = 8 ∨ k = 9 := by omega
  rcases hcases with rfl | rfl | rfl | rfl | rfl
  all_goals
    refine RecordBatch.rows_write fun i fr hfr => ?_
    simp only [List.getElem?_map, hfr, Option.map_some, Option.getD_some]
    unfold decode
    show _ = ((parseSymbol u fr.pair.toCanonical).map _).mapError _
    cases parseSymbol u fr.pair.toCanonical <;> rfl

/-- A file with the epoch in seconds. -/
theorem readsAs_seconds (epoch : FundingRate → ℕ) :
    ReadsAs (readBatch x u path) ((columns x).set 7 ("conn_epoch", .uint32 epoch))
      (fun fr => decode x u { fr with connEpochUs := 0 }) (Malformed.error path) := by
  intro frs
  refine RecordBatch.rows_write fun i fr hfr => ?_
  have hread : readExtended x (.write ((columns x).set 7 ("conn_epoch", .uint32 epoch)) frs) true i
      = .ok (fr.localFundingTsUs, fr.recvSeq, 0, fr.premium.map x.stored, fr.intervalHours) := by
    show Except.ok _ = _
    simp only [List.getElem?_map, hfr, Option.map_some, Option.getD_some, Option.map_map]
    rfl
  show (readExtended x (.write ((columns x).set 7 ("conn_epoch", .uint32 epoch)) frs) true i
    >>= _) = _
  rw [hread]
  simp only [List.getElem?_map, hfr, Option.map_some, Option.getD_some]
  unfold decode
  show _ = ((parseSymbol u fr.pair.toCanonical).map _).mapError _
  cases parseSymbol u fr.pair.toCanonical <;> rfl

end FundingRate

/-! ## Settlements -/

namespace FundingSettlement

/-- The columns of `write_funding_settlement_parquet`. -/
def columns : List (String × Projection F FundingSettlement) :=
  [("funding_time_us", .uint64 (·.fundingTimeUs)),
    ("symbol", .utf8 (·.pair.toCanonical)),
    ("funding_rate", .float64 fun fs => x.ofDecimal fs.fundingRate),
    ("premium", .nullable fun fs => fs.premium.map x.ofDecimal),
    ("exchange", .utf8 (·.exchange)),
    ("local_ts_us", .uint64 (·.localTsUs)),
    ("rtt_us", .uint64 (·.rttUs))]

/-- `read_funding_settlement_parquet`, of a batch. -/
def readBatch (b : RecordBatch F) :
    Except (ReadFailure PersistError) (List FundingSettlement) := do
  let fundingTimes ← b.uint64 0
  let symbols ← b.utf8 1
  let rates ← b.float64 2
  let premiums ← b.float64 3
  let exchanges ← b.utf8 4
  let locals ← b.uint64 5
  let rtts ← b.uint64 6
  b.rows fun i => do
    let pair ← (parseSymbol u (symbols i)).mapError (Malformed.error path i)
    return {
      fundingTimeUs := fundingTimes i
      localTsUs := locals i
      rttUs := rtts i
      pair := pair
      fundingRate := x.number (rates i)
      premium := (premiums i).map x.toDecimal
      exchange := exchanges i }

/-- What is read of a settlement that was written. -/
def decode (fs : FundingSettlement) : Except Malformed FundingSettlement :=
  (parseSymbol u fs.pair.toCanonical).map fun pair =>
    { fs with
      pair := pair
      fundingRate := x.stored fs.fundingRate
      premium := fs.premium.map x.stored }

theorem readsAs (more : List (String × Projection F FundingSettlement)) :
    ReadsAs (readBatch x u path) (columns x ++ more) (decode x u) (Malformed.error path) := by
  intro fss
  refine RecordBatch.rows_write fun i fs hfs => ?_
  simp only [List.getElem?_map, hfs, Option.map_some, Option.getD_some, Option.map_map]
  unfold decode
  cases parseSymbol u fs.pair.toCanonical <;> rfl

end FundingSettlement

/-! ## Open interest -/

namespace OpenInterest

/-- The columns of `write_oi_parquet`. -/
def columns : List (String × Projection F OpenInterest) :=
  [("open_interest_ts_us", .uint64 (·.openInterestTsUs)),
    ("symbol", .utf8 (·.pair.toCanonical)),
    ("open_interest", .float64 fun oi => x.ofDecimal oi.openInterest),
    ("open_interest_value", .nullable fun oi => oi.openInterestValue.map x.ofDecimal),
    ("exchange", .utf8 (·.exchange)),
    ("local_oi_ts_us", .uint64 (·.localOiTsUs)),
    ("recv_seq", .uint64 (·.recvSeq)),
    ("conn_epoch_us", .uint64 (·.connEpochUs)),
    ("mark_px", .nullable fun oi => oi.markPx.map x.ofDecimal)]

/-- The fields of a row that a file may lack. -/
def readExtended (b : RecordBatch F) (extended : Bool) (i : ℕ) :
    Except (ReadFailure PersistError) (ℕ × ℕ × ℕ × Option Decimal) := do
  if extended then
    let locals ← b.uint64 5
    let seqs ← b.uint64 6
    let marks ← b.float64 8
    let connEpochUs ← connEpochUsAt b 7 i
    return (locals i, seqs i, connEpochUs, (marks i).map x.toDecimal)
  else
    return (0, 0, 0, none)

/-- `read_oi_parquet`, of a batch. -/
def readBatch (b : RecordBatch F) : Except (ReadFailure PersistError) (List OpenInterest) := do
  let extended := decide (9 ≤ b.numColumns)
  let timestamps ← b.uint64 0
  let symbols ← b.utf8 1
  let oiValues ← b.float64 2
  let oiUsdValues ← b.float64 3
  let exchanges ← b.utf8 4
  b.rows fun i => do
    let (localTs, recvSeq, connEpochUs, markPx) ← readExtended x b extended i
    let pair ← (parseSymbol u (symbols i)).mapError (Malformed.error path i)
    return {
      openInterestTsUs := timestamps i
      localOiTsUs := localTs
      recvSeq := recvSeq
      connEpochUs := connEpochUs
      pair := pair
      openInterest := x.number (oiValues i)
      openInterestValue := (oiUsdValues i).map x.toDecimal
      markPx := markPx
      exchange := exchanges i }

/-- What is read of an open interest that was written. -/
def decode (oi : OpenInterest) : Except Malformed OpenInterest :=
  (parseSymbol u oi.pair.toCanonical).map fun pair =>
    { oi with
      pair := pair
      openInterest := x.stored oi.openInterest
      openInterestValue := oi.openInterestValue.map x.stored
      markPx := oi.markPx.map x.stored }

/-- An open interest as a file of so many columns has it. -/
def older (k : ℕ) (oi : OpenInterest) : OpenInterest :=
  if 9 ≤ k then oi
  else { oi with localOiTsUs := 0, recvSeq := 0, connEpochUs := 0, markPx := none }

/-- A row of a file that has all columns. -/
theorem readExtended_write {more : List (String × Projection F OpenInterest)}
    {ois : List OpenInterest} {i : ℕ} {oi : OpenInterest} (hoi : ois[i]? = some oi) :
    readExtended x (.write (columns x ++ more) ois) true i
      = .ok (oi.localOiTsUs, oi.recvSeq, oi.connEpochUs, oi.markPx.map x.stored) := by
  show Except.ok _ = _
  simp only [List.getElem?_map, hoi, Option.map_some, Option.getD_some, Option.map_map]
  rfl

theorem readsAs (more : List (String × Projection F OpenInterest)) :
    ReadsAs (readBatch x u path) (columns x ++ more) (decode x u) (Malformed.error path) := by
  intro ois
  have hextended : decide (9 ≤ (RecordBatch.write (columns x ++ more) ois).numColumns) = true :=
    decide_eq_true (RecordBatch.lt_numColumns_write (columns x) ois (Nat.lt_succ_self 8) more)
  unfold readBatch
  rw [hextended]
  refine RecordBatch.rows_write fun i oi hoi => ?_
  rw [readExtended_write x hoi]
  simp only [List.getElem?_map, hoi, Option.map_some, Option.getD_some, Option.map_map]
  unfold decode
  cases parseSymbol u oi.pair.toCanonical <;> rfl

theorem readsAs_take {k : ℕ} (hk : 5 ≤ k) (hlt : k < 9) :
    ReadsAs (readBatch x u path) ((columns x).take k) (fun oi => decode x u (older k oi))
      (Malformed.error path) := by
  intro ois
  have hcases : k = 5 ∨ k = 6 ∨ k = 7 ∨ k = 8 := by omega
  rcases hcases with rfl | rfl | rfl | rfl
  all_goals
    refine RecordBatch.rows_write fun i oi hoi => ?_
    simp only [List.getElem?_map, hoi, Option.map_some, Option.getD_some, Option.map_map]
    unfold decode
    show _ = ((parseSymbol u oi.pair.toCanonical).map _).mapError _
    cases parseSymbol u oi.pair.toCanonical <;> rfl

/-- A file with the epoch in seconds. -/
theorem readsAs_seconds (epoch : OpenInterest → ℕ) :
    ReadsAs (readBatch x u path) ((columns x).set 7 ("conn_epoch", .uint32 epoch))
      (fun oi => decode x u { oi with connEpochUs := 0 }) (Malformed.error path) := by
  intro ois
  refine RecordBatch.rows_write fun i oi hoi => ?_
  have hread : readExtended x (.write ((columns x).set 7 ("conn_epoch", .uint32 epoch)) ois) true i
      = .ok (oi.localOiTsUs, oi.recvSeq, 0, oi.markPx.map x.stored) := by
    show Except.ok _ = _
    simp only [List.getElem?_map, hoi, Option.map_some, Option.getD_some, Option.map_map]
    rfl
  show (readExtended x (.write ((columns x).set 7 ("conn_epoch", .uint32 epoch)) ois) true i
    >>= _) = _
  rw [hread]
  simp only [List.getElem?_map, hoi, Option.map_some, Option.getD_some, Option.map_map]
  unfold decode
  show _ = ((parseSymbol u oi.pair.toCanonical).map _).mapError _
  cases parseSymbol u oi.pair.toCanonical <;> rfl

end OpenInterest

/-! ## Aggregates -/

namespace MarketAggregate

/-- The columns of `write_market_aggregate_parquet`. -/
def columns : List (String × Projection F (MarketAggregate F)) :=
  [("ts_us", .uint64 (·.tsUs)),
    ("ob_mid_price", .float64 (·.obMidPrice)),
    ("ob_spread", .float64 (·.obSpread)),
    ("ob_imbalance", .float64 (·.obImbalance)),
    ("trade_volume", .float64 (·.tradeVolume)),
    ("trade_vwap", .float64 (·.tradeVwap)),
    ("trade_count", .uint64 (·.tradeCount)),
    ("liq_notional", .float64 (·.liqNotional)),
    ("liq_count", .uint64 (·.liqCount)),
    ("liq_imbalance", .float64 (·.liqImbalance)),
    ("fr_rate", .float64 (·.frRate)),
    ("fr_annualized", .float64 (·.frAnnualized)),
    ("fr_next_settlement_delta", .int64 (·.frNextSettlementDelta)),
    ("oi_contracts", .float64 (·.oiContracts)),
    ("oi_value", .float64 (·.oiValue)),
    ("oi_change", .float64 (·.oiChange)),
    ("trade_notional", .float64 (·.tradeNotional)),
    ("trade_buy_volume", .float64 (·.tradeBuyVolume)),
    ("trade_buy_notional", .float64 (·.tradeBuyNotional)),
    ("trade_buy_count", .uint64 (·.tradeBuyCount)),
    ("trade_sell_volume", .float64 (·.tradeSellVolume)),
    ("trade_sell_notional", .float64 (·.tradeSellNotional)),
    ("trade_sell_count", .uint64 (·.tradeSellCount)),
    ("trade_imbalance", .float64 (·.tradeImbalance)),
    ("trade_px_first", .float64 (·.tradePxFirst)),
    ("trade_px_last", .float64 (·.tradePxLast))]

/-- `read_market_aggregate_parquet`, of a batch. -/
def readBatch (b : RecordBatch F) :
    Except (ReadFailure PersistError) (List (MarketAggregate F)) := do
  let tsUs ← b.uint64 0
  let obMid ← b.float64 1
  let obSpread ← b.float64 2
  let obImb ← b.float64 3
  let tv ← b.float64 4
  let vwap ← b.float64 5
  let tc ← b.uint64 6
  let ln ← b.float64 7
  let lc ← b.uint64 8
  let li ← b.float64 9
  let fr ← b.float64 10
  let fra ← b.float64 11
  let frd ← b.int64 12
  let oic ← b.float64 13
  let oiv ← b.float64 14
  let oid ← b.float64 15
  let tn ← b.float64 16
  let tbv ← b.float64 17
  let tbn ← b.float64 18
  let tbc ← b.uint64 19
  let tsv ← b.float64 20
  let tsn ← b.float64 21
  let tsc ← b.uint64 22
  let timb ← b.float64 23
  let tpf ← b.float64 24
  let tpl ← b.float64 25
  let value (column : ℕ → Option F) (i : ℕ) : F := (column i).getD (x.ofNat 0)
  b.rows fun i => return {
    tsUs := tsUs i
    obMidPrice := value obMid i
    obSpread := value obSpread i
    obImbalance := value obImb i
    tradeVolume := value tv i
    tradeVwap := value vwap i
    tradeCount := tc i
    tradeNotional := value tn i
    tradeBuyVolume := value tbv i
    tradeBuyNotional := value tbn i
    tradeBuyCount := tbc i
    tradeSellVolume := value tsv i
    tradeSellNotional := value tsn i
    tradeSellCount := tsc i
    tradeImbalance := value timb i
    tradePxFirst := value tpf i
    tradePxLast := value tpl i
    liqNotional := value ln i
    liqCount := lc i
    liqImbalance := value li i
    frRate := value fr i
    frAnnualized := value fra i
    frNextSettlementDelta := frd i
    oiContracts := value oic i
    oiValue := value oiv i
    oiChange := value oid i }

/-- What is read of an aggregate that was written. -/
def decode (agg : MarketAggregate F) : Except Malformed (MarketAggregate F) := .ok agg

theorem readsAs (more : List (String × Projection F (MarketAggregate F))) :
    ReadsAs (readBatch x) (columns ++ more) decode (Malformed.error path) := by
  intro aggs
  refine RecordBatch.rows_write fun i agg hagg => ?_
  simp only [List.getElem?_map, hagg, Option.map_some, Option.getD_some]
  rfl

end MarketAggregate

/-! ## All kinds -/

/-- The kinds of records that have files of their own. -/
inductive RecordKind where
  | trades
  | liquidations
  | fundingRates
  | settlements
  | openInterest
  | aggregates
deriving DecidableEq, Repr

namespace RecordKind

abbrev Record (F : Type) : RecordKind → Type
  | trades => Trade
  | liquidations => Liquidation
  | fundingRates => FundingRate
  | settlements => FundingSettlement
  | openInterest => OpenInterest
  | aggregates => MarketAggregate F

/-- The columns of the writer. -/
def columns : (kind : RecordKind) → List (String × Projection F (kind.Record F))
  | trades => Trade.columns x
  | liquidations => Liquidation.columns x
  | fundingRates => FundingRate.columns x
  | settlements => FundingSettlement.columns x
  | openInterest => OpenInterest.columns x
  | aggregates => MarketAggregate.columns

/-- The reader, of a batch. -/
def readBatch : (kind : RecordKind) → RecordBatch F →
    Except (ReadFailure PersistError) (List (kind.Record F))
  | trades => Trade.readBatch x u path
  | liquidations => Liquidation.readBatch x u path
  | fundingRates => FundingRate.readBatch x u path
  | settlements => FundingSettlement.readBatch x u path
  | openInterest => OpenInterest.readBatch x u path
  | aggregates => MarketAggregate.readBatch x

/-- What is read of a record that was written. -/
def decode : (kind : RecordKind) → kind.Record F → Except Malformed (kind.Record F)
  | trades => Trade.decode x u
  | liquidations => Liquidation.decode x u
  | fundingRates => FundingRate.decode x u
  | settlements => FundingSettlement.decode x u
  | openInterest => OpenInterest.decode x u
  | aggregates => MarketAggregate.decode

/-- How many columns a file must have. -/
def required : RecordKind → ℕ
  | trades => 7
  | liquidations => 6
  | fundingRates => 5
  | settlements => 7
  | openInterest => 5
  | aggregates => 26

/-- A record as a file of so many columns has it. -/
def older (k : ℕ) : (kind : RecordKind) → kind.Record F → kind.Record F
  | trades => Trade.older k
  | liquidations => id
  | fundingRates => FundingRate.older k
  | settlements => id
  | openInterest => OpenInterest.older k
  | aggregates => id

/-- The same record, if decimals are compared as numbers. -/
def Same : (kind : RecordKind) → kind.Record F → kind.Record F → Prop
  | trades => fun a b => { a with price := b.price, amount := b.amount } = b
      ∧ a.price.value = b.price.value ∧ a.amount.value = b.amount.value
  | liquidations => fun a b => { a with price := b.price, amount := b.amount } = b
      ∧ a.price.value = b.price.value ∧ a.amount.value = b.amount.value
  | fundingRates => fun a b => { a with fundingRate := b.fundingRate, premium := b.premium } = b
      ∧ a.fundingRate.value = b.fundingRate.value
      ∧ a.premium.map Decimal.value = b.premium.map Decimal.value
  | settlements => fun a b => { a with fundingRate := b.fundingRate, premium := b.premium } = b
      ∧ a.fundingRate.value = b.fundingRate.value
      ∧ a.premium.map Decimal.value = b.premium.map Decimal.value
  | openInterest => fun a b => { a with
        openInterest := b.openInterest
        openInterestValue := b.openInterestValue
        markPx := b.markPx } = b
      ∧ a.openInterest.value = b.openInterest.value
      ∧ a.openInterestValue.map Decimal.value = b.openInterestValue.map Decimal.value
      ∧ a.markPx.map Decimal.value = b.markPx.map Decimal.value
  | aggregates => fun a b => a = b

/-- **A record that a file keeps**: its symbol reads as its pair, and its decimals are the
same numbers as floating-point numbers. -/
def Kept : (kind : RecordKind) → kind.Record F → Prop
  | trades => fun t => TradingPair.fromStr u t.pair.toCanonical = some t.pair
      ∧ x.Keeps t.price ∧ x.Keeps t.amount
  | liquidations => fun l => TradingPair.fromStr u l.pair.toCanonical = some l.pair
      ∧ x.Keeps l.price ∧ x.Keeps l.amount
  | fundingRates => fun fr => TradingPair.fromStr u fr.pair.toCanonical = some fr.pair
      ∧ x.Keeps fr.fundingRate ∧ ∀ d ∈ fr.premium, x.Keeps d
  | settlements => fun fs => TradingPair.fromStr u fs.pair.toCanonical = some fs.pair
      ∧ x.Keeps fs.fundingRate ∧ ∀ d ∈ fs.premium, x.Keeps d
  | openInterest => fun oi => TradingPair.fromStr u oi.pair.toCanonical = some oi.pair
      ∧ x.Keeps oi.openInterest ∧ (∀ d ∈ oi.openInterestValue, x.Keeps d)
      ∧ ∀ d ∈ oi.markPx, x.Keeps d
  | aggregates => fun _ => True

theorem readsAs (kind : RecordKind) (more : List (String × Projection F (kind.Record F))) :
    ReadsAs (kind.readBatch x u path) (kind.columns x ++ more) (kind.decode x u)
      (Malformed.error path) := by
  cases kind with
  | trades => exact Trade.readsAs x u path more
  | liquidations => exact Liquidation.readsAs x u path more
  | fundingRates => exact FundingRate.readsAs x u path more
  | settlements => exact FundingSettlement.readsAs x u path more
  | openInterest => exact OpenInterest.readsAs x u path more
  | aggregates => exact MarketAggregate.readsAs x path more

theorem map_value_stored_iff (d : Option Decimal) :
    (d.map x.stored).map Decimal.value = d.map Decimal.value ↔ ∀ d' ∈ d, x.Keeps d' := by
  cases d with
  | none => exact iff_of_true rfl fun d' hd' => by cases hd'
  | some d =>
    constructor
    · intro h d' hd'
      cases hd'
      exact Option.some.inj h
    · intro h
      exact congrArg some (h d rfl)

/-- A record whose symbol is read is read as itself if its symbol reads as its pair. -/
theorem exists_map_parseSymbol_iff {R : Type} {symbol : String} {p : TradingPair}
    {f : TradingPair → R} {P : R → Prop} {Q : Prop} (h : ∀ pair, P (f pair) ↔ pair = p ∧ Q) :
    (∃ y, (parseSymbol u symbol).map f = .ok y ∧ P y)
      ↔ TradingPair.fromStr u symbol = some p ∧ Q := by
  unfold parseSymbol
  cases TradingPair.fromStr u symbol with
  | none =>
    refine iff_of_false ?_ (fun hq => by cases hq.1)
    rintro ⟨y, hy, -⟩
    cases hy
  | some pair =>
    constructor
    · rintro ⟨y, hy, hP⟩
      cases hy
      obtain ⟨rfl, hQ⟩ := (h pair).mp hP
      exact ⟨rfl, hQ⟩
    · rintro ⟨hpair, hQ⟩
      cases hpair
      exact ⟨_, rfl, (h _).mpr ⟨rfl, hQ⟩⟩

/-- **A record is read as itself exactly when it is kept.** -/
theorem decode_same_iff (kind : RecordKind) (r : kind.Record F) :
    (∃ y, kind.decode x u r = .ok y ∧ kind.Same y r) ↔ kind.Kept x u r := by
  cases kind with
  | trades =>
    refine exists_map_parseSymbol_iff u fun pair => and_congr_left fun _ => ?_
    exact ⟨fun h => congrArg Trade.pair h, fun h => by rw [h]⟩
  | liquidations =>
    refine exists_map_parseSymbol_iff u fun pair => and_congr_left fun _ => ?_
    exact ⟨fun h => congrArg Liquidation.pair h, fun h => by rw [h]⟩
  | fundingRates =>
    refine exists_map_parseSymbol_iff u fun pair => ?_
    show _ ∧ _ ∧ (r.premium.map x.stored).map _ = _ ↔ _
    rw [map_value_stored_iff]
    refine and_congr_left fun _ => ?_
    exact ⟨fun h => congrArg FundingRate.pair h, fun h => by rw [h]⟩
  | settlements =>
    refine exists_map_parseSymbol_iff u fun pair => ?_
    show _ ∧ _ ∧ (r.premium.map x.stored).map _ = _ ↔ _
    rw [map_value_stored_iff]
    refine and_congr_left fun _ => ?_
    exact ⟨fun h => congrArg FundingSettlement.pair h, fun h => by rw [h]⟩
  | openInterest =>
    refine exists_map_parseSymbol_iff u fun pair => ?_
    show _ ∧ _ ∧ (r.openInterestValue.map x.stored).map _ = _ ∧ (r.markPx.map x.stored).map _ = _
      ↔ _
    rw [map_value_stored_iff, map_value_stored_iff]
    refine and_congr_left fun _ => ?_
    exact ⟨fun h => congrArg OpenInterest.pair h, fun h => by rw [h]⟩
  | aggregates => exact iff_of_true ⟨r, rfl, rfl⟩ trivial

variable (kind : RecordKind) (sizes : BatchSizes)

/-- **What is written comes back exactly when each record is kept.** A file of any kind,
whatever the batches it is read in and whatever columns were added to it since, is read
as the records that were written, in order and with the same numbers, if and only if the
symbol of each record reads as its pair and each of its decimals is still the same as a
floating-point number. An aggregate always is. -/
theorem file_keeps_iff (more : List (String × Projection F (kind.Record F)))
    (rs : List (kind.Record F)) :
    (∃ ys, readFile sizes (kind.readBatch x u path) (.write (kind.columns x ++ more) rs) = .ok ys
        ∧ List.Forall₂ kind.Same ys rs)
      ↔ ∀ r ∈ rs, kind.Kept x u r := by
  have hread : ∀ ys, readFile sizes (kind.readBatch x u path)
        (.write (kind.columns x ++ more) rs) = .ok ys
      ↔ List.Forall₂ (fun r y => kind.decode x u r = .ok y) rs ys :=
    fun ys => readFile_ok_iff (kind.readsAs x u path more) sizes
  simp only [hread]
  rw [exists_forall₂_iff]
  exact forall₂_congr fun r _ => kind.decode_same_iff x u r

/-- A record of an older file is read as one that holds the defaults. -/
theorem readsAs_take {k : ℕ} (hk : kind.required ≤ k) (hlt : k < (kind.columns x).length) :
    ReadsAs (kind.readBatch x u path) ((kind.columns x).take k)
      (fun r => kind.decode x u (kind.older k r)) (Malformed.error path) := by
  cases kind with
  | trades => exact Trade.readsAs_take x u path hk hlt
  | liquidations => exact absurd (hk.trans_lt hlt) (lt_irrefl 6)
  | fundingRates => exact FundingRate.readsAs_take x u path hk hlt
  | settlements => exact absurd (hk.trans_lt hlt) (lt_irrefl 7)
  | openInterest => exact OpenInterest.readsAs_take x u path hk hlt
  | aggregates => exact absurd (hk.trans_lt hlt) (lt_irrefl 26)

/-- A batch that lacks a column which is required. -/
theorem readBatch_take {k : ℕ} (hk : k < kind.required) (rs : List (kind.Record F)) :
    kind.readBatch x u path (.write ((kind.columns x).take k) rs) = .error .panicked := by
  cases kind with
  | trades =>
    replace hk : k < 7 := hk
    interval_cases k <;> rfl
  | liquidations =>
    replace hk : k < 6 := hk
    interval_cases k <;> rfl
  | fundingRates =>
    replace hk : k < 5 := hk
    interval_cases k <;> rfl
  | settlements =>
    replace hk : k < 7 := hk
    interval_cases k <;> rfl
  | openInterest =>
    replace hk : k < 5 := hk
    interval_cases k <;> rfl
  | aggregates =>
    replace hk : k < 26 := hk
    interval_cases k <;> rfl

theorem older_of_length_le {k : ℕ} (hk : (kind.columns x).length ≤ k) (r : kind.Record F) :
    kind.older k r = r := by
  cases kind with
  | trades => exact Trade.older_of_le hk r
  | liquidations => rfl
  | fundingRates => exact if_pos hk
  | settlements => rfl
  | openInterest => exact if_pos hk
  | aggregates => rfl

/-- **An older file is read as a new one that holds the defaults**, if it has the columns
that are required; else the reader panics, unless there are no rows. -/
theorem narrow_read (k : ℕ) (rs : List (kind.Record F)) :
    readFile sizes (kind.readBatch x u path) (.write ((kind.columns x).take k) rs)
      = if kind.required ≤ k then
          readFile sizes (kind.readBatch x u path)
            (.write (kind.columns x) (rs.map (kind.older k)))
        else if rs = [] then .ok [] else .error .panicked := by
  have hfull := kind.readsAs x u path []
  rw [List.append_nil] at hfull
  split
  · next hk =>
    rcases Nat.lt_or_ge k (kind.columns x).length with hlt | hge
    · rw [readFile_write (kind.readsAs_take x u path hk hlt), readFile_write hfull,
        List.length_map, readAll_map]
    · rw [List.take_of_length_le hge,
        (List.map_congr_left fun r _ => kind.older_of_length_le x hge r).trans (List.map_id rs)]
  · next hk =>
    exact readFile_eq_error (kind.readBatch_take x u path (Nat.lt_of_not_le hk)) sizes rs

/-- **What became of older files.** The first columns of a file are read as a file of all
columns would be that holds the defaults in the others – the same records, or the same
error – if those that are required are among them; if not, the reader panics at the first
row. A file of funding rates or of open interest that has the epoch in seconds is read as
one that holds zeros. -/
theorem older_read :
    (∀ (kind : RecordKind) (k : ℕ) (rs : List (kind.Record F)),
      readFile sizes (kind.readBatch x u path) (.write ((kind.columns x).take k) rs)
        = if kind.required ≤ k then
            readFile sizes (kind.readBatch x u path)
              (.write (kind.columns x) (rs.map (kind.older k)))
          else if rs = [] then .ok [] else .error .panicked)
      ∧ (∀ (epoch : FundingRate → ℕ) (frs : List FundingRate),
        readFile sizes (FundingRate.readBatch x u path)
            (.write ((FundingRate.columns x).set 7 ("conn_epoch", .uint32 epoch)) frs)
          = readFile sizes (FundingRate.readBatch x u path)
            (.write (FundingRate.columns x) (frs.map fun fr => { fr with connEpochUs := 0 })))
      ∧ ∀ (epoch : OpenInterest → ℕ) (ois : List OpenInterest),
        readFile sizes (OpenInterest.readBatch x u path)
            (.write ((OpenInterest.columns x).set 7 ("conn_epoch", .uint32 epoch)) ois)
          = readFile sizes (OpenInterest.readBatch x u path)
            (.write (OpenInterest.columns x) (ois.map fun oi => { oi with connEpochUs := 0 })) := by
  refine ⟨fun kind k rs => kind.narrow_read x u path sizes k rs, fun epoch frs => ?_,
    fun epoch ois => ?_⟩
  · have hfull := FundingRate.readsAs x u path []
    rw [List.append_nil] at hfull
    rw [readFile_write (FundingRate.readsAs_seconds x u path epoch), readFile_write hfull,
      List.length_map, readAll_map]
  · have hfull := OpenInterest.readsAs x u path []
    rw [List.append_nil] at hfull
    rw [readFile_write (OpenInterest.readsAs_seconds x u path epoch), readFile_write hfull,
      List.length_map, readAll_map]

end RecordKind
