import Aetelier.MarketSynchronizer
import Aetelier.ParquetFlusher

/-!
# The two flushes of a synchronizer

The rows a synchronizer has emitted are kept until one of two flushes writes
them. `flush_to_parquet` takes the batch apart and writes a file for each data
type it has rows of; it borrows the buffer and clears it after the last file.
`flush_aggregate_to_parquet` writes one file of statistics, a row for each
snapshot; it takes the buffer first and writes afterwards.

So the first keeps the buffer wherever a write fails, and the second loses it
(`FlushCall.keepsBuffer_iff`). Over whole runs, every row emitted is in a file
or in the buffer as long as no aggregate is refused
(`MarketFlushes.nothing_lost_iff`).

Directories and files are those of an `FlushIo`, which may fail at every call.
Floating-point arithmetic is a parameter.
-/

/-- The text of an error. -/
def PersistError.display : PersistError → String
  | io text => "IO error: " ++ text
  | json text => "JSON error: " ++ text
  | parse text => "Parse error: " ++ text
  | unsupportedFormat text => "Unsupported format: " ++ text

/-! ## Aggregates -/

/-- The product of two decimals. -/
def Decimal.mul (a b : Decimal) : Decimal := ⟨a.mantissa * b.mantissa, a.scale + b.scale⟩

/-- What the aggregates ask of floating-point numbers. -/
structure Floats (F : Type) where
  /-- A natural number. -/
  ofNat : ℕ → F
  /-- `decimal_to_f64`. -/
  ofDecimal : Decimal → F
  add : F → F → F
  sub : F → F → F
  mul : F → F → F
  div : F → F → F
  /-- `Iterator::sum`. -/
  sum : List F → F
  /-- `x > 0.0`. -/
  pos : F → Bool

/-- A number as an `i64`. -/
def asI64 (n : ℤ) : ℤ := n.bmod (2 ^ 64)

/-- **The statistics of a snapshot.** -/
structure MarketAggregate (F : Type) where
  /-- Grid-aligned timestamp. -/
  tsUs : ℕ
  /-- Mid price, zero if there is none. -/
  obMidPrice : F
  /-- Best ask minus best bid. -/
  obSpread : F
  /-- Volume imbalance over all levels. -/
  obImbalance : F
  /-- Total amount traded. -/
  tradeVolume : F
  /-- Volume-weighted average price. -/
  tradeVwap : F
  /-- Number of trades. -/
  tradeCount : ℕ
  /-- Total traded notional. -/
  tradeNotional : F
  /-- Amount bought. -/
  tradeBuyVolume : F
  /-- Notional bought. -/
  tradeBuyNotional : F
  /-- Number of buys. -/
  tradeBuyCount : ℕ
  /-- Amount sold. -/
  tradeSellVolume : F
  /-- Notional sold. -/
  tradeSellNotional : F
  /-- Number of sells. -/
  tradeSellCount : ℕ
  /-- Order-flow imbalance. -/
  tradeImbalance : F
  /-- First price. -/
  tradePxFirst : F
  /-- Last price. -/
  tradePxLast : F
  /-- Liquidated notional. -/
  liqNotional : F
  /-- Number of liquidations. -/
  liqCount : ℕ
  /-- Directional imbalance of liquidations. -/
  liqImbalance : F
  /-- Latest funding rate. -/
  frRate : F
  /-- The rate over a year. -/
  frAnnualized : F
  /-- Time to the next settlement. -/
  frNextSettlementDelta : ℤ
  /-- Open contracts. -/
  oiContracts : F
  /-- Their value. -/
  oiValue : F
  /-- Change of the open contracts from the snapshot before. -/
  oiChange : F

namespace MarketAggregate

variable {F : Type} (fl : Floats F)

/-- A ratio, zero if the denominator is not positive. -/
def ratio (num den : F) : F := if fl.pos den then fl.div num den else fl.ofNat 0

/-- Volume, notional and count of the trades of a side. -/
def takerFlow (side : TradeSide) (trades : List Trade) : F × F × ℕ :=
  trades.foldl (fun acc t =>
      if t.side = side then
        (fl.add acc.1 (fl.ofDecimal t.amount),
          fl.add acc.2.1 (fl.mul (fl.ofDecimal t.price) (fl.ofDecimal t.amount)), acc.2.2 + 1)
      else acc)
    (fl.ofNat 0, fl.ofNat 0, 0)

/-- Notional of the liquidations of a side. -/
def liqFlow (side : TradeSide) (liquidations : List Liquidation) : F :=
  liquidations.foldl (fun acc l =>
      if l.side = side then fl.add acc (fl.mul (fl.ofDecimal l.price) (fl.ofDecimal l.amount))
      else acc)
    (fl.ofNat 0)

/-- Mid price, spread and imbalance of a book. -/
def bookStats (orderbook : Option Orderbook) : F × F × F :=
  match orderbook with
  | none => (fl.ofNat 0, fl.ofNat 0, fl.ofNat 0)
  | some ob =>
    let bestBid := (ob.bids.last?.map (fun e => fl.ofDecimal e.1)).getD (fl.ofNat 0)
    let bestAsk := (ob.asks.first?.map (fun e => fl.ofDecimal e.1)).getD (fl.ofNat 0)
    let bothSides := fl.pos bestBid && fl.pos bestAsk
    let bidVol := fl.sum (ob.bids.entries.map (fun e => fl.ofDecimal e.2.volume))
    let askVol := fl.sum (ob.asks.entries.map (fun e => fl.ofDecimal e.2.volume))
    (if bothSides then fl.div (fl.add bestBid bestAsk) (fl.ofNat 2) else fl.ofNat 0,
      if bothSides then fl.sub bestAsk bestBid else fl.ofNat 0,
      ratio fl (fl.sub bidVol askVol) (fl.add bidVol askVol))

/-- Rate, annualized rate and time to the next settlement. -/
def fundingStats (fundingRate : List FundingRate) : F × F × ℤ :=
  match fundingRate.getLast? with
  | none => (fl.ofNat 0, fl.ofNat 0, 0)
  | some fr =>
    let rate := fl.ofDecimal fr.fundingRate
    (rate, fl.mul rate (fl.div (fl.ofNat 8760) (fl.ofNat fr.intervalHours)),
      if 0 < fr.nextFundingTsUs then asI64 (asI64 fr.nextFundingTsUs - asI64 fr.effectiveTsUs)
      else 0)

/-- Contracts and value of the open interest. -/
def openInterestStats (openInterest : List OpenInterest) : F × F :=
  match openInterest.getLast? with
  | none => (fl.ofNat 0, fl.ofNat 0)
  | some oi =>
    let value := oi.openInterestValue.or (oi.markPx.map (fun px => oi.openInterest.mul px))
    (fl.ofDecimal oi.openInterest, (value.map fl.ofDecimal).getD (fl.ofNat 0))

/-- `from_snapshot`. -/
def fromSnapshot (snap : MarketSnapshot) (prevOi : F) : MarketAggregate F :=
  let (obMidPrice, obSpread, obImbalance) := bookStats fl snap.orderbook
  let (buyVolume, buyNotional, buyCount) := takerFlow fl .buy snap.trades
  let (sellVolume, sellNotional, sellCount) := takerFlow fl .sell snap.trades
  let tradeVolume := fl.add buyVolume sellVolume
  let tradeNotional := fl.add buyNotional sellNotional
  let liqBuy := liqFlow fl .buy snap.liquidations
  let liqSell := liqFlow fl .sell snap.liquidations
  let (frRate, frAnnualized, frNextSettlementDelta) := fundingStats fl snap.fundingRate
  let (oiContracts, oiValue) := openInterestStats fl snap.openInterest
  { tsUs := snap.tsUs
    obMidPrice := obMidPrice
    obSpread := obSpread
    obImbalance := obImbalance
    tradeVolume := tradeVolume
    tradeVwap := ratio fl tradeNotional tradeVolume
    tradeCount := snap.trades.length
    tradeNotional := tradeNotional
    tradeBuyVolume := buyVolume
    tradeBuyNotional := buyNotional
    tradeBuyCount := buyCount
    tradeSellVolume := sellVolume
    tradeSellNotional := sellNotional
    tradeSellCount := sellCount
    tradeImbalance := ratio fl (fl.sub buyVolume sellVolume) tradeVolume
    tradePxFirst := (snap.trades.head?.map (fun t => fl.ofDecimal t.price)).getD (fl.ofNat 0)
    tradePxLast := (snap.trades.getLast?.map (fun t => fl.ofDecimal t.price)).getD (fl.ofNat 0)
    liqNotional := fl.add liqBuy liqSell
    liqCount := snap.liquidations.length
    liqImbalance := ratio fl (fl.sub liqBuy liqSell) (fl.add liqBuy liqSell)
    frRate := frRate
    frAnnualized := frAnnualized
    frNextSettlementDelta := frNextSettlementDelta
    oiContracts := oiContracts
    oiValue := oiValue
    oiChange := fl.sub oiContracts prevOi }

/-- The loop of `market_aggregate`: each snapshot sees the open contracts of
the one before. -/
def ofSnapshots (prevOi : F) : List MarketSnapshot → List (MarketAggregate F)
  | [] => []
  | snap :: rest =>
    fromSnapshot fl snap prevOi :: ofSnapshots (fromSnapshot fl snap prevOi).oiContracts rest

end MarketAggregate

/-! ## Writing -/

/-- **Directories and files**: what each call of a flush returns. A writer
returns the path of its file. -/
structure FlushIo (F : Type) where
  /-- `create_dir_all`. -/
  createDirAll : String → Except PersistError Unit
  /-- `write_ob_parquet`. -/
  orderbooks : List Orderbook → String → Except PersistError String
  /-- `write_trades_parquet_timestamped`. -/
  trades : List Trade → String → Except PersistError String
  /-- `write_liquidations_parquet_timestamped`. -/
  liquidations : List Liquidation → String → Except PersistError String
  /-- `write_funding_parquet_timestamped`. -/
  fundingRates : List FundingRate → String → Except PersistError String
  /-- `write_oi_parquet_timestamped`. -/
  openInterests : List OpenInterest → String → Except PersistError String
  /-- `write_funding_settlement_parquet_timestamped`. -/
  fundingSettlements : List FundingSettlement → String → Except PersistError String
  /-- `write_market_aggregate_parquet`. -/
  aggregates : List (MarketAggregate F) → String → Except PersistError String

/-- The directory of a data type in the output directory. -/
def LeafDatatype.flushDir : LeafDatatype → String
  | orderbooks => "orderbooks"
  | trades => "trades"
  | liquidations => "liquidations"
  | fundingRates => "fundings"
  | openInterests => "open_interests"
  | fundingSettlements => "funding_settlements"

/-- What a flush reports. -/
structure FlushResult where
  /-- The file of order books. -/
  orderbookPath : Option String := none
  /-- The file of trades. -/
  tradesPath : Option String := none
  /-- The file of liquidations. -/
  liquidationsPath : Option String := none
  /-- The file of funding rates. -/
  fundingPath : Option String := none
  /-- The file of open interest. -/
  openInterestPath : Option String := none
  /-- The file of settlements. -/
  fundingSettlementPath : Option String := none
  /-- How many snapshots were flushed. -/
  snapshotCount : ℕ := 0
deriving DecidableEq

namespace FlushIo

variable {F : Type} (io : FlushIo F) (outputDir : String) (d : DecomposedSnapshots)

/-- The file of a data type. An error of the order books is passed on as
text. -/
def writeFile (dir : String) : LeafDatatype → Except PersistError String
  | .orderbooks => (io.orderbooks d.orderbooks dir).mapError (fun e => .parse e.display)
  | .trades => io.trades d.trades dir
  | .liquidations => io.liquidations d.liquidations dir
  | .fundingRates => io.fundingRates d.fundingRates dir
  | .openInterests => io.openInterests d.openInterests dir
  | .fundingSettlements => io.fundingSettlements d.fundingSettlements dir

/-- A data type: nothing to do without rows, else its directory and its
file. -/
def writeSource (kind : LeafDatatype) : Except PersistError (Option String) :=
  if d.rows kind = 0 then .ok none
  else do
    let dir := Str.joinPath outputDir kind.flushDir
    io.createDirAll dir
    let path ← io.writeFile d dir kind
    return some path

/-- All data types, one after the other. -/
def writeSources : Except PersistError FlushResult := do
  let orderbookPath ← io.writeSource outputDir d .orderbooks
  let tradesPath ← io.writeSource outputDir d .trades
  let liquidationsPath ← io.writeSource outputDir d .liquidations
  let fundingPath ← io.writeSource outputDir d .fundingRates
  let openInterestPath ← io.writeSource outputDir d .openInterests
  let fundingSettlementPath ← io.writeSource outputDir d .fundingSettlements
  return { orderbookPath, tradesPath, liquidationsPath, fundingPath, openInterestPath,
           fundingSettlementPath }

/-- **Every output is written**: each data type with rows has its directory
and its file. -/
def Written : Prop :=
  ∀ kind, d.rows kind ≠ 0 →
    (io.createDirAll (Str.joinPath outputDir kind.flushDir)).isOk = true ∧
      (io.writeFile d (Str.joinPath outputDir kind.flushDir) kind).isOk = true

end FlushIo

namespace MarketSynchronizer

variable {F : Type} (fl : Floats F) (io : FlushIo F) (outputDir : String)

/-- `market_aggregate`: takes the buffer. -/
def marketAggregate (s : MarketSynchronizer) : MarketSynchronizer × List (MarketAggregate F) :=
  ({ s with buffer := [] }, MarketAggregate.ofSnapshots fl (fl.ofNat 0) s.buffer)

/-- `flush_to_parquet`: the buffer is cleared after the last write. -/
def flushToParquet (s : MarketSynchronizer) :
    MarketSynchronizer × Except PersistError FlushResult :=
  if s.buffer.isEmpty then (s, .ok {})
  else
    match io.writeSources outputDir (decomposeSnapshots s.buffer) with
    | .error e => (s, .error e)
    | .ok result =>
      ({ s with buffer := [] }, .ok { result with snapshotCount := s.buffer.length })

/-- `flush_aggregate_to_parquet`: the buffer is taken before the write. -/
def flushAggregateToParquet (s : MarketSynchronizer) :
    MarketSynchronizer × Except PersistError String :=
  let (s', aggregates) := s.marketAggregate fl
  (s', io.aggregates aggregates outputDir)

end MarketSynchronizer

/-! ## What a flush keeps -/

/-- The two flushes. -/
inductive FlushCall where
  | sources
  | aggregate
deriving DecidableEq

namespace FlushCall

variable {F : Type} (fl : Floats F) (io : FlushIo F) (outputDir : String)

/-- The synchronizer after a flush, and whether the flush returns `Ok`. -/
def run (s : MarketSynchronizer) : FlushCall → MarketSynchronizer × Except PersistError Unit
  | sources => ((s.flushToParquet io outputDir).1,
      (s.flushToParquet io outputDir).2.map (fun _ => ()))
  | aggregate => ((s.flushAggregateToParquet fl io outputDir).1,
      (s.flushAggregateToParquet fl io outputDir).2.map (fun _ => ()))

/-- Every output a flush has is written. -/
def AllWritten (s : MarketSynchronizer) : FlushCall → Prop
  | sources => io.Written outputDir (decomposeSnapshots s.buffer)
  | aggregate => (io.aggregates (s.marketAggregate fl).2 outputDir).isOk = true

/-- **The buffer is kept**: as it was, if the flush fails; and it is emptied
only when every output was written. -/
def KeepsBuffer (s : MarketSynchronizer) (call : FlushCall) : Prop :=
  (∀ e, (call.run fl io outputDir s).2 = .error e →
      (call.run fl io outputDir s).1.buffer = s.buffer) ∧
    ((call.run fl io outputDir s).1.buffer ≠ s.buffer →
      (call.run fl io outputDir s).1.buffer = [] ∧ call.AllWritten fl io outputDir s)

end FlushCall

section Keeps

variable {F : Type} {fl : Floats F} {io : FlushIo F} {outputDir : String}
  {d : DecomposedSnapshots} {s : MarketSynchronizer}

theorem isOk_iff {ε α : Type} {r : Except ε α} : r.isOk = true ↔ ∃ a, r = .ok a := by
  cases r with
  | error e => exact iff_of_false Bool.false_ne_true (fun ⟨_, h⟩ => nomatch h)
  | ok a => exact iff_of_true rfl ⟨a, rfl⟩

theorem bind_eq_ok_iff {ε α β : Type} {r : Except ε α} {f : α → Except ε β} {b : β} :
    r >>= f = .ok b ↔ ∃ a, r = .ok a ∧ f a = .ok b := by
  cases r with
  | error e => exact iff_of_false (nomatch ·) (fun ⟨_, h, _⟩ => nomatch h)
  | ok a => exact ⟨fun h => ⟨a, rfl, h⟩, fun ⟨_, ha, h⟩ => Except.ok.inj ha ▸ h⟩

theorem FlushIo.writeSource_isOk_iff {kind : LeafDatatype} :
    (io.writeSource outputDir d kind).isOk = true ↔ (d.rows kind ≠ 0 →
      (io.createDirAll (Str.joinPath outputDir kind.flushDir)).isOk = true ∧
        (io.writeFile d (Str.joinPath outputDir kind.flushDir) kind).isOk = true) := by
  unfold writeSource
  by_cases hrows : d.rows kind = 0
  · rw [if_pos hrows]
    exact iff_of_true rfl (fun hne => absurd hrows hne)
  · rw [if_neg hrows, imp_iff_right hrows, isOk_iff, isOk_iff, isOk_iff]
    simp only [bind_eq_ok_iff]
    constructor
    · rintro ⟨_, u, hu, path, hpath, -⟩
      exact ⟨⟨u, hu⟩, path, hpath⟩
    · rintro ⟨⟨u, hu⟩, path, hpath⟩
      exact ⟨some path, u, hu, path, hpath, rfl⟩

/-- The data types are written one after the other, so all or not all. -/
theorem FlushIo.writeSources_isOk_iff :
    (io.writeSources outputDir d).isOk = true ↔ io.Written outputDir d := by
  have hwritten : io.Written outputDir d ↔
      ∀ kind, ∃ path, io.writeSource outputDir d kind = .ok path :=
    forall_congr' (fun kind => writeSource_isOk_iff.symm.trans isOk_iff)
  rw [hwritten, isOk_iff]
  unfold writeSources
  simp only [bind_eq_ok_iff]
  constructor
  · rintro ⟨_, p, hp, q, hq, r, hr, t, ht, v, hv, w, hw, -⟩ kind
    cases kind with
    | orderbooks => exact ⟨p, hp⟩
    | trades => exact ⟨q, hq⟩
    | liquidations => exact ⟨r, hr⟩
    | fundingRates => exact ⟨t, ht⟩
    | openInterests => exact ⟨v, hv⟩
    | fundingSettlements => exact ⟨w, hw⟩
  · intro hall
    choose path hpath using hall
    exact ⟨_, _, hpath _, _, hpath _, _, hpath _, _, hpath _, _, hpath _, _, hpath _, rfl⟩

/-- A flush that returns `Ok` leaves no rows. -/
theorem FlushCall.buffer_of_ok {call : FlushCall}
    (hok : (call.run fl io outputDir s).2.isOk = true) :
    (call.run fl io outputDir s).1.buffer = [] := by
  cases call with
  | aggregate => rfl
  | sources =>
    unfold run MarketSynchronizer.flushToParquet at hok ⊢
    dsimp only at hok ⊢
    split
    · next hempty => exact List.isEmpty_iff.mp hempty
    · next hne =>
      rw [if_neg hne] at hok
      split
      · next e he =>
        rw [he] at hok
        exact Bool.noConfusion hok
      · rfl

/-- A flush of the sources that fails changes nothing, and one that empties
the buffer has written everything. -/
theorem FlushCall.keepsBuffer_sources (fl : Floats F) (io : FlushIo F) (outputDir : String)
    (s : MarketSynchronizer) : FlushCall.sources.KeepsBuffer fl io outputDir s := by
  unfold KeepsBuffer run AllWritten MarketSynchronizer.flushToParquet
  dsimp only
  split
  · exact ⟨fun _ _ => rfl, fun hne => absurd rfl hne⟩
  · split
    · exact ⟨fun _ _ => rfl, fun hne => absurd rfl hne⟩
    · next result hok =>
      refine ⟨fun e he => (nomatch he), fun _ => ⟨rfl, ?_⟩⟩
      exact FlushIo.writeSources_isOk_iff.mp (isOk_iff.mpr ⟨result, hok⟩)

/-- A flush of the aggregates keeps the buffer if there is nothing to lose, or
the file is written. -/
theorem FlushCall.keepsBuffer_aggregate_iff :
    FlushCall.aggregate.KeepsBuffer fl io outputDir s ↔ s.buffer = [] ∨
      (io.aggregates (MarketAggregate.ofSnapshots fl (fl.ofNat 0) s.buffer) outputDir).isOk
        = true := by
  unfold KeepsBuffer run AllWritten MarketSynchronizer.flushAggregateToParquet
    MarketSynchronizer.marketAggregate
  dsimp only
  generalize io.aggregates (MarketAggregate.ofSnapshots fl (fl.ofNat 0) s.buffer) outputDir = r
  by_cases hbuffer : s.buffer = []
  · rw [hbuffer]
    exact iff_of_true ⟨fun _ _ => rfl, fun hne => absurd rfl hne⟩ (Or.inl rfl)
  · cases r with
    | error e =>
      refine iff_of_false (fun h => hbuffer (h.1 e rfl).symm) (fun h => ?_)
      exact h.elim hbuffer Bool.false_ne_true
    | ok path => exact iff_of_true ⟨fun e he => (nomatch he), fun _ => ⟨rfl, rfl⟩⟩ (Or.inr rfl)

/-- **Which flushes keep the buffer**: that of the sources always; that of the
aggregates exactly if there is nothing to lose, or the file is written. -/
theorem FlushCall.keepsBuffer_iff (fl : Floats F) (io : FlushIo F) (outputDir : String)
    (s : MarketSynchronizer) (call : FlushCall) :
    call.KeepsBuffer fl io outputDir s ↔ call = .sources ∨ s.buffer = [] ∨
      (io.aggregates (MarketAggregate.ofSnapshots fl (fl.ofNat 0) s.buffer) outputDir).isOk
        = true := by
  cases call with
  | sources => exact iff_of_true (keepsBuffer_sources fl io outputDir s) (Or.inl rfl)
  | aggregate => exact keepsBuffer_aggregate_iff.trans (or_iff_right (nomatch ·)).symm

end Keeps

/-! ## An aggregate that cannot be written -/

/-- Exact arithmetic. -/
def Floats.exact : Floats ℚ where
  ofNat n := n
  ofDecimal := Decimal.value
  add := (· + ·)
  sub := (· - ·)
  mul := (· * ·)
  div := (· / ·)
  sum := List.sum
  pos x := decide (0 < x)

/-- A directory whose parent is a file. -/
def FlushIo.notADirectory : FlushIo ℚ where
  createDirAll _ := .error (.io "Not a directory (os error 20)")
  orderbooks _ _ := .error (.io "Not a directory (os error 20)")
  trades _ _ := .error (.io "Not a directory (os error 20)")
  liquidations _ _ := .error (.io "Not a directory (os error 20)")
  fundingRates _ _ := .error (.io "Not a directory (os error 20)")
  openInterests _ _ := .error (.io "Not a directory (os error 20)")
  fundingSettlements _ _ := .error (.io "Not a directory (os error 20)")
  aggregates _ _ := .error (.io "Not a directory (os error 20)")

/-- A synchronizer that has emitted a row. -/
def oneRow : MarketSynchronizer :=
  { MarketSynchronizer.withClockMode .table .table 1000000 (by decide) .externalClock with
    buffer := [⟨2000000, none, [], [], [], [], []⟩] }

/-- **The aggregate flush fails and its row is gone.** -/
theorem FlushCall.not_keepsBuffer :
    ¬ (∀ (fl : Floats ℚ) (io : FlushIo ℚ) (outputDir : String) (s : MarketSynchronizer)
        (call : FlushCall), call.KeepsBuffer fl io outputDir s) ∧
      (FlushCall.aggregate.run Floats.exact FlushIo.notADirectory "blocker/out" oneRow).2.isOk
        = false ∧
      (FlushCall.aggregate.run Floats.exact FlushIo.notADirectory "blocker/out" oneRow).1.buffer
        = [] := by
  refine ⟨fun h => ?_, rfl, rfl⟩
  have hkept := (h Floats.exact FlushIo.notADirectory "blocker/out" oneRow .aggregate).1 _ rfl
  exact List.cons_ne_nil _ _ hkept.symm

/-! ## Whole runs -/

/-- A synchronizer between flushes, and beside it all rows it has emitted and
those that are in a file. -/
structure MarketFlushes where
  /-- The synchronizer. -/
  sync : MarketSynchronizer
  /-- The rows emitted. -/
  emitted : List MarketSnapshot
  /-- The rows of the flushes that have returned `Ok`. -/
  inFiles : List MarketSnapshot

/-- What happens to a buffer. -/
inductive FlushInput (F : Type) where
  /-- A row is emitted. -/
  | emit (row : MarketSnapshot)
  /-- A flush, and what its files do. -/
  | flush (call : FlushCall) (io : FlushIo F) (outputDir : String)

namespace MarketFlushes

variable {F : Type} (fl : Floats F)

/-- Rows and flushes, one after another. -/
def flushing : Machine MarketFlushes (FlushInput F) Unit where
  step m
    | .emit row =>
      (⟨{ m.sync with buffer := m.sync.buffer ++ [row] }, m.emitted ++ [row], m.inFiles⟩, [])
    | .flush call io outputDir =>
      let r := call.run fl io outputDir m.sync
      (⟨r.1, m.emitted, if r.2.isOk then m.inFiles ++ m.sync.buffer else m.inFiles⟩, [])

/-- Every row is in a file or in the buffer, in the order of emission. -/
def NothingLost (m : MarketFlushes) : Prop := m.emitted = m.inFiles ++ m.sync.buffer

/-- An aggregate that is refused while there are rows. -/
def Drops (m : MarketFlushes) : FlushInput F → Prop
  | .emit _ => False
  | .flush call io outputDir => call = .aggregate ∧ m.sync.buffer ≠ [] ∧
      (call.run fl io outputDir m.sync).2.isOk = false

/-- **No row is lost** in a run exactly if no aggregate is refused in it while
there are rows. -/
theorem nothing_lost_iff (s : MarketSynchronizer) (inputs : List (FlushInput F)) :
    (∀ pre, pre <+: inputs → ((flushing fl).run ⟨s, s.buffer, []⟩ pre).1.NothingLost) ↔
      (flushing fl).Meets (fun m input => ¬ m.Drops fl input) ⟨s, s.buffer, []⟩ inputs := by
  refine (flushing fl).forall_prefix_iff_meets (I := fun _ => True) (S := NothingLost)
    (fun _ _ _ => trivial) (fun m input _ hm => ?_) trivial
    (show NothingLost ⟨s, s.buffer, []⟩ from rfl) inputs
  cases input with
  | emit row =>
    refine iff_of_true ?_ id
    show m.emitted ++ [row] = m.inFiles ++ (m.sync.buffer ++ [row])
    rw [hm, List.append_assoc]
  | flush call io outputDir =>
    show m.emitted = (if (call.run fl io outputDir m.sync).2.isOk then m.inFiles ++ m.sync.buffer
      else m.inFiles) ++ (call.run fl io outputDir m.sync).1.buffer ↔ ¬ (_ ∧ _ ∧ _)
    rw [hm]
    by_cases hok : (call.run fl io outputDir m.sync).2.isOk = true
    · rw [if_pos hok, FlushCall.buffer_of_ok hok, List.append_nil]
      exact iff_of_true rfl (fun h => Bool.noConfusion (hok.symm.trans h.2.2))
    · rw [if_neg hok, List.append_right_inj]
      cases call with
      | sources =>
        refine iff_of_true ?_ (nomatch ·.1)
        obtain ⟨e, he⟩ : ∃ e, (FlushCall.sources.run fl io outputDir m.sync).2 = .error e := by
          cases hres : (FlushCall.sources.run fl io outputDir m.sync).2 with
          | error e => exact ⟨e, rfl⟩
          | ok u => exact absurd (isOk_iff.mpr ⟨u, hres⟩) hok
        exact ((FlushCall.keepsBuffer_sources fl io outputDir m.sync).1 e he).symm
      | aggregate =>
        refine ⟨fun hempty ⟨_, hne, _⟩ => hne hempty, fun h => ?_⟩
        by_contra hne
        exact h ⟨rfl, hne, Bool.eq_false_iff.mpr hok⟩

end MarketFlushes
