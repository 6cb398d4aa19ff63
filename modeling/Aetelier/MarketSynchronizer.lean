import Aetelier.MarketTypes
import Aetelier.HashMap

/-!
# The market synchronizer

`MarketSynchronizer` aligns order books, trades, liquidations, funding rates
and open interest to a uniform grid and emits one `MarketSnapshot` per
period. A row labelled `p` closes the content period
`[(p - 1) * period, p * period)`, so an event of grid period `q` belongs to
the row `q + 1`. A clock – the book timestamps of a symbol, the trades, the
liquidations, or an external one – decides when rows are emitted; the
events are kept pending until then, and a book history gives each row the
book as of its closing boundary.

The four loops that distribute pending events are one loop with the kind's
row and its place in the row as parameters (`drainKind`); settlements have a
loop of their own, since they have no late branch.

Timestamps and periods are `u64` in the source and natural numbers here.
The only sums are `q + 1` and `(p + 1) * period`, which fit in 64 bits for
every timestamp below `2 ^ 63`.
-/

/-- Which feed drives the grid clock. -/
inductive ClockMode where
  | orderbookDriven
  | tradeDriven
  | liquidationDriven
  | externalClock
deriving DecidableEq, Repr

/-- Maximum periods to forward-fill during gaps. -/
def maxGapFill : ℕ := 10000

/-- `u64::MAX`, the row bound that stands for "the latest book". -/
def u64Max : ℕ := 2 ^ 64 - 1

/-- One emitted period's events. -/
structure PeriodEvents where
  trades : List Trade := []
  liquidations : List Liquidation := []
  funding : List FundingRate := []
  openInterest : List OpenInterest := []
  fundingSettlements : List FundingSettlement := []

/-- The book history of a symbol: the last book of each grid period. -/
abbrev BookHistory := OrdMap ℕ Orderbook (id : ℕ → ℕ)

/-- **The synchronizer.** -/
structure MarketSynchronizer where
  /-- Grid spacing. -/
  periodUs : ℕ
  /-- The constructor asserts that the grid spacing is positive. -/
  periodPos : 0 < periodUs
  /-- Emission hold-back window. -/
  emissionDelayUs : ℕ
  /-- The feed that drives the clock. -/
  clockMode : ClockMode
  /-- Last completed period per symbol, in `orderbookDriven` mode. -/
  lastPeriod : HashMap String ℕ
  /-- Clock period of the other modes, `none` until the first driving
  call. -/
  clockPeriod : Option ℕ
  /-- Book history per symbol. -/
  books : HashMap String BookHistory
  /-- Pending trades. -/
  currentTrades : List Trade
  /-- Pending liquidations. -/
  currentLiquidations : List Liquidation
  /-- Pending funding rates. -/
  currentFundingRates : List FundingRate
  /-- Pending funding settlements. -/
  currentFundingSettlements : List FundingSettlement
  /-- Pending open-interest records. -/
  currentOpenInterests : List OpenInterest
  /-- Emitted rows not yet drained. -/
  buffer : List MarketSnapshot
  /-- Rows produced over all drains. -/
  totalCaptured : ℕ
  /-- Events dropped as late. -/
  lateEventsDropped : ℕ
  /-- `finalize` has closed the stream. -/
  finalized : Bool

namespace MarketSynchronizer

/-- A new synchronizer. The two hasher states are those of its two maps. -/
def withClockMode (hashPeriods hashBooks : RandomState String) (periodUs : ℕ)
    (periodPos : 0 < periodUs) (clockMode : ClockMode) : MarketSynchronizer where
  periodUs := periodUs
  periodPos := periodPos
  emissionDelayUs := 0
  clockMode := clockMode
  lastPeriod := HashMap.empty hashPeriods
  clockPeriod := none
  books := HashMap.empty hashBooks
  currentTrades := []
  currentLiquidations := []
  currentFundingRates := []
  currentFundingSettlements := []
  currentOpenInterests := []
  buffer := []
  totalCaptured := 0
  lateEventsDropped := 0
  finalized := false

/-- Set the emission hold-back window. -/
def setEmissionDelayUs (s : MarketSynchronizer) (delayUs : ℕ) : MarketSynchronizer :=
  { s with emissionDelayUs := delayUs }

/-! ## The book history -/

/-- Record a book under the grid period of its timestamp. -/
def recordBook (s : MarketSynchronizer) (key : String) (tsUs : ℕ) (book : Orderbook) :
    MarketSynchronizer :=
  { s with
    books := s.books.insert key
      (((s.books.get? key).getD OrdMap.empty).insert (tsUs / s.periodUs) book) }

/-- The book of a symbol as of the closing boundary of a row. -/
def asOfBook (s : MarketSynchronizer) (key : String) (row : ℕ) : Option Orderbook :=
  (s.books.get? key).bind (fun m => (m.below? row).map Prod.snd)

/-- The same for the first symbol the map visits: global-clock modes track
one symbol. -/
def asOfBookAny (s : MarketSynchronizer) (row : ℕ) : Option Orderbook :=
  s.books.values.head?.bind (fun m => (m.below? row).map Prod.snd)

/-- Drop the book history below the as-of entry of a row. -/
def pruneHistory (lastRow : ℕ) (m : BookHistory) : BookHistory :=
  match m.below? lastRow with
  | some (keep, _) => m.retain (fun k => decide (keep ≤ k))
  | none => m

/-- Drop every symbol's history below its as-of entry for the last emitted
row. -/
def pruneBooks (s : MarketSynchronizer) (lastRow : ℕ) : MarketSynchronizer :=
  { s with books := s.books.mapValues (fun _ m => pruneHistory lastRow m) }

/-! ## Distributing pending events over rows -/

/-- What a pass over one kind of pending events has produced so far. -/
structure Drain (α : Type) where
  /-- The events of each row being emitted. -/
  out : ℕ → PeriodEvents
  /-- The events that stay pending. -/
  kept : List α
  /-- How many events were late. -/
  late : ℕ

section Drain

variable {α : Type} (row : α → ℕ) (push : α → PeriodEvents → PeriodEvents)
variable (prevPeriod lastEmitted : ℕ)

/-- One pending event: late, in a row being emitted, or kept. -/
def drainStep (d : Drain α) (e : α) : Drain α :=
  if row e ≤ prevPeriod then { d with late := d.late + 1 }
  else if row e ≤ lastEmitted then
    { d with out := Function.update d.out (row e) (push e (d.out (row e))) }
  else { d with kept := d.kept ++ [e] }

/-- One pending settlement: in a row being emitted, or kept. -/
def settlementStep (d : Drain α) (e : α) : Drain α :=
  if row e ≤ lastEmitted then
    { d with out := Function.update d.out (row e) (push e (d.out (row e))) }
  else { d with kept := d.kept ++ [e] }

/-- A pass over one kind of pending events. -/
def drainKind (out : ℕ → PeriodEvents) (late : ℕ) (es : List α) : Drain α :=
  es.foldl (drainStep row push prevPeriod lastEmitted) ⟨out, [], late⟩

end Drain

/-- Append a trade to a row. -/
def PeriodEvents.pushTrade (tr : Trade) (ev : PeriodEvents) : PeriodEvents :=
  { ev with trades := ev.trades ++ [tr] }

/-- Append a liquidation to a row. -/
def PeriodEvents.pushLiquidation (lq : Liquidation) (ev : PeriodEvents) : PeriodEvents :=
  { ev with liquidations := ev.liquidations ++ [lq] }

/-- Append a funding rate to a row. -/
def PeriodEvents.pushFunding (fr : FundingRate) (ev : PeriodEvents) : PeriodEvents :=
  { ev with funding := ev.funding ++ [fr] }

/-- Append an open-interest record to a row. -/
def PeriodEvents.pushOpenInterest (oi : OpenInterest) (ev : PeriodEvents) : PeriodEvents :=
  { ev with openInterest := ev.openInterest ++ [oi] }

/-- Append a settlement to a row. -/
def PeriodEvents.pushSettlement (fs : FundingSettlement) (ev : PeriodEvents) : PeriodEvents :=
  { ev with fundingSettlements := ev.fundingSettlements ++ [fs] }

/-- The row a timestamp belongs to. -/
def rowOf (s : MarketSynchronizer) (tsUs : ℕ) : ℕ := tsUs / s.periodUs + 1

/-- The row a settlement goes to: the row of its timestamp, or the first row
still to be emitted. -/
def settlementRow (s : MarketSynchronizer) (prevPeriod : ℕ) (fs : FundingSettlement) : ℕ :=
  max (s.rowOf fs.localTsUs) (prevPeriod + 1)

/-- **Partition every pending event by the row it belongs to.** Rows in
`(prevPeriod, lastEmitted]` get their events, events of later rows stay
pending, and events of rows at or before `prevPeriod` are dropped and
counted. -/
def drainEvents (s : MarketSynchronizer) (prevPeriod lastEmitted : ℕ) :
    MarketSynchronizer × (ℕ → PeriodEvents) :=
  let trades := drainKind (fun tr : Trade => s.rowOf tr.sourceTradeTsUs)
    PeriodEvents.pushTrade prevPeriod lastEmitted (fun _ => {}) 0 s.currentTrades
  let liquidations := drainKind (fun lq : Liquidation => s.rowOf lq.liquidationTsUs)
    PeriodEvents.pushLiquidation prevPeriod lastEmitted trades.out trades.late
    s.currentLiquidations
  let funding := drainKind (fun fr : FundingRate => s.rowOf fr.effectiveTsUs)
    PeriodEvents.pushFunding prevPeriod lastEmitted liquidations.out liquidations.late
    s.currentFundingRates
  let openInterest := drainKind (fun oi : OpenInterest => s.rowOf oi.effectiveTsUs)
    PeriodEvents.pushOpenInterest prevPeriod lastEmitted funding.out funding.late
    s.currentOpenInterests
  let settlements := s.currentFundingSettlements.foldl
    (settlementStep (s.settlementRow prevPeriod) PeriodEvents.pushSettlement lastEmitted)
    ⟨openInterest.out, [], openInterest.late⟩
  ({ s with
      currentTrades := trades.kept
      currentLiquidations := liquidations.kept
      currentFundingRates := funding.kept
      currentOpenInterests := openInterest.kept
      currentFundingSettlements := settlements.kept
      lateEventsDropped := s.lateEventsDropped + settlements.late },
    settlements.out)

/-! ## Emitting rows -/

/-- The row labelled `p`, from its book and its events. -/
def rowSnapshot (s : MarketSynchronizer) (book : Option Orderbook) (ev : PeriodEvents)
    (p : ℕ) : MarketSnapshot where
  tsUs := p * s.periodUs
  orderbook := book
  trades := ev.trades
  liquidations := ev.liquidations
  fundingRate := ev.funding
  openInterest := ev.openInterest
  fundingSettlements := ev.fundingSettlements

/-- Emit the rows `(prev, prev + fill]`, each with its own events and its
as-of book, then prune the book history. Both clocks end in this. -/
def emitPeriods (s : MarketSynchronizer) (asOf : ℕ → Option Orderbook) (prev fill : ℕ) :
    MarketSynchronizer :=
  let (s', byPeriod) := s.drainEvents prev (prev + fill)
  pruneBooks
    { s' with
      buffer := s'.buffer
        ++ (List.range' (prev + 1) fill).map (fun p => s.rowSnapshot (asOf p) (byPeriod p) p)
      totalCaptured := s'.totalCaptured + fill }
    (prev + fill)

/-- The period the clock reaches at a timestamp: the hold-back window is
taken off first, saturating at zero. -/
def periodAt (s : MarketSynchronizer) (tsUs : ℕ) : ℕ := (tsUs - s.emissionDelayUs) / s.periodUs

/-- How many rows an advance emits: the periods crossed, capped. -/
def fillCount (prev current : ℕ) : ℕ := min (current - prev) maxGapFill

/-- Advance the global clock, returning the number of rows emitted. The
clock moves to the period reached even where the fill was capped. -/
def advanceGrid (s : MarketSynchronizer) (tsUs : ℕ) : MarketSynchronizer × ℕ :=
  match s.clockPeriod with
  | none => ({ s with clockPeriod := some (s.periodAt tsUs) }, 0)
  | some prev =>
    if s.periodAt tsUs ≤ prev then (s, 0)
    else
      ({ s.emitPeriods s.asOfBookAny prev (fillCount prev (s.periodAt tsUs)) with
          clockPeriod := some (s.periodAt tsUs) },
        fillCount prev (s.periodAt tsUs))

/-! ## Feeding -/

/-- Count an event that arrives after `finalize`. -/
def dropPostFinalize (s : MarketSynchronizer) : MarketSynchronizer :=
  { s with lateEventsDropped := s.lateEventsDropped + 1 }

/-- Advance an external clock. -/
def onTime (s : MarketSynchronizer) (tsUs : ℕ) : MarketSynchronizer × ℕ :=
  if s.finalized then (s.dropPostFinalize, 0)
  else if s.clockMode ≠ ClockMode.externalClock then (s, 0)
  else s.advanceGrid tsUs

/-- Feed a book. In `orderbookDriven` mode it drives its symbol's clock: the
rows it completes are emitted before it is recorded. -/
def onOrderbook (s : MarketSynchronizer) (pair : TradingPair) (exchangeTsUs : ℕ)
    (snapshot : Orderbook) : MarketSynchronizer × ℕ :=
  if s.finalized then (s.dropPostFinalize, 0)
  else
    let key := pair.toCanonical
    if s.clockMode ≠ ClockMode.orderbookDriven then (s.recordBook key exchangeTsUs snapshot, 0)
    else
      let current := s.periodAt exchangeTsUs
      match s.lastPeriod.get? key with
      | none =>
        (({ s with lastPeriod := s.lastPeriod.insert key current }).recordBook
          key exchangeTsUs snapshot, 0)
      | some prev =>
        if current ≤ prev then (s.recordBook key exchangeTsUs snapshot, 0)
        else
          (({ s.emitPeriods (s.asOfBook key) prev (fillCount prev current) with
              lastPeriod := s.lastPeriod.insert key current }).recordBook
            key exchangeTsUs snapshot, fillCount prev current)

/-- Feed a trade. It is pending before the clock it may drive advances. -/
def onTrade (s : MarketSynchronizer) (trade : Trade) : MarketSynchronizer × ℕ :=
  if s.finalized then (s.dropPostFinalize, 0)
  else
    let s' := { s with currentTrades := s.currentTrades ++ [trade] }
    if s.clockMode = ClockMode.tradeDriven then s'.advanceGrid trade.sourceTradeTsUs else (s', 0)

/-- Feed a liquidation. -/
def onLiquidation (s : MarketSynchronizer) (liq : Liquidation) : MarketSynchronizer × ℕ :=
  if s.finalized then (s.dropPostFinalize, 0)
  else
    let s' := { s with currentLiquidations := s.currentLiquidations ++ [liq] }
    if s.clockMode = ClockMode.liquidationDriven then s'.advanceGrid liq.liquidationTsUs
    else (s', 0)

/-- Feed a funding rate. -/
def onFunding (s : MarketSynchronizer) (fr : FundingRate) : MarketSynchronizer :=
  if s.finalized then s.dropPostFinalize
  else { s with currentFundingRates := s.currentFundingRates ++ [fr] }

/-- Feed a funding settlement. -/
def onFundingSettlement (s : MarketSynchronizer) (fs : FundingSettlement) :
    MarketSynchronizer :=
  if s.finalized then s.dropPostFinalize
  else { s with currentFundingSettlements := s.currentFundingSettlements ++ [fs] }

/-- Feed an open-interest record. -/
def onOpenInterest (s : MarketSynchronizer) (oi : OpenInterest) : MarketSynchronizer :=
  if s.finalized then s.dropPostFinalize
  else { s with currentOpenInterests := s.currentOpenInterests ++ [oi] }

/-- Take the emitted rows. -/
def drain (s : MarketSynchronizer) : MarketSynchronizer × List MarketSnapshot :=
  ({ s with buffer := [] }, s.buffer)

/-! ## Closing the stream -/

/-- A terminal row: everything pending, as it stands. -/
def terminalRow (s : MarketSynchronizer) (book : Option Orderbook) (period : ℕ) :
    MarketSnapshot where
  tsUs := (period + 1) * s.periodUs
  orderbook := book
  trades := s.currentTrades
  liquidations := s.currentLiquidations
  fundingRate := s.currentFundingRates
  openInterest := s.currentOpenInterests
  fundingSettlements := s.currentFundingSettlements

/-- The pending buffers, taken. -/
def takePending (s : MarketSynchronizer) : MarketSynchronizer :=
  { s with
    currentTrades := []
    currentLiquidations := []
    currentFundingRates := []
    currentFundingSettlements := []
    currentOpenInterests := [] }

/-- Close an `orderbookDriven` stream: one terminal row per tracked symbol,
each with a copy of everything pending. -/
def finalizeObDriven (s : MarketSynchronizer) : MarketSynchronizer :=
  let rows := s.lastPeriod.iter.map (fun sp =>
    s.terminalRow (s.asOfBook sp.1 u64Max) sp.2)
  { s.takePending with
    buffer := s.buffer ++ rows
    totalCaptured := s.totalCaptured + rows.length }

/-- Close a global-clock stream: one terminal row, if the clock was ever
driven. -/
def finalizeGlobalClock (s : MarketSynchronizer) : MarketSynchronizer :=
  match s.clockPeriod with
  | none => s
  | some period =>
    { s.takePending with
      buffer := s.buffer ++ [s.terminalRow (s.asOfBookAny u64Max) period]
      totalCaptured := s.totalCaptured + 1 }

/-- **Close the stream.** -/
def finalize (s : MarketSynchronizer) : MarketSynchronizer :=
  if s.finalized then s
  else
    let s' := { s with finalized := true }
    match s.clockMode with
    | ClockMode.orderbookDriven => s'.finalizeObDriven
    | _ => s'.finalizeGlobalClock

end MarketSynchronizer
