import Aetelier.MarketTypes
import Aetelier.HashMap

/-!
# The order book synchronizer

`ObSynchronizer` samples books on a uniform grid, one clock per symbol. It is
fed in one of two ways. `onSnapshot` takes whole books and keeps the last one
of each symbol, so that a book which crosses grid points finds the book
before it. `onUpdate` is called before an update is applied and takes the
levels of the book as it still stands; it keeps no book. Either way every
grid point crossed gets a copy of the book before the crossing, at most
`maxGapFill` of them, with the grid point as its timestamp.

Timestamps and periods are `u64` in the source and natural numbers here; a
grid point crossed is at most the timestamp that crosses it, and only the
label of the terminal row, `(period + 1) * period_us`, can pass 64 bits.
-/

/-- **The synchronizer.** -/
structure ObSynchronizer where
  /-- Grid spacing. -/
  periodUs : ℕ
  /-- The constructor asserts that the grid spacing is positive. -/
  periodPos : 0 < periodUs
  /-- Last completed period per symbol. -/
  lastPeriod : HashMap String ℕ
  /-- Most recent snapshot per symbol. -/
  lastSnapshot : HashMap String Orderbook
  /-- Books awaiting flush. -/
  buffer : List Orderbook
  /-- Rows produced so far. -/
  totalCaptured : ℕ
  /-- Events dropped after `finalize`. -/
  lateEventsDropped : ℕ
  /-- `finalize` has closed the stream. -/
  finalized : Bool

namespace ObSynchronizer

/-- Maximum periods to forward-fill during a gap. -/
def maxGapFill : ℕ := 10000

/-- A new synchronizer. The two hasher states are those of its two maps. -/
def new (hashPeriods : RandomState String) (hashSnapshots : RandomState String) (periodUs : ℕ)
    (periodPos : 0 < periodUs) : ObSynchronizer where
  periodUs := periodUs
  periodPos := periodPos
  lastPeriod := HashMap.empty hashPeriods
  lastSnapshot := HashMap.empty hashSnapshots
  buffer := []
  totalCaptured := 0
  lateEventsDropped := 0
  finalized := false

/-- Count an event that arrives after `finalize`. -/
def dropPostFinalize (s : ObSynchronizer) : ObSynchronizer :=
  { s with lateEventsDropped := s.lateEventsDropped + 1 }

/-- How many grid points a crossing fills. -/
def fillCount (prev current : ℕ) : ℕ := min (current - prev) maxGapFill

/-- Process an incoming update, given the bid and ask levels of the book
before it. The source takes the levels through a closure and calls it only
where a grid point is crossed. -/
def onUpdate (s : ObSynchronizer) (pair : TradingPair) (exchange : String) (exchangeTsUs : ℕ)
    (captured : List Level × List Level) : ObSynchronizer × ℕ :=
  if s.finalized then (s.dropPostFinalize, 0)
  else
    let current := exchangeTsUs / s.periodUs
    let key := pair.toCanonical
    match s.lastPeriod.get? key with
    | none => ({ s with lastPeriod := s.lastPeriod.insert key current }, 0)
    | some prev =>
      if current ≤ prev then (s, 0)
      else
        ({ s with
            buffer := s.buffer ++ (List.range' (prev + 1) (fillCount prev current)).map (fun p =>
              Orderbook.fromLevels 0 (p * s.periodUs) pair exchange captured.1 captured.2)
            lastPeriod := s.lastPeriod.insert key current
            totalCaptured := s.totalCaptured + fillCount prev current },
          fillCount prev current)

/-- Feed a whole book. -/
def onSnapshot (s : ObSynchronizer) (pair : TradingPair) (exchangeTsUs : ℕ)
    (snapshot : Orderbook) : ObSynchronizer × ℕ :=
  if s.finalized then (s.dropPostFinalize, 0)
  else
    let current := exchangeTsUs / s.periodUs
    let key := pair.toCanonical
    match s.lastPeriod.get? key with
    | none =>
      ({ s with
          lastPeriod := s.lastPeriod.insert key current
          lastSnapshot := s.lastSnapshot.insert key snapshot }, 0)
    | some prev =>
      if current ≤ prev then ({ s with lastSnapshot := s.lastSnapshot.insert key snapshot }, 0)
      else
        -- a symbol fed through `onUpdate` so far has a clock and no snapshot
        let rows := match s.lastSnapshot.get? key with
          | some prevOb => (List.range' (prev + 1) (fillCount prev current)).map (fun p =>
              { prevOb with orderbookTsUs := p * s.periodUs })
          | none => []
        ({ s with
            buffer := s.buffer ++ rows
            lastPeriod := s.lastPeriod.insert key current
            lastSnapshot := s.lastSnapshot.insert key snapshot
            totalCaptured := s.totalCaptured + fillCount prev current },
          fillCount prev current)

/-! ## What a call does -/

section Calls

variable {s : ObSynchronizer} {pair : TradingPair} {exchange : String} {tsUs prev : ℕ}
variable {captured : List Level × List Level} {snapshot : Orderbook}

/-- An update in the period of the clock changes nothing. -/
theorem onUpdate_of_le (hs : s.finalized = false)
    (hprev : s.lastPeriod.get? pair.toCanonical = some prev) (hle : tsUs / s.periodUs ≤ prev) :
    (s.onUpdate pair exchange tsUs captured).1 = s := by
  simp only [onUpdate, hs, hprev, hle, Bool.false_eq_true, if_false, if_true]

/-- An update past the period of the clock. -/
theorem onUpdate_of_lt (hs : s.finalized = false)
    (hprev : s.lastPeriod.get? pair.toCanonical = some prev) (hlt : ¬ tsUs / s.periodUs ≤ prev) :
    (s.onUpdate pair exchange tsUs captured).1
      = { s with
          buffer := s.buffer ++ (List.range' (prev + 1) (fillCount prev (tsUs / s.periodUs))).map
            (fun p => Orderbook.fromLevels 0 (p * s.periodUs) pair exchange captured.1 captured.2)
          lastPeriod := s.lastPeriod.insert pair.toCanonical (tsUs / s.periodUs)
          totalCaptured := s.totalCaptured + fillCount prev (tsUs / s.periodUs) } := by
  simp only [onUpdate, hs, hprev, hlt, Bool.false_eq_true, if_false]

/-- A snapshot in the period of the clock replaces the one kept. -/
theorem onSnapshot_of_le (hs : s.finalized = false)
    (hprev : s.lastPeriod.get? pair.toCanonical = some prev) (hle : tsUs / s.periodUs ≤ prev) :
    (s.onSnapshot pair tsUs snapshot).1
      = { s with lastSnapshot := s.lastSnapshot.insert pair.toCanonical snapshot } := by
  simp only [onSnapshot, hs, hprev, hle, Bool.false_eq_true, if_false, if_true]

/-- A snapshot past the period of the clock, where one is kept. -/
theorem onSnapshot_of_lt {prevOb : Orderbook} (hs : s.finalized = false)
    (hprev : s.lastPeriod.get? pair.toCanonical = some prev) (hlt : ¬ tsUs / s.periodUs ≤ prev)
    (hkept : s.lastSnapshot.get? pair.toCanonical = some prevOb) :
    (s.onSnapshot pair tsUs snapshot).1
      = { s with
          buffer := s.buffer ++ (List.range' (prev + 1) (fillCount prev (tsUs / s.periodUs))).map
            (fun p => { prevOb with orderbookTsUs := p * s.periodUs })
          lastPeriod := s.lastPeriod.insert pair.toCanonical (tsUs / s.periodUs)
          lastSnapshot := s.lastSnapshot.insert pair.toCanonical snapshot
          totalCaptured := s.totalCaptured + fillCount prev (tsUs / s.periodUs) } := by
  simp only [onSnapshot, hs, hprev, hlt, hkept, Bool.false_eq_true, if_false]

end Calls

/-! ## Closing the stream -/

/-- The rows that close the stream: the last snapshot of every symbol that
has one, at the end of the period its clock is in. -/
def terminalRows (s : ObSynchronizer) : List Orderbook :=
  s.lastPeriod.iter.filterMap (fun sp =>
    (s.lastSnapshot.get? sp.1).map (fun ob =>
      { ob with orderbookTsUs := (sp.2 + 1) * s.periodUs }))

/-- **Close the stream.** -/
def finalize (s : ObSynchronizer) : ObSynchronizer :=
  if s.finalized then s
  else
    { s with
      finalized := true
      buffer := s.buffer ++ s.terminalRows
      totalCaptured := s.totalCaptured + s.terminalRows.length }

end ObSynchronizer
