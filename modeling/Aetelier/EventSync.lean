import Aetelier.MarketTypes
import Aetelier.Trace
import Mathlib.Data.List.Induction

/-!
# Snapshots at the events of a market

Where the grid synchronizer samples a market at fixed times, this one takes a
snapshot at each event of chosen kinds. A row has the book fed last, under the
timestamp of the event, the latest funding rate and open interest, and the
trades and liquidations fed since the row before.

What a row holds is therefore a function of what was fed, and of the rows there
are: `EventSynchronizer.rows_concat` states it for every call after every run.
Nothing that was fed is in two rows or passed over; what is in none is kept for
the next. There are no rows before the first book, and a closing call does not
make one for what came without a book: that stays where it is.
-/

/-! ## The synchronizer -/

/-- The kinds of event a snapshot can be taken at. -/
inductive ReferenceEventType where
  | orderbook
  | trade
  | liquidation
deriving DecidableEq, Repr

/-- The synchronizer. -/
structure EventSynchronizer where
  referenceEvents : List ReferenceEventType
  /-- A book has been fed. -/
  initialized : Bool
  lastOrderbook : Option Orderbook
  currentTrades : List Trade
  currentLiquidations : List Liquidation
  currentFundingRates : List FundingRate
  currentOpenInterests : List OpenInterest
  buffer : List MarketSnapshot
  totalCaptured : ℕ

/-- A call of the synchronizer. -/
inductive EventCall where
  | onOrderbook (tsUs : ℕ) (snapshot : Orderbook)
  | onTrade (trade : Trade)
  | onLiquidation (liq : Liquidation)
  | onFunding (fr : FundingRate)
  | onOpenInterest (oi : OpenInterest)
  | finalize
  | drain

namespace EventSynchronizer

/-- A synchronizer for the kinds; there has to be one. -/
def new (referenceEvents : List ReferenceEventType) : Option EventSynchronizer :=
  if referenceEvents = [] then none
  else some
    { referenceEvents, initialized := false, lastOrderbook := none, currentTrades := []
      currentLiquidations := [], currentFundingRates := [], currentOpenInterests := []
      buffer := [], totalCaptured := 0 }

def tradeOnly : Option EventSynchronizer := new [.trade]

/-- Snapshots are taken at events of the kind. -/
def isReference (s : EventSynchronizer) (eventType : ReferenceEventType) : Bool :=
  s.referenceEvents.contains eventType

/-- Take a snapshot: the trades and liquidations are moved into it, the rest is copied. -/
def emitSnapshot (s : EventSynchronizer) (tsUs : ℕ) : EventSynchronizer :=
  let snap : MarketSnapshot :=
    { tsUs := tsUs
      orderbook := s.lastOrderbook.map fun ob => { ob with orderbookTsUs := tsUs }
      trades := s.currentTrades
      liquidations := s.currentLiquidations
      fundingRate := s.currentFundingRates
      openInterest := s.currentOpenInterests
      fundingSettlements := [] }
  { s with
    currentTrades := []
    currentLiquidations := []
    buffer := s.buffer ++ [snap]
    totalCaptured := s.totalCaptured + 1 }

def onOrderbook (s : EventSynchronizer) (tsUs : ℕ) (snapshot : Orderbook) : EventSynchronizer :=
  let s := { s with lastOrderbook := some snapshot, initialized := true }
  if s.isReference .orderbook then s.emitSnapshot tsUs else s

def onTrade (s : EventSynchronizer) (trade : Trade) : EventSynchronizer :=
  let s := { s with currentTrades := s.currentTrades ++ [trade] }
  if s.initialized && s.isReference .trade then s.emitSnapshot trade.sourceTradeTsUs else s

def onLiquidation (s : EventSynchronizer) (liq : Liquidation) : EventSynchronizer :=
  let s := { s with currentLiquidations := s.currentLiquidations ++ [liq] }
  if s.initialized && s.isReference .liquidation then s.emitSnapshot liq.liquidationTsUs else s

def onFunding (s : EventSynchronizer) (fr : FundingRate) : EventSynchronizer :=
  { s with currentFundingRates := [fr] }

def onOpenInterest (s : EventSynchronizer) (oi : OpenInterest) : EventSynchronizer :=
  { s with currentOpenInterests := [oi] }

/-- The end of the stream: a last snapshot for what is left. -/
def finalize (s : EventSynchronizer) : EventSynchronizer :=
  if !s.initialized then s
  else if !s.currentTrades.isEmpty || !s.currentLiquidations.isEmpty then
    s.emitSnapshot ((s.lastOrderbook.map Orderbook.orderbookTsUs).getD 0)
  else s

def drain (s : EventSynchronizer) : EventSynchronizer × List MarketSnapshot :=
  ({ s with buffer := [] }, s.buffer)

/-- **One call**, and what it hands out. -/
def step (s : EventSynchronizer) : EventCall → EventSynchronizer × List MarketSnapshot
  | .onOrderbook tsUs snapshot => (s.onOrderbook tsUs snapshot, [])
  | .onTrade trade => (s.onTrade trade, [])
  | .onLiquidation liq => (s.onLiquidation liq, [])
  | .onFunding fr => (s.onFunding fr, [])
  | .onOpenInterest oi => (s.onOpenInterest oi, [])
  | .finalize => (s.finalize, [])
  | .drain => s.drain

/-- The synchronizer as a machine. -/
def machine : Machine EventSynchronizer EventCall MarketSnapshot where
  step := step

end EventSynchronizer

/-! ## What was fed -/

namespace EventCall

def book? : EventCall → Option Orderbook
  | onOrderbook _ snapshot => some snapshot
  | _ => none

def trade? : EventCall → Option Trade
  | onTrade trade => some trade
  | _ => none

def liquidation? : EventCall → Option Liquidation
  | onLiquidation liq => some liq
  | _ => none

def funding? : EventCall → Option FundingRate
  | onFunding fr => some fr
  | _ => none

def openInterest? : EventCall → Option OpenInterest
  | onOpenInterest oi => some oi
  | _ => none

end EventCall

/-- What was fed last, of what the function reads. -/
def lastFed {α : Type} (f : EventCall → Option α) (is : List EventCall) : Option α :=
  (is.filterMap f).getLast?

theorem lastFed_concat {α : Type} (f : EventCall → Option α) (is : List EventCall)
    (i : EventCall) : lastFed f (is ++ [i]) = (f i).or (lastFed f is) := by
  unfold lastFed
  rw [List.filterMap_append]
  cases h : f i with
  | none => rw [List.filterMap_cons_none h, List.filterMap_nil, List.append_nil]; rfl
  | some a => rw [List.filterMap_cons_some h, List.filterMap_nil, List.getLast?_concat]; rfl

namespace EventSynchronizer

variable (s₀ : EventSynchronizer)

/-- **The rows of a run**: those that were handed out, and those that wait to be. -/
def rows (is : List EventCall) : List MarketSnapshot :=
  (machine.run s₀ is).2 ++ (machine.run s₀ is).1.buffer

/-- The trades that are in none of the rows, if these hold those fed first. -/
def openTrades (rows : List MarketSnapshot) (is : List EventCall) : List Trade :=
  (is.filterMap EventCall.trade?).drop (rows.flatMap MarketSnapshot.trades).length

/-- The liquidations that are in none of the rows, if these hold those fed first. -/
def openLiquidations (rows : List MarketSnapshot) (is : List EventCall) : List Liquidation :=
  (is.filterMap EventCall.liquidation?).drop (rows.flatMap MarketSnapshot.liquidations).length

/-- **When a row is taken, and under which time**: at an event of a chosen kind once a book
was fed, and at the end for what is left. -/
def due (refs : List ReferenceEventType) (rows : List MarketSnapshot) (is : List EventCall) :
    EventCall → Option ℕ
  | .onOrderbook tsUs _ => if .orderbook ∈ refs then some tsUs else none
  | .onTrade trade =>
    if (lastFed EventCall.book? is).isSome ∧ .trade ∈ refs then some trade.sourceTradeTsUs
    else none
  | .onLiquidation liq =>
    if (lastFed EventCall.book? is).isSome ∧ .liquidation ∈ refs then some liq.liquidationTsUs
    else none
  | .finalize =>
    if openTrades rows is ≠ [] ∨ openLiquidations rows is ≠ [] then
      (lastFed EventCall.book? is).map Orderbook.orderbookTsUs
    else none
  | _ => none

/-- **The row of a time**, from what was fed by then and the rows before. -/
def rowAt (rows : List MarketSnapshot) (is : List EventCall) (tsUs : ℕ) : MarketSnapshot where
  tsUs := tsUs
  orderbook := (lastFed EventCall.book? is).map fun ob => { ob with orderbookTsUs := tsUs }
  trades := openTrades rows is
  liquidations := openLiquidations rows is
  fundingRate := (lastFed EventCall.funding? is).toList
  openInterest := (lastFed EventCall.openInterest? is).toList
  fundingSettlements := []

/-- **A synchronizer is as it was fed**, with these rows taken. -/
structure Holds (refs : List ReferenceEventType) (s : EventSynchronizer) (is : List EventCall)
    (rows : List MarketSnapshot) : Prop where
  refs_eq : s.referenceEvents = refs
  book_eq : s.lastOrderbook = lastFed EventCall.book? is
  initialized_eq : s.initialized = (lastFed EventCall.book? is).isSome
  funding_eq : s.currentFundingRates = (lastFed EventCall.funding? is).toList
  openInterest_eq : s.currentOpenInterests = (lastFed EventCall.openInterest? is).toList
  trades_eq : rows.flatMap MarketSnapshot.trades ++ s.currentTrades
    = is.filterMap EventCall.trade?
  liquidations_eq : rows.flatMap MarketSnapshot.liquidations ++ s.currentLiquidations
    = is.filterMap EventCall.liquidation?
  total_eq : s.totalCaptured = rows.length

section Holds

variable {refs : List ReferenceEventType} {s : EventSynchronizer} {is : List EventCall}
  {rows : List MarketSnapshot}

theorem Holds.openTrades_eq (h : Holds refs s is rows) : openTrades rows is = s.currentTrades := by
  unfold openTrades
  rw [← h.trades_eq, List.drop_left]

theorem Holds.openLiquidations_eq (h : Holds refs s is rows) :
    openLiquidations rows is = s.currentLiquidations := by
  unfold openLiquidations
  rw [← h.liquidations_eq, List.drop_left]

/-- A snapshot is the row of its time, and takes up all that was open. -/
theorem Holds.emit (h : Holds refs s is rows) (tsUs : ℕ) :
    (s.emitSnapshot tsUs).buffer = s.buffer ++ [rowAt rows is tsUs]
      ∧ Holds refs (s.emitSnapshot tsUs) is (rows ++ [rowAt rows is tsUs]) := by
  have hrow : rowAt rows is tsUs
      = { tsUs := tsUs
          orderbook := s.lastOrderbook.map fun ob => { ob with orderbookTsUs := tsUs }
          trades := s.currentTrades
          liquidations := s.currentLiquidations
          fundingRate := s.currentFundingRates
          openInterest := s.currentOpenInterests
          fundingSettlements := [] } := by
    unfold rowAt
    rw [h.openTrades_eq, h.openLiquidations_eq, h.book_eq, h.funding_eq, h.openInterest_eq]
  refine ⟨by rw [hrow]; rfl, h.refs_eq, h.book_eq, h.initialized_eq, h.funding_eq,
    h.openInterest_eq, ?_, ?_, ?_⟩
  · rw [List.flatMap_append, List.flatMap_singleton, ← h.trades_eq, hrow]
    exact List.append_nil _
  · rw [List.flatMap_append, List.flatMap_singleton, ← h.liquidations_eq, hrow]
    exact List.append_nil _
  · rw [List.length_append, ← h.total_eq]
    rfl

/-- A snapshot under a condition. -/
theorem Holds.emit_if (h : Holds refs s is rows) (tsUs : ℕ) {p : Bool} {q : Prop} [Decidable q]
    (hpq : p = true ↔ q) :
    (if p then s.emitSnapshot tsUs else s).buffer
        = s.buffer ++ ((if q then some tsUs else none).map (rowAt rows is)).toList
      ∧ Holds refs (if p then s.emitSnapshot tsUs else s) is
        (rows ++ ((if q then some tsUs else none).map (rowAt rows is)).toList) := by
  by_cases hp : p = true
  · rw [if_pos hp, if_pos (hpq.mp hp)]
    exact h.emit tsUs
  · rw [if_neg hp, if_neg (fun hq => hp (hpq.mpr hq))]
    show s.buffer = s.buffer ++ [] ∧ Holds refs s is (rows ++ [])
    rw [List.append_nil, List.append_nil]
    exact ⟨rfl, h⟩

theorem Holds.isReference_iff (h : Holds refs s is rows) (eventType : ReferenceEventType) :
    s.isReference eventType = true ↔ eventType ∈ refs := by
  unfold isReference
  rw [h.refs_eq, List.contains_iff_mem]

/-- What a call feeds is taken in before a snapshot is. -/
theorem Holds.feed (h : Holds refs s is rows) (i : EventCall) {s' : EventSynchronizer}
    (hrefs : s'.referenceEvents = s.referenceEvents)
    (hbook : s'.lastOrderbook = i.book?.or s.lastOrderbook)
    (hinitialized : s'.initialized = (i.book?.isSome || s.initialized))
    (hfunding : s'.currentFundingRates = (i.funding?.map ([·])).getD s.currentFundingRates)
    (hinterest : s'.currentOpenInterests = (i.openInterest?.map ([·])).getD s.currentOpenInterests)
    (htrades : s'.currentTrades = s.currentTrades ++ i.trade?.toList)
    (hliquidations : s'.currentLiquidations = s.currentLiquidations ++ i.liquidation?.toList)
    (htotal : s'.totalCaptured = s.totalCaptured) : Holds refs s' (is ++ [i]) rows where
  refs_eq := hrefs.trans h.refs_eq
  book_eq := by rw [hbook, h.book_eq, lastFed_concat]
  initialized_eq := by rw [hinitialized, h.initialized_eq, lastFed_concat, Option.isSome_or]
  funding_eq := by
    rw [hfunding, h.funding_eq, lastFed_concat]
    cases i.funding? <;> rfl
  openInterest_eq := by
    rw [hinterest, h.openInterest_eq, lastFed_concat]
    cases i.openInterest? <;> rfl
  trades_eq := by
    rw [htrades, ← List.append_assoc, h.trades_eq, List.filterMap_append]
    cases i <;> rfl
  liquidations_eq := by
    rw [hliquidations, ← List.append_assoc, h.liquidations_eq, List.filterMap_append]
    cases i <;> rfl
  total_eq := htotal.trans h.total_eq

/-- **A call adds the row that is due**, and takes in what it feeds. -/
theorem Holds.step (h : Holds refs s is rows) (i : EventCall) :
    (s.step i).2 ++ (s.step i).1.buffer
        = s.buffer ++ ((due refs rows is i).map (rowAt rows (is ++ [i]))).toList
      ∧ Holds refs (s.step i).1 (is ++ [i])
        (rows ++ ((due refs rows is i).map (rowAt rows (is ++ [i]))).toList) := by
  cases i with
  | onOrderbook tsUs snapshot =>
    have hfed : Holds refs { s with lastOrderbook := some snapshot, initialized := true }
        (is ++ [.onOrderbook tsUs snapshot]) rows :=
      h.feed _ rfl rfl rfl rfl rfl (List.append_nil _).symm (List.append_nil _).symm rfl
    exact hfed.emit_if tsUs (hfed.isReference_iff .orderbook)
  | onTrade trade =>
    have hfed : Holds refs { s with currentTrades := s.currentTrades ++ [trade] }
        (is ++ [.onTrade trade]) rows :=
      h.feed _ rfl rfl rfl rfl rfl rfl (List.append_nil _).symm rfl
    refine hfed.emit_if trade.sourceTradeTsUs ?_
    rw [Bool.and_eq_true, hfed.isReference_iff, ← h.initialized_eq]
  | onLiquidation liq =>
    have hfed : Holds refs { s with currentLiquidations := s.currentLiquidations ++ [liq] }
        (is ++ [.onLiquidation liq]) rows :=
      h.feed _ rfl rfl rfl rfl rfl (List.append_nil _).symm rfl rfl
    refine hfed.emit_if liq.liquidationTsUs ?_
    rw [Bool.and_eq_true, hfed.isReference_iff, ← h.initialized_eq]
  | onFunding fr =>
    have hfed : Holds refs (s.onFunding fr) (is ++ [.onFunding fr]) rows :=
      h.feed _ rfl rfl rfl rfl rfl (List.append_nil _).symm (List.append_nil _).symm rfl
    exact ⟨(List.append_nil _).symm, (List.append_nil rows).symm ▸ hfed⟩
  | onOpenInterest oi =>
    have hfed : Holds refs (s.onOpenInterest oi) (is ++ [.onOpenInterest oi]) rows :=
      h.feed _ rfl rfl rfl rfl rfl (List.append_nil _).symm (List.append_nil _).symm rfl
    exact ⟨(List.append_nil _).symm, (List.append_nil rows).symm ▸ hfed⟩
  | finalize =>
    have hfed : Holds refs s (is ++ [.finalize]) rows :=
      h.feed _ rfl rfl rfl rfl rfl (List.append_nil _).symm (List.append_nil _).symm rfl
    show s.finalize.buffer = _ ∧ Holds refs s.finalize _ _
    have hleft : (!s.currentTrades.isEmpty || !s.currentLiquidations.isEmpty) = true
        ↔ openTrades rows is ≠ [] ∨ openLiquidations rows is ≠ [] := by
      rw [h.openTrades_eq, h.openLiquidations_eq, Bool.or_eq_true]
      simp only [Bool.not_eq_true', List.isEmpty_eq_false_iff]
    cases hbook : lastFed EventCall.book? is with
    | none =>
      -- What came without a book stays.
      have hfinal : s.finalize = s := by
        unfold finalize
        rw [h.initialized_eq, hbook]
        rfl
      have hdue : due refs rows is .finalize = none := by
        unfold due
        dsimp only
        rw [hbook, Option.map_none, ite_self]
      rw [hfinal, hdue, Option.map_none, Option.toList_none, List.append_nil, List.append_nil]
      exact ⟨rfl, hfed⟩
    | some ob =>
      have hfinal : s.finalize = if !s.currentTrades.isEmpty || !s.currentLiquidations.isEmpty
          then s.emitSnapshot ob.orderbookTsUs else s := by
        unfold finalize
        rw [h.initialized_eq, h.book_eq, hbook]
        rfl
      have hdue : due refs rows is .finalize
          = if openTrades rows is ≠ [] ∨ openLiquidations rows is ≠ []
            then some ob.orderbookTsUs else none := by
        unfold due
        dsimp only
        rw [hbook, Option.map_some]
      rw [hfinal, hdue]
      exact hfed.emit_if ob.orderbookTsUs hleft
  | drain =>
    refine ⟨rfl, ?_⟩
    have hfed : Holds refs s.drain.1 (is ++ [.drain]) rows :=
      h.feed _ rfl rfl rfl rfl rfl (List.append_nil _).symm (List.append_nil _).symm rfl
    exact (List.append_nil rows).symm ▸ hfed

end Holds

variable {s₀} {refs : List ReferenceEventType}

theorem holds_new (h : new refs = some s₀) : Holds refs s₀ [] (rows s₀ []) := by
  unfold new at h
  split at h
  · cases h
  · obtain rfl := Option.some.inj h
    exact ⟨rfl, rfl, rfl, rfl, rfl, rfl, rfl, rfl⟩

theorem rows_run_concat (is : List EventCall) (i : EventCall) :
    rows s₀ (is ++ [i])
      = (machine.run s₀ is).2 ++ (((machine.run s₀ is).1.step i).2
        ++ ((machine.run s₀ is).1.step i).1.buffer) := by
  unfold rows
  rw [Machine.run_append_singleton, Machine.run_append, ← List.append_assoc]
  exact congrArg (· ++ _) (congrArg (_ ++ ·) (List.append_nil _))

theorem holds_run (h : new refs = some s₀) (is : List EventCall) :
    Holds refs (machine.run s₀ is).1 is (rows s₀ is) := by
  induction is using List.reverseRecOn with
  | nil => exact holds_new h
  | append_singleton is i ih =>
    obtain ⟨hrows, hholds⟩ := ih.step i
    rw [rows_run_concat, hrows, ← List.append_assoc, Machine.run_append_singleton]
    exact hholds

/-- **A synchronizer samples what it was fed.** In every run, with its drains and its
closing calls wherever they are: each call adds to the rows the one that is due, if one
is, and this is the row of its time – the book fed last, the latest rate and interest,
and what is in no row before. The trades of the rows, and those that are open, are the
trades that were fed, in order; so are the liquidations; and the rows are counted. -/
theorem rows_concat (h : new refs = some s₀) (is : List EventCall) (i : EventCall) :
    rows s₀ (is ++ [i])
        = rows s₀ is
          ++ ((due refs (rows s₀ is) is i).map (rowAt (rows s₀ is) (is ++ [i]))).toList
      ∧ (rows s₀ is).flatMap MarketSnapshot.trades ++ (machine.run s₀ is).1.currentTrades
        = is.filterMap EventCall.trade?
      ∧ (rows s₀ is).flatMap MarketSnapshot.liquidations
          ++ (machine.run s₀ is).1.currentLiquidations
        = is.filterMap EventCall.liquidation?
      ∧ (machine.run s₀ is).1.totalCaptured = (rows s₀ is).length := by
  have hholds := holds_run h is
  refine ⟨?_, hholds.trades_eq, hholds.liquidations_eq, hholds.total_eq⟩
  rw [rows_run_concat, (hholds.step i).1, ← List.append_assoc]
  rfl

/-- A print of one coin at a price of one. -/
def printAt (tsUs : ℕ) : Trade where
  sourceTradeTsUs := tsUs
  pair := ⟨"BTC", "USDT"⟩
  side := .buy
  amount := ⟨1, 0⟩
  price := ⟨1, 0⟩
  exchange := "bybit"
  id := toString tsUs

theorem rows_concat_printAt :
    ∃ s₀, tradeOnly = some s₀
      ∧ (rows s₀ [.onTrade (printAt 3), .onOrderbook 5 (.empty ⟨"BTC", "USDT"⟩ "bybit"),
            .onTrade (printAt 7)]).flatMap MarketSnapshot.trades
          ++ (machine.run s₀ [.onTrade (printAt 3),
            .onOrderbook 5 (.empty ⟨"BTC", "USDT"⟩ "bybit"), .onTrade (printAt 7)]).1.currentTrades
        = [printAt 3, printAt 7] :=
  ⟨_, rfl, (@rows_concat _ [.trade] rfl [.onTrade (printAt 3),
    .onOrderbook 5 (.empty ⟨"BTC", "USDT"⟩ "bybit"), .onTrade (printAt 7)] .drain).2.1⟩

end EventSynchronizer
