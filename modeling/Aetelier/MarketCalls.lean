import Aetelier.MarketSynchronizer
import Aetelier.RowPartition
import Mathlib.Tactic.Abel

/-!
# What a call does to the events

The synchronizer keeps five kinds of events in five buffers and five lists
per row. This module reads them as one multiset of `MarketEvent`s, gives the
loops of `drainEvents` their closed form, and says what each call of the
feeding interface does: it feeds its event, emits the rows its clock
completes, moves the clock and records its book (`call_eq`). The events it
feeds join the pending multiset, and an advance cuts that multiset at the
period it leaves and the last row it emits (`pending_call`, `mem_newRows`,
`lateEventsDropped_call`), losing and repeating nothing (`call_balance`).
-/

/-- **An event fed to the synchronizer**, of any kind. -/
inductive MarketEvent where
  | trade (tr : Trade)
  | liquidation (lq : Liquidation)
  | funding (fr : FundingRate)
  | openInterest (oi : OpenInterest)
  | settlement (fs : FundingSettlement)
deriving DecidableEq

namespace MarketEvent

/-- The timestamp an event is attributed by. -/
def tsUs : MarketEvent → ℕ
  | trade tr => tr.sourceTradeTsUs
  | liquidation lq => lq.liquidationTsUs
  | funding fr => fr.effectiveTsUs
  | openInterest oi => oi.effectiveTsUs
  | settlement fs => fs.localTsUs

/-- Settlements are moved up to an open row rather than dropped as late. -/
def isSettlement : MarketEvent → Bool
  | settlement _ => true
  | _ => false

end MarketEvent

/-- The events of five lists, one per kind. -/
def eventsOf (trades : List Trade) (liquidations : List Liquidation)
    (funding : List FundingRate) (openInterest : List OpenInterest)
    (settlements : List FundingSettlement) : Multiset MarketEvent :=
  (trades.map MarketEvent.trade : Multiset MarketEvent)
    + (liquidations.map MarketEvent.liquidation : Multiset MarketEvent)
    + (funding.map MarketEvent.funding : Multiset MarketEvent)
    + (openInterest.map MarketEvent.openInterest : Multiset MarketEvent)
    + (settlements.map MarketEvent.settlement : Multiset MarketEvent)

/-- Filtering the events of five lists filters each list. -/
theorem filter_eventsOf (p : MarketEvent → Prop) [DecidablePred p] (ts : List Trade)
    (ls : List Liquidation) (fs : List FundingRate) (os : List OpenInterest)
    (ss : List FundingSettlement) :
    (eventsOf ts ls fs os ss).filter p
      = eventsOf (ts.filter (fun e => p (.trade e))) (ls.filter (fun e => p (.liquidation e)))
          (fs.filter (fun e => p (.funding e))) (os.filter (fun e => p (.openInterest e)))
          (ss.filter (fun e => p (.settlement e))) := by
  unfold eventsOf
  simp only [Multiset.filter_add, Multiset.filter_coe, List.filter_map]
  rfl

/-- The events of a row under construction. -/
def PeriodEvents.events (ev : PeriodEvents) : Multiset MarketEvent :=
  eventsOf ev.trades ev.liquidations ev.funding ev.openInterest ev.fundingSettlements

/-- The events of an emitted row. -/
def MarketSnapshot.events (r : MarketSnapshot) : Multiset MarketEvent :=
  eventsOf r.trades r.liquidations r.fundingRate r.openInterest r.fundingSettlements

namespace MarketSynchronizer

/-- **The pending events.** -/
def pending (s : MarketSynchronizer) : Multiset MarketEvent :=
  eventsOf s.currentTrades s.currentLiquidations s.currentFundingRates
    s.currentOpenInterests s.currentFundingSettlements

/-- The row an event is sent to when the rows past `prev` are emitted: its
own, or for a settlement the first open one if its own is closed. -/
def target (s : MarketSynchronizer) (prev : ℕ) (e : MarketEvent) : ℕ :=
  if e.isSettlement then max (s.rowOf e.tsUs) (prev + 1) else s.rowOf e.tsUs

/-! ## The loops in closed form -/

section Loops

variable {α : Type} (row : α → ℕ) (push : α → PeriodEvents → PeriodEvents)
variable (prev last : ℕ)

/-- A pass sends each event to its row if that row is being emitted, keeps
those past the last emitted row, and counts the rest. -/
theorem foldl_drainStep (d : Drain α) (es : List α) :
    es.foldl (drainStep row push prev last) d
      = ⟨fun p => if prev < p ∧ p ≤ last
            then (es.filter (fun e => row e = p)).foldl (fun ev e => push e ev) (d.out p)
            else d.out p,
          d.kept ++ es.filter (fun e => prev < row e ∧ last < row e),
          d.late + es.countP (fun e => row e ≤ prev)⟩ := by
  induction es generalizing d with
  | nil => simp
  | cons e es ih =>
    rw [List.foldl_cons, ih]
    unfold drainStep
    by_cases hlate : row e ≤ prev
    · rw [if_pos hlate]
      congr 1
      · funext p
        by_cases hp : prev < p ∧ p ≤ last
        · rw [if_pos hp, if_pos hp, List.filter_cons_of_neg (by simp; omega)]
        · rw [if_neg hp, if_neg hp]
      · rw [List.filter_cons_of_neg (by simp; omega)]
      · rw [List.countP_cons_of_pos (by simpa using hlate)]
        show d.late + 1 + _ = _
        omega
    · rw [if_neg hlate, List.countP_cons_of_neg (by simpa using hlate)]
      by_cases hrow : row e ≤ last
      · rw [if_pos hrow, List.filter_cons_of_neg (by simp; omega)]
        congr 1
        funext p
        dsimp only
        by_cases hp : row e = p
        · subst hp
          rw [if_pos ⟨by omega, hrow⟩, if_pos ⟨by omega, hrow⟩, Function.update_self,
            List.filter_cons_of_pos (by simp), List.foldl_cons]
        · rw [Function.update_of_ne (Ne.symm hp), List.filter_cons_of_neg (by simpa using hp)]
      · rw [if_neg hrow, List.filter_cons_of_pos (by simp; omega)]
        congr 1
        · funext p
          by_cases hp : prev < p ∧ p ≤ last
          · rw [if_pos hp, if_pos hp, List.filter_cons_of_neg (by simp; omega)]
          · rw [if_neg hp, if_neg hp]
        · simp

/-- A settlement whose row is open takes the step any other event takes. -/
theorem settlementStep_eq {d : Drain α} {e : α} (h : prev < row e) :
    settlementStep row push last d e = drainStep row push prev last d e := by
  unfold settlementStep drainStep
  rw [if_neg (by omega : ¬ row e ≤ prev)]

theorem foldl_settlementStep (d : Drain α) (es : List α) (h : ∀ e, prev < row e) :
    es.foldl (settlementStep row push last) d = es.foldl (drainStep row push prev last) d :=
  List.foldl_ext _ _ _ (fun _ _ _ => settlementStep_eq row push prev last (h _))

end Loops

theorem foldl_pushTrade (es : List Trade) (ev : PeriodEvents) :
    es.foldl (fun ev e => PeriodEvents.pushTrade e ev) ev
      = { ev with trades := ev.trades ++ es } := by
  induction es generalizing ev with
  | nil => simp
  | cons e es ih => rw [List.foldl_cons, ih]; simp [PeriodEvents.pushTrade]

theorem foldl_pushLiquidation (es : List Liquidation) (ev : PeriodEvents) :
    es.foldl (fun ev e => PeriodEvents.pushLiquidation e ev) ev
      = { ev with liquidations := ev.liquidations ++ es } := by
  induction es generalizing ev with
  | nil => simp
  | cons e es ih => rw [List.foldl_cons, ih]; simp [PeriodEvents.pushLiquidation]

theorem foldl_pushFunding (es : List FundingRate) (ev : PeriodEvents) :
    es.foldl (fun ev e => PeriodEvents.pushFunding e ev) ev
      = { ev with funding := ev.funding ++ es } := by
  induction es generalizing ev with
  | nil => simp
  | cons e es ih => rw [List.foldl_cons, ih]; simp [PeriodEvents.pushFunding]

theorem foldl_pushOpenInterest (es : List OpenInterest) (ev : PeriodEvents) :
    es.foldl (fun ev e => PeriodEvents.pushOpenInterest e ev) ev
      = { ev with openInterest := ev.openInterest ++ es } := by
  induction es generalizing ev with
  | nil => simp
  | cons e es ih => rw [List.foldl_cons, ih]; simp [PeriodEvents.pushOpenInterest]

theorem foldl_pushSettlement (es : List FundingSettlement) (ev : PeriodEvents) :
    es.foldl (fun ev e => PeriodEvents.pushSettlement e ev) ev
      = { ev with fundingSettlements := ev.fundingSettlements ++ es } := by
  induction es generalizing ev with
  | nil => simp
  | cons e es ih => rw [List.foldl_cons, ih]; simp [PeriodEvents.pushSettlement]

theorem prev_lt_settlementRow (s : MarketSynchronizer) (prev : ℕ) (fs : FundingSettlement) :
    prev < s.settlementRow prev fs := by
  unfold settlementRow
  omega

/-! ## The partition -/

section Partition

variable (s : MarketSynchronizer) (prev last : ℕ)

/-- **What a drain keeps**: the pending events sent past the last emitted
row. -/
theorem pending_drainEvents (h : prev ≤ last) :
    (s.drainEvents prev last).1.pending = s.pending.filter (fun e => last < s.target prev e) := by
  unfold pending
  rw [filter_eventsOf]
  unfold drainEvents
  simp only [drainKind]
  rw [foldl_settlementStep _ _ prev _ _ _ (s.prev_lt_settlementRow prev)]
  simp only [foldl_drainStep, List.nil_append]
  congr 1
  all_goals
    refine List.filter_congr (fun e _ => ?_)
    rw [decide_eq_decide]
    simp only [target, MarketEvent.isSettlement, MarketEvent.tsUs, settlementRow,
      Bool.false_eq_true, if_false, if_true]
    omega

/-- **What a row gets**: the pending events sent to it. -/
theorem events_drainEvents {p : ℕ} (hp : prev < p ∧ p ≤ last) :
    ((s.drainEvents prev last).2 p).events
      = s.pending.filter (fun e => s.target prev e = p) := by
  unfold pending
  rw [filter_eventsOf]
  unfold drainEvents
  simp only [drainKind]
  rw [foldl_settlementStep _ _ prev _ _ _ (s.prev_lt_settlementRow prev)]
  simp only [foldl_drainStep, if_pos hp, foldl_pushTrade, foldl_pushLiquidation,
    foldl_pushFunding, foldl_pushOpenInterest, foldl_pushSettlement, List.nil_append]
  rfl

/-- **What a drain counts late**: the pending events sent at or before the
period left. -/
theorem lateEventsDropped_drainEvents :
    (s.drainEvents prev last).1.lateEventsDropped
      = s.lateEventsDropped
        + (s.pending.filter (fun e => s.target prev e ≤ prev)).card := by
  unfold pending
  rw [filter_eventsOf]
  unfold drainEvents
  simp only [drainKind]
  rw [foldl_settlementStep _ _ prev _ _ _ (s.prev_lt_settlementRow prev)]
  simp only [foldl_drainStep]
  have hzero : s.currentFundingSettlements.countP
      (fun e => decide (s.settlementRow prev e ≤ prev)) = 0 :=
    List.countP_eq_zero.mpr (fun e _ => by
      have := s.prev_lt_settlementRow prev e
      simp
      omega)
  have hnone : s.currentFundingSettlements.filter
      (fun e => decide (s.target prev (.settlement e) ≤ prev)) = [] :=
    List.filter_eq_nil_iff.mpr (fun e _ => by
      simp only [target, MarketEvent.isSettlement]
      simp)
  rw [hzero, hnone]
  unfold eventsOf
  simp only [Multiset.card_add, Multiset.coe_card, List.length_map, List.countP_eq_length_filter]
  simp only [target, MarketEvent.isSettlement, MarketEvent.tsUs]
  simp

end Partition

/-! ## Calls -/

/-- **A call of the feeding interface.** -/
inductive Call where
  | onTime (tsUs : ℕ)
  | onOrderbook (pair : TradingPair) (exchangeTsUs : ℕ) (snapshot : Orderbook)
  | onTrade (trade : Trade)
  | onLiquidation (liq : Liquidation)
  | onFunding (fr : FundingRate)
  | onFundingSettlement (fs : FundingSettlement)
  | onOpenInterest (oi : OpenInterest)
  | drain

namespace Call

/-- The event a call feeds, if it feeds one. -/
def fed : Call → Multiset MarketEvent
  | onTrade tr => {.trade tr}
  | onLiquidation lq => {.liquidation lq}
  | onFunding fr => {.funding fr}
  | onFundingSettlement fs => {.settlement fs}
  | onOpenInterest oi => {.openInterest oi}
  | _ => 0

/-- The timestamp by which a call drives the clock of a mode, if it does. -/
def clockTs (mode : ClockMode) : Call → Option ℕ
  | onTime tsUs => if mode = ClockMode.externalClock then some tsUs else none
  | onOrderbook _ tsUs _ => if mode = ClockMode.orderbookDriven then some tsUs else none
  | onTrade tr => if mode = ClockMode.tradeDriven then some tr.sourceTradeTsUs else none
  | onLiquidation lq =>
    if mode = ClockMode.liquidationDriven then some lq.liquidationTsUs else none
  | _ => none

end Call

/-- Run a call: the state it leaves and the rows it hands to the caller. -/
def call (s : MarketSynchronizer) : Call → MarketSynchronizer × List MarketSnapshot
  | .onTime tsUs => ((s.onTime tsUs).1, [])
  | .onOrderbook pair tsUs snapshot => ((s.onOrderbook pair tsUs snapshot).1, [])
  | .onTrade tr => ((s.onTrade tr).1, [])
  | .onLiquidation lq => ((s.onLiquidation lq).1, [])
  | .onFunding fr => (s.onFunding fr, [])
  | .onFundingSettlement fs => (s.onFundingSettlement fs, [])
  | .onOpenInterest oi => (s.onOpenInterest oi, [])
  | .drain => s.drain

/-- The clock a call may drive: its symbol's, or the global one. -/
def clockOf (s : MarketSynchronizer) : Call → Option ℕ
  | .onOrderbook pair _ _ => s.lastPeriod.get? pair.toCanonical
  | _ => s.clockPeriod

/-- The advance a call causes: the period its clock leaves and the one it
reaches. -/
def advance (s : MarketSynchronizer) (c : Call) : Option (ℕ × ℕ) :=
  match c.clockTs s.clockMode, s.clockOf c with
  | some ts, some prev => if s.periodAt ts ≤ prev then none else some (prev, s.periodAt ts)
  | _, _ => none

/-- The first thing a call does: its event is pending, or the buffer is
handed out. -/
def feed (s : MarketSynchronizer) : Call → MarketSynchronizer
  | .onTrade tr => { s with currentTrades := s.currentTrades ++ [tr] }
  | .onLiquidation lq => { s with currentLiquidations := s.currentLiquidations ++ [lq] }
  | .onFunding fr => { s with currentFundingRates := s.currentFundingRates ++ [fr] }
  | .onFundingSettlement fs =>
    { s with currentFundingSettlements := s.currentFundingSettlements ++ [fs] }
  | .onOpenInterest oi => { s with currentOpenInterests := s.currentOpenInterests ++ [oi] }
  | .drain => { s with buffer := [] }
  | _ => s

/-- The book lookup of the rows a call emits. -/
def bookAsOf (s : MarketSynchronizer) : Call → ℕ → Option Orderbook
  | .onOrderbook pair _ _ => s.asOfBook pair.toCanonical
  | _ => s.asOfBookAny

/-- The second thing a call does: the rows its advance completes are
emitted. -/
def emitAdvance (s : MarketSynchronizer) (c : Call) : MarketSynchronizer :=
  match s.advance c with
  | none => s
  | some (prev, current) => s.emitPeriods (s.bookAsOf c) prev (fillCount prev current)

/-- Put the clock a call drives at a period. -/
def setClock (s : MarketSynchronizer) (period : ℕ) : Call → MarketSynchronizer
  | .onOrderbook pair _ _ =>
    { s with lastPeriod := s.lastPeriod.insert pair.toCanonical period }
  | _ => { s with clockPeriod := some period }

/-- The third thing a call does: its clock moves, or is anchored. -/
def moveClock (s : MarketSynchronizer) (c : Call) : MarketSynchronizer :=
  match c.clockTs s.clockMode with
  | none => s
  | some ts =>
    if ∃ prev ∈ s.clockOf c, s.periodAt ts ≤ prev then s else s.setClock (s.periodAt ts) c

/-- The last thing a call does: its book is recorded. -/
def record (s : MarketSynchronizer) : Call → MarketSynchronizer
  | .onOrderbook pair tsUs snapshot => s.recordBook pair.toCanonical tsUs snapshot
  | _ => s

/-- A call that drives no clock emits nothing and moves none. -/
theorem moveClock_emitAdvance_of_none (s : MarketSynchronizer) (c : Call)
    (h : c.clockTs s.clockMode = none) : (s.emitAdvance c).moveClock c = s := by
  unfold emitAdvance advance
  rw [h]
  unfold moveClock
  rw [h]

/-- A call that anchors its clock emits nothing. -/
theorem moveClock_emitAdvance_of_anchor {s : MarketSynchronizer} {c : Call} {ts : ℕ}
    (hts : c.clockTs s.clockMode = some ts) (hclock : s.clockOf c = none) :
    (s.emitAdvance c).moveClock c = s.setClock (s.periodAt ts) c := by
  unfold emitAdvance advance
  rw [hts, hclock]
  unfold moveClock
  rw [hts, hclock]
  simp

/-- A call whose clock stays in its period emits nothing. -/
theorem moveClock_emitAdvance_of_le {s : MarketSynchronizer} {c : Call} {ts prev : ℕ}
    (hts : c.clockTs s.clockMode = some ts) (hclock : s.clockOf c = some prev)
    (hle : s.periodAt ts ≤ prev) : (s.emitAdvance c).moveClock c = s := by
  unfold emitAdvance advance
  rw [hts, hclock]
  simp only [hle, if_true]
  unfold moveClock
  rw [hts, hclock]
  simp [hle]

/-- A call that moves its clock emits the rows of the advance first. -/
theorem moveClock_emitAdvance_of_lt {s : MarketSynchronizer} {c : Call} {ts prev : ℕ}
    (hts : c.clockTs s.clockMode = some ts) (hclock : s.clockOf c = some prev)
    (hlt : ¬ s.periodAt ts ≤ prev) :
    (s.emitAdvance c).moveClock c
      = (s.emitPeriods (s.bookAsOf c) prev (fillCount prev (s.periodAt ts))).setClock
          (s.periodAt ts) c := by
  unfold emitAdvance advance
  rw [hts, hclock]
  simp only [hlt, if_false]
  have hclock' : (s.emitPeriods (s.bookAsOf c) prev
      (fillCount prev (s.periodAt ts))).clockOf c = some prev := by
    rw [← hclock]
    cases c <;> rfl
  unfold moveClock
  rw [hclock']
  show (match c.clockTs s.clockMode with | none => _ | some ts => _) = _
  rw [hts]
  simp only [Option.mem_some_iff, exists_eq_left']
  exact if_neg hlt

/-- Driving the global clock is emitting the rows of the advance and moving
the clock. -/
theorem advanceGrid_eq {s : MarketSynchronizer} {c : Call} {ts : ℕ}
    (hts : c.clockTs s.clockMode = some ts) (hclock : s.clockOf c = s.clockPeriod)
    (hset : ∀ (t : MarketSynchronizer) (p : ℕ), t.setClock p c = { t with clockPeriod := some p })
    (hbook : s.bookAsOf c = s.asOfBookAny) :
    (s.advanceGrid ts).1 = (s.emitAdvance c).moveClock c := by
  unfold advanceGrid
  cases hp : s.clockPeriod with
  | none => rw [moveClock_emitAdvance_of_anchor hts (hclock.trans hp), hset]
  | some prev =>
    by_cases hle : s.periodAt ts ≤ prev
    · rw [moveClock_emitAdvance_of_le hts (hclock.trans hp) hle]
      simp only [hle, if_true]
    · rw [moveClock_emitAdvance_of_lt hts (hclock.trans hp) hle, hset, hbook]
      simp only [hle, if_false]

/-- **What a call does, in four steps.** -/
theorem call_eq {s : MarketSynchronizer} (hs : s.finalized = false) (c : Call) :
    (s.call c).1 = (((s.feed c).emitAdvance c).moveClock c).record c := by
  have hopen : ¬ s.finalized = true := by rw [hs]; exact Bool.false_ne_true
  cases c with
  | onTime tsUs =>
    simp only [call, onTime, if_neg hopen, feed, record]
    by_cases hm : s.clockMode = ClockMode.externalClock
    · rw [if_neg (not_not.mpr hm)]
      exact advanceGrid_eq (if_pos hm) rfl (fun _ _ => rfl) rfl
    · rw [if_pos hm]
      exact (moveClock_emitAdvance_of_none _ (.onTime tsUs) (if_neg hm)).symm
  | onOrderbook pair tsUs snapshot =>
    simp only [call, onOrderbook, if_neg hopen, feed, record]
    by_cases hm : s.clockMode = ClockMode.orderbookDriven
    · rw [if_neg (not_not.mpr hm)]
      have hts : (Call.onOrderbook pair tsUs snapshot).clockTs s.clockMode = some tsUs := if_pos hm
      cases hp : s.lastPeriod.get? pair.toCanonical with
      | none =>
        rw [moveClock_emitAdvance_of_anchor hts hp]
        rfl
      | some prev =>
        by_cases hle : s.periodAt tsUs ≤ prev
        · rw [moveClock_emitAdvance_of_le hts hp hle]
          simp only [hle, if_true]
        · rw [moveClock_emitAdvance_of_lt hts hp hle]
          simp only [hle, if_false]
          rfl
    · rw [if_pos hm, moveClock_emitAdvance_of_none s (.onOrderbook pair tsUs snapshot) (if_neg hm)]
  | onTrade tr =>
    simp only [call, onTrade, if_neg hopen, record]
    by_cases hm : s.clockMode = ClockMode.tradeDriven
    · rw [if_pos hm]
      exact advanceGrid_eq (if_pos hm) rfl (fun _ _ => rfl) rfl
    · rw [if_neg hm]
      exact (moveClock_emitAdvance_of_none (s.feed (.onTrade tr)) (.onTrade tr) (if_neg hm)).symm
  | onLiquidation lq =>
    simp only [call, onLiquidation, if_neg hopen, record]
    by_cases hm : s.clockMode = ClockMode.liquidationDriven
    · rw [if_pos hm]
      exact advanceGrid_eq (if_pos hm) rfl (fun _ _ => rfl) rfl
    · rw [if_neg hm]
      exact (moveClock_emitAdvance_of_none (s.feed (.onLiquidation lq)) (.onLiquidation lq)
        (if_neg hm)).symm
  | onFunding fr =>
    simp only [call, onFunding, if_neg hopen]
    exact (moveClock_emitAdvance_of_none _ (.onFunding fr) rfl).symm
  | onFundingSettlement fs =>
    simp only [call, onFundingSettlement, if_neg hopen]
    exact (moveClock_emitAdvance_of_none _ (.onFundingSettlement fs) rfl).symm
  | onOpenInterest oi =>
    simp only [call, onOpenInterest, if_neg hopen]
    exact (moveClock_emitAdvance_of_none _ (.onOpenInterest oi) rfl).symm
  | drain => exact (moveClock_emitAdvance_of_none _ .drain rfl).symm

/-- The last two steps touch the clocks and the books only. -/
theorem call_frame {s : MarketSynchronizer} (hs : s.finalized = false) (c : Call) :
    ∃ lastPeriod clockPeriod books, (s.call c).1
      = { (s.feed c).emitAdvance c with
          lastPeriod := lastPeriod, clockPeriod := clockPeriod, books := books } := by
  have hrecord : ∀ t : MarketSynchronizer, ∃ books, t.record c = { t with books := books } := by
    intro t
    cases c with
    | onOrderbook pair tsUs snapshot => exact ⟨_, rfl⟩
    | _ => exact ⟨t.books, rfl⟩
  have hset : ∀ (t : MarketSynchronizer) (p : ℕ), ∃ lastPeriod clockPeriod, t.setClock p c
      = { t with lastPeriod := lastPeriod, clockPeriod := clockPeriod } := by
    intro t p
    cases c with
    | onOrderbook pair tsUs snapshot => exact ⟨_, t.clockPeriod, rfl⟩
    | _ => exact ⟨t.lastPeriod, _, rfl⟩
  have hmove : ∀ t : MarketSynchronizer, ∃ lastPeriod clockPeriod, t.moveClock c
      = { t with lastPeriod := lastPeriod, clockPeriod := clockPeriod } := by
    intro t
    unfold moveClock
    split
    · exact ⟨t.lastPeriod, t.clockPeriod, rfl⟩
    · split
      · exact ⟨t.lastPeriod, t.clockPeriod, rfl⟩
      · exact hset t _
  rw [call_eq hs c]
  obtain ⟨lastPeriod, clockPeriod, hm⟩ := hmove ((s.feed c).emitAdvance c)
  obtain ⟨books, hr⟩ := hrecord (((s.feed c).emitAdvance c).moveClock c)
  exact ⟨lastPeriod, clockPeriod, books, by rw [hr, hm]⟩

/-- An advance moves the clock forward. -/
theorem lt_of_advance {s : MarketSynchronizer} {c : Call} {prev current : ℕ}
    (h : s.advance c = some (prev, current)) : prev < current := by
  unfold advance at h
  split at h
  · split at h
    · cases h
    · cases h
      omega
  · cases h

theorem advance_feed (s : MarketSynchronizer) (c : Call) : (s.feed c).advance c = s.advance c := by
  cases c <;> rfl

theorem target_feed (s : MarketSynchronizer) (c : Call) : (s.feed c).target = s.target := by
  cases c <;> rfl

theorem bookAsOf_feed (s : MarketSynchronizer) (c : Call) :
    (s.feed c).bookAsOf c = s.bookAsOf c := by
  cases c <;> rfl

theorem periodUs_feed (s : MarketSynchronizer) (c : Call) : (s.feed c).periodUs = s.periodUs := by
  cases c <;> rfl

theorem lateEventsDropped_feed (s : MarketSynchronizer) (c : Call) :
    (s.feed c).lateEventsDropped = s.lateEventsDropped := by
  cases c <;> rfl

theorem pending_feed (s : MarketSynchronizer) (c : Call) :
    (s.feed c).pending = s.pending + c.fed := by
  unfold pending eventsOf
  cases c <;>
    simp only [feed, Call.fed, List.map_append, List.map_cons, List.map_nil,
      ← Multiset.coe_add, Multiset.coe_singleton, add_zero] <;>
    abel

/-- The period, the hold-back window, the mode and the open stream survive a
call. -/
theorem call_config {s : MarketSynchronizer} (hs : s.finalized = false) (c : Call) :
    (s.call c).1.periodUs = s.periodUs ∧ (s.call c).1.emissionDelayUs = s.emissionDelayUs ∧
      (s.call c).1.clockMode = s.clockMode ∧ (s.call c).1.finalized = false := by
  obtain ⟨lp, cp, bk, h⟩ := call_frame hs c
  rw [h]
  unfold emitAdvance
  rw [← hs]
  split
  · cases c <;> exact ⟨rfl, rfl, rfl, rfl⟩
  · cases c <;> exact ⟨rfl, rfl, rfl, rfl⟩

/-- The events a call drops as late: those whose row is at or before the
period its clock leaves. -/
def lateOf (s : MarketSynchronizer) (c : Call) : Multiset MarketEvent :=
  match s.advance c with
  | none => 0
  | some (prev, _) => (s.pending + c.fed).filter (fun e => s.target prev e ≤ prev)

/-- The rows a call emits. -/
def newRows (s : MarketSynchronizer) (c : Call) : List MarketSnapshot :=
  match s.advance c with
  | none => []
  | some (prev, current) =>
    (List.range' (prev + 1) (fillCount prev current)).map (fun p =>
      s.rowSnapshot (s.bookAsOf c p)
        (((s.feed c).drainEvents prev (prev + fillCount prev current)).2 p) p)

/-- **What a call leaves pending.** -/
theorem pending_call {s : MarketSynchronizer} (hs : s.finalized = false) (c : Call) :
    (s.call c).1.pending = match s.advance c with
      | none => s.pending + c.fed
      | some (prev, current) => (s.pending + c.fed).filter (fun e =>
          prev + fillCount prev current < s.target prev e) := by
  obtain ⟨lp, cp, bk, h⟩ := call_frame hs c
  rw [h]
  show ((s.feed c).emitAdvance c).pending = _
  unfold emitAdvance
  rw [advance_feed]
  cases s.advance c with
  | none => exact pending_feed s c
  | some a =>
    show ((s.feed c).drainEvents _ _).1.pending = _
    rw [pending_drainEvents _ _ _ (Nat.le_add_right _ _), pending_feed, target_feed]

/-- **What a call counts late.** -/
theorem lateEventsDropped_call {s : MarketSynchronizer} (hs : s.finalized = false) (c : Call) :
    (s.call c).1.lateEventsDropped = s.lateEventsDropped + (s.lateOf c).card := by
  obtain ⟨lp, cp, bk, h⟩ := call_frame hs c
  rw [h]
  show ((s.feed c).emitAdvance c).lateEventsDropped = _
  unfold emitAdvance lateOf
  rw [advance_feed]
  cases s.advance c with
  | none => exact lateEventsDropped_feed s c
  | some a =>
    show ((s.feed c).drainEvents _ _).1.lateEventsDropped = _
    rw [lateEventsDropped_drainEvents, pending_feed, target_feed, lateEventsDropped_feed]

/-- **What a call hands out and buffers**: the rows that were buffered, and
then its own. -/
theorem buffer_call {s : MarketSynchronizer} (hs : s.finalized = false) (c : Call) :
    (s.call c).2 ++ (s.call c).1.buffer = s.buffer ++ s.newRows c := by
  obtain ⟨lp, cp, bk, h⟩ := call_frame hs c
  rw [h]
  show _ ++ ((s.feed c).emitAdvance c).buffer = _
  unfold emitAdvance newRows
  rw [advance_feed]
  cases ha : s.advance c with
  | none => cases c <;> simp [call, feed, drain]
  | some a =>
    rw [bookAsOf_feed]
    cases c with
    | drain => cases ha
    | _ => rfl

/-- What a call gives a row it emits: the events sent to it, the one just fed
included. -/
theorem events_drainEvents_feed (s : MarketSynchronizer) (c : Call) {prev last p : ℕ}
    (hp : prev < p ∧ p ≤ last) :
    (((s.feed c).drainEvents prev last).2 p).events
      = (s.pending + c.fed).filter (fun e => s.target prev e = p) := by
  rw [events_drainEvents _ _ _ hp, pending_feed, target_feed]

/-- **What a row emitted by a call holds**: its label, its as-of book, and
the events sent to it. -/
theorem mem_newRows {s : MarketSynchronizer} {c : Call} {r : MarketSnapshot}
    (hr : r ∈ s.newRows c) :
    ∃ prev current p, s.advance c = some (prev, current) ∧
      prev < p ∧ p ≤ prev + fillCount prev current ∧
      r.tsUs = p * s.periodUs ∧ r.orderbook = s.bookAsOf c p ∧
      r.events = (s.pending + c.fed).filter (fun e => s.target prev e = p) := by
  unfold newRows at hr
  cases ha : s.advance c with
  | none =>
    rw [ha] at hr
    cases hr
  | some a =>
    obtain ⟨prev, current⟩ := a
    rw [ha] at hr
    obtain ⟨p, hp, rfl⟩ := List.mem_map.mp hr
    rw [List.mem_range'_1] at hp
    exact ⟨prev, current, p, rfl, by omega, by omega, rfl, rfl,
      events_drainEvents_feed s c ⟨by omega, by omega⟩⟩

/-- The events of the rows emitted by a call, row by row. -/
theorem sum_events_newRows {s : MarketSynchronizer} {c : Call} {prev current : ℕ}
    (ha : s.advance c = some (prev, current)) :
    ((s.newRows c).map MarketSnapshot.events).sum
      = (s.pending + c.fed).rows (s.target prev) prev (fillCount prev current) := by
  unfold newRows Multiset.rows
  rw [ha]
  simp only [List.map_map]
  congr 1
  refine List.map_congr_left (fun p hp => ?_)
  rw [List.mem_range'_1] at hp
  exact events_drainEvents_feed s c ⟨by omega, by omega⟩

/-- **A call loses nothing and repeats nothing**: what was pending and what
it feeds is what its rows hold, what it leaves pending and what it drops. -/
theorem call_balance {s : MarketSynchronizer} (hs : s.finalized = false) (c : Call) :
    s.pending + c.fed
      = ((s.newRows c).map MarketSnapshot.events).sum + (s.call c).1.pending + s.lateOf c := by
  rw [pending_call hs]
  cases ha : s.advance c with
  | none => simp [newRows, lateOf, ha]
  | some a =>
    obtain ⟨prev, current⟩ := a
    rw [sum_events_newRows ha]
    simp only [lateOf, ha]
    nth_rewrite 1 [Multiset.eq_partition_rows (s.target prev) prev (fillCount prev current)
      (s.pending + c.fed)]
    abel

/-- No settlement is dropped as late. -/
theorem isSettlement_of_mem_lateOf {s : MarketSynchronizer} {c : Call} {e : MarketEvent}
    (he : e ∈ s.lateOf c) : e.isSettlement = false := by
  unfold lateOf at he
  split at he
  · cases Multiset.notMem_zero e he
  · have hle := (Multiset.mem_filter.mp he).2
    unfold target at hle
    by_contra hset
    rw [if_pos (by simpa using hset)] at hle
    omega

/-- An event that is no settlement is sent to the row whose content period
holds its timestamp. -/
theorem mem_contentPeriod_of_target {s : MarketSynchronizer} {e : MarketEvent} {prev p : ℕ}
    (he : e.isSettlement = false) (ht : s.target prev e = p) :
    (p - 1) * s.periodUs ≤ e.tsUs ∧ e.tsUs < p * s.periodUs := by
  unfold target rowOf at ht
  rw [if_neg (by simp [he])] at ht
  subst ht
  exact ⟨Nat.div_mul_le_self _ _, (Nat.lt_div_mul_add s.periodPos).trans_eq
    (Nat.succ_mul _ _).symm⟩

end MarketSynchronizer
