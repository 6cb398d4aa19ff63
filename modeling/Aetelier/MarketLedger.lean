import Aetelier.MarketCalls

/-!
# The ledger of a run

A run of the synchronizer is a sequence of calls. Its ledger keeps, beside
the synchronizer, what has left it: every row its caller drained and every
event it dropped as late. `SyncConfig.exactly_once` says the ledger always
balances – each event fed is at every moment in one emitted row, pending, or
counted late – and that a row holds only events of its own content period.
-/

open MarketSynchronizer

/-- How a synchronizer is created and configured. -/
structure SyncConfig where
  /-- The hasher of the period map. -/
  hashPeriods : RandomState String
  /-- The hasher of the book map. -/
  hashBooks : RandomState String
  /-- Grid spacing. -/
  periodUs : ℕ
  /-- The constructor asserts that it is positive. -/
  periodPos : 0 < periodUs
  /-- The feed that drives the clock. -/
  clockMode : ClockMode
  /-- Emission hold-back window. -/
  emissionDelayUs : ℕ

/-- The synchronizer of a configuration, before any call. -/
def SyncConfig.start (cfg : SyncConfig) : MarketSynchronizer :=
  (withClockMode cfg.hashPeriods cfg.hashBooks cfg.periodUs cfg.periodPos
    cfg.clockMode).setEmissionDelayUs cfg.emissionDelayUs

/-- **The ledger of a run**: the synchronizer, the rows its caller has
drained, and the events it has dropped as late. -/
structure Ledger where
  /-- The synchronizer. -/
  sync : MarketSynchronizer
  /-- The rows drained so far. -/
  taken : List MarketSnapshot
  /-- The events dropped as late so far. -/
  late : Multiset MarketEvent

namespace Ledger

/-- The ledger before any call. -/
def start (s : MarketSynchronizer) : Ledger := ⟨s, [], 0⟩

/-- Book one call. -/
def call (l : Ledger) (c : Call) : Ledger where
  sync := (l.sync.call c).1
  taken := l.taken ++ (l.sync.call c).2
  late := l.late + l.sync.lateOf c

/-- Book a sequence of calls. -/
def run (l : Ledger) (calls : List Call) : Ledger := calls.foldl call l

/-- Every row emitted so far, drained or still buffered. -/
def emitted (l : Ledger) : List MarketSnapshot := l.taken ++ l.sync.buffer

theorem run_append_singleton (l : Ledger) (calls : List Call) (c : Call) :
    l.run (calls ++ [c]) = (l.run calls).call c := by
  unfold run
  rw [List.foldl_append]
  rfl

/-- A call appends its rows to what was emitted. -/
theorem emitted_call {l : Ledger} (hl : l.sync.finalized = false) (c : Call) :
    (l.call c).emitted = l.emitted ++ l.sync.newRows c := by
  unfold emitted call
  rw [List.append_assoc, buffer_call hl, List.append_assoc]

/-- **The run rule.** What holds at the start and survives every call from an
open synchronizer holds after every run. -/
theorem run_invariant {I : Ledger → List Call → Prop} {l : Ledger}
    (hl : l.sync.finalized = false) (hstart : I l [])
    (hcall : ∀ (l' : Ledger) (calls : List Call) (c : Call), l'.sync.finalized = false →
      I l' calls → I (l'.call c) (calls ++ [c])) (calls : List Call) :
    (l.run calls).sync.finalized = false ∧ I (l.run calls) calls := by
  induction calls using List.reverseRecOn with
  | nil => exact ⟨hl, hstart⟩
  | append_singleton calls c ih =>
    rw [run_append_singleton]
    exact ⟨(call_config ih.1 c).2.2.2, hcall _ _ _ ih.1 ih.2⟩

/-- **A balanced ledger** after a sequence of calls. -/
structure Balanced (l : Ledger) (periodUs : ℕ) (calls : List Call) : Prop where
  /-- The grid spacing is the configured one. -/
  period : l.sync.periodUs = periodUs
  /-- Everything fed is in an emitted row, pending, or late, and once. -/
  balance : (calls.map Call.fed).sum
    = (l.emitted.map MarketSnapshot.events).sum + l.sync.pending + l.late
  /-- The counter counts the late events. -/
  counted : l.late.card = l.sync.lateEventsDropped
  /-- No late event is a settlement. -/
  settlements : ∀ e ∈ l.late, e.isSettlement = false
  /-- Every row holds events of its own content period, settlements apart. -/
  ownRow : ∀ r ∈ l.emitted, ∃ p, 0 < p ∧ r.tsUs = p * periodUs ∧
    ∀ e ∈ r.events, e.isSettlement = false → (p - 1) * periodUs ≤ e.tsUs ∧ e.tsUs < p * periodUs

/-- A call keeps the ledger balanced. -/
theorem Balanced.call {periodUs : ℕ} {l : Ledger} {calls : List Call}
    (hl : l.sync.finalized = false) (h : l.Balanced periodUs calls) (c : Call) :
    (l.call c).Balanced periodUs (calls ++ [c]) where
  period := (call_config hl c).1.trans h.period
  balance := by
    rw [emitted_call hl, List.map_append, List.sum_append, List.map_append, List.sum_append,
      h.balance]
    have hc := call_balance hl c
    show _ + l.sync.pending + l.late + _ = _ + _ + (l.sync.call c).1.pending
      + (l.late + l.sync.lateOf c)
    simp only [List.map_cons, List.map_nil, List.sum_cons, List.sum_nil, add_zero]
    calc (l.emitted.map MarketSnapshot.events).sum + l.sync.pending + l.late + c.fed
        = (l.emitted.map MarketSnapshot.events).sum + l.late + (l.sync.pending + c.fed) := by abel
      _ = _ := by rw [hc]; abel
  counted := by
    show (l.late + l.sync.lateOf c).card = (l.sync.call c).1.lateEventsDropped
    rw [Multiset.card_add, h.counted, lateEventsDropped_call hl]
  settlements := by
    intro e he
    rcases Multiset.mem_add.mp he with he | he
    · exact h.settlements e he
    · exact isSettlement_of_mem_lateOf he
  ownRow := by
    intro r hr
    rw [emitted_call hl] at hr
    rcases List.mem_append.mp hr with hr | hr
    · exact h.ownRow r hr
    · obtain ⟨prev, current, p, -, hp, -, hts, -, hev⟩ := mem_newRows hr
      rw [h.period] at hts
      refine ⟨p, by omega, hts, fun e he hset => ?_⟩
      rw [hev] at he
      rw [← h.period]
      exact mem_contentPeriod_of_target hset (Multiset.mem_filter.mp he).2

theorem Balanced.start (s : MarketSynchronizer) (hpending : s.pending = 0) (hbuffer : s.buffer = [])
    (hlate : s.lateEventsDropped = 0) : (start s).Balanced s.periodUs [] where
  period := rfl
  balance := by simp [emitted, Ledger.start, hpending, hbuffer]
  counted := by simp [Ledger.start, hlate]
  settlements := by simp [Ledger.start]
  ownRow := by simp [emitted, Ledger.start, hbuffer]

end Ledger

/-- The ledger after a sequence of calls. -/
def SyncConfig.run (cfg : SyncConfig) (calls : List Call) : Ledger :=
  (Ledger.start cfg.start).run calls

/-- The ledger balances after every run. -/
theorem SyncConfig.balanced (cfg : SyncConfig) (calls : List Call) :
    (cfg.run calls).Balanced cfg.periodUs calls :=
  (Ledger.run_invariant (I := fun l calls => l.Balanced cfg.periodUs calls) rfl
    (Ledger.Balanced.start cfg.start rfl rfl rfl) (fun _ _ c hopen h => h.call hopen c) calls).2

/-- **Exactly once, in its own row.** After any sequence of calls, in any
clock mode, with any hold-back window and any number of symbols: the events
fed are the events of the emitted rows, the pending events and the late
events, each with its multiplicity; the counter is the number of late
events, none of them a settlement; and the row `p * period` holds only
events of `[(p - 1) * period, p * period)`, settlements apart. -/
theorem SyncConfig.exactly_once (cfg : SyncConfig) (calls : List Call) :
    (calls.map Call.fed).sum
        = ((cfg.run calls).emitted.map MarketSnapshot.events).sum
          + (cfg.run calls).sync.pending + (cfg.run calls).late ∧
      (cfg.run calls).late.card = (cfg.run calls).sync.lateEventsDropped ∧
      (∀ e ∈ (cfg.run calls).late, e.isSettlement = false) ∧
      ∀ r ∈ (cfg.run calls).emitted, ∃ p, 0 < p ∧ r.tsUs = p * cfg.periodUs ∧
        ∀ e ∈ r.events, e.isSettlement = false →
          (p - 1) * cfg.periodUs ≤ e.tsUs ∧ e.tsUs < p * cfg.periodUs := by
  have h := cfg.balanced calls
  exact ⟨h.balance, h.counted, h.settlements, h.ownRow⟩

/-- A run keeps the stream open and the configuration. -/
theorem SyncConfig.run_config (cfg : SyncConfig) (calls : List Call) :
    (cfg.run calls).sync.finalized = false ∧ (cfg.run calls).sync.periodUs = cfg.periodUs ∧
      (cfg.run calls).sync.emissionDelayUs = cfg.emissionDelayUs ∧
      (cfg.run calls).sync.clockMode = cfg.clockMode := by
  refine Ledger.run_invariant (l := Ledger.start cfg.start)
    (I := fun l _ => l.sync.periodUs = cfg.periodUs ∧
      l.sync.emissionDelayUs = cfg.emissionDelayUs ∧ l.sync.clockMode = cfg.clockMode)
    rfl ⟨rfl, rfl, rfl⟩ (fun l _ c hopen h => ?_) calls
  obtain ⟨hp, hd, hm, -⟩ := call_config hopen c
  exact ⟨hp.trans h.1, hd.trans h.2.1, hm.trans h.2.2⟩

theorem SyncConfig.run_append_singleton (cfg : SyncConfig) (calls : List Call) (c : Call) :
    cfg.run (calls ++ [c]) = (cfg.run calls).call c :=
  Ledger.run_append_singleton _ calls c

/-! ## A sample market -/

/-- The sample pair. -/
def btcUsdt : TradingPair := ⟨"BTC", "USDT"⟩

/-- A trade print of one unit, at a timestamp. -/
def printAt (tsUs : ℕ) : Trade where
  sourceTradeTsUs := tsUs
  pair := btcUsdt
  side := TradeSide.buy
  amount := ⟨1, 0⟩
  price := ⟨100, 0⟩
  exchange := "binance"
  id := "1"

/-- A book without levels, at a timestamp. -/
def bookAt (tsUs : ℕ) : Orderbook :=
  { Orderbook.empty btcUsdt "binance" with sourceOrderbookTsUs := tsUs }

/-- A grid of ten microseconds. -/
def tenMicros (clockMode : ClockMode) (emissionDelayUs : ℕ) : SyncConfig where
  hashPeriods := RandomState.table
  hashBooks := RandomState.table
  periodUs := 10
  periodPos := by decide
  clockMode := clockMode
  emissionDelayUs := emissionDelayUs

/-- A late trade is counted and not re-homed. -/
example : ((tenMicros .externalClock 0).run [.onTime 5, .onTrade (printAt 7), .onTime 12,
    .onTrade (printAt 3), .onTime 25]).sync.lateEventsDropped = 1 := by decide
