import Aetelier.MarketLedger

/-!
# Closing the stream

`finalize` emits one terminal row per clock and gives each of them everything
that is pending, without the attribution every other emission uses. Whether
that is honest – each pending event in one terminal row whose content period
holds its timestamp, or counted late – depends on what is left pending and
on how many clocks there are: it is exactly when nothing but settlements is
pending, or when there is one clock and every pending event belongs to the
row it is about to close (`MarketSynchronizer.honestClose_iff_of_reachable`).
-/

namespace MarketSynchronizer

variable {s : MarketSynchronizer}

/-- The periods of the clocks that have been driven: one per tracked symbol,
or the global one. -/
def clocks (s : MarketSynchronizer) : List ℕ :=
  match s.clockMode with
  | ClockMode.orderbookDriven => s.lastPeriod.values
  | _ => s.clockPeriod.toList

/-- **A reachable synchronizer**: configured, fed, drained and finalized in
any order. -/
inductive Reachable : MarketSynchronizer → Prop where
  | start (cfg : SyncConfig) : Reachable cfg.start
  | call {s : MarketSynchronizer} (c : Call) : Reachable s → Reachable (s.call c).1
  | finalize {s : MarketSynchronizer} : Reachable s → Reachable s.finalize

/-- The trades, liquidations, funding rates and open-interest records of a
multiset. -/
def marketEvents (M : Multiset MarketEvent) : Multiset MarketEvent :=
  M.filter (fun e => e.isSettlement = false)

/-- The rows `finalize` emits. -/
def terminalRows (s : MarketSynchronizer) : List MarketSnapshot :=
  s.finalize.buffer.drop s.buffer.length

/-- A timestamp lies in the content period of the row of a label. -/
def InContentPeriod (s : MarketSynchronizer) (label tsUs : ℕ) : Prop :=
  ∃ p, label = p * s.periodUs ∧ (p - 1) * s.periodUs ≤ tsUs ∧ tsUs < p * s.periodUs

/-- **An honest close**: every pending event but the settlements is in one
terminal row or counted late, once, and every such event of a terminal row
has its timestamp in the content period of that row. -/
def HonestClose (s : MarketSynchronizer) : Prop :=
  ∃ late : Multiset MarketEvent,
    marketEvents s.pending = (s.terminalRows.map (fun r => marketEvents r.events)).sum + late ∧
    s.finalize.lateEventsDropped = s.lateEventsDropped + late.card ∧
    ∀ r ∈ s.terminalRows, ∀ e ∈ marketEvents r.events, s.InContentPeriod r.tsUs e.tsUs

/-- The states that are closed honestly: nothing but settlements is pending,
or there is one clock and every pending event belongs to the row it is about
to close. -/
def Closable (s : MarketSynchronizer) : Prop :=
  marketEvents s.pending = 0 ∨
    ∃ p, s.clocks = [p] ∧ ∀ e ∈ marketEvents s.pending, s.rowOf e.tsUs = p + 1

/-! ## What `finalize` does -/

/-- The rows of an `orderbookDriven` close. -/
theorem finalize_obDriven (hs : s.finalized = false)
    (hm : s.clockMode = ClockMode.orderbookDriven) :
    s.finalize = { s with finalized := true }.finalizeObDriven := by
  unfold finalize
  rw [hs, hm]
  rfl

theorem finalize_globalClock (hs : s.finalized = false)
    (hm : s.clockMode ≠ ClockMode.orderbookDriven) :
    s.finalize = { s with finalized := true }.finalizeGlobalClock := by
  unfold finalize
  rw [hs]
  cases hmode : s.clockMode with
  | orderbookDriven => exact absurd hmode hm
  | _ => rfl

theorem finalizeGlobalClock_of_some {p : ℕ} (hp : s.clockPeriod = some p) :
    s.finalizeGlobalClock = { s.takePending with
      buffer := s.buffer ++ [s.terminalRow (s.asOfBookAny u64Max) p]
      totalCaptured := s.totalCaptured + 1 } := by
  unfold finalizeGlobalClock
  rw [hp]

/-- A global clock that was never driven closes without a row. -/
theorem finalize_globalClock_none (hs : s.finalized = false)
    (hm : s.clockMode ≠ ClockMode.orderbookDriven) (hp : s.clockPeriod = none) :
    s.finalize = { s with finalized := true } := by
  rw [finalize_globalClock hs hm]
  unfold finalizeGlobalClock
  simp only [hp]

/-- The row of a global-clock close. -/
theorem finalize_globalClock_some {p : ℕ} (hs : s.finalized = false)
    (hm : s.clockMode ≠ ClockMode.orderbookDriven) (hp : s.clockPeriod = some p) :
    s.finalize = { s.takePending with
      buffer := s.buffer ++ [s.terminalRow (s.asOfBookAny u64Max) p]
      totalCaptured := s.totalCaptured + 1
      finalized := true } := by
  rw [finalize_globalClock hs hm]
  exact finalizeGlobalClock_of_some (s := { s with finalized := true }) hp

theorem clocks_of_ne (hm : s.clockMode ≠ ClockMode.orderbookDriven) :
    s.clocks = s.clockPeriod.toList := by
  unfold clocks
  cases hmode : s.clockMode with
  | orderbookDriven => exact absurd hmode hm
  | _ => rfl

/-- **What `finalize` does to an open stream**: one row per clock, labelled
with the period the clock is in, each holding everything pending; nothing is
counted late. -/
theorem finalize_spec (hs : s.finalized = false) :
    s.terminalRows.map MarketSnapshot.tsUs = s.clocks.map (fun p => (p + 1) * s.periodUs) ∧
      (∀ r ∈ s.terminalRows, r.events = s.pending) ∧
      s.finalize.lateEventsDropped = s.lateEventsDropped ∧
      s.finalize.clocks = s.clocks ∧
      (s.clocks ≠ [] → s.finalize.pending = 0) := by
  unfold terminalRows
  by_cases hm : s.clockMode = ClockMode.orderbookDriven
  · have hclocks : s.clocks = s.lastPeriod.iter.map Prod.snd := by
      unfold clocks
      rw [hm]
      rfl
    rw [finalize_obDriven hs hm]
    unfold finalizeObDriven
    simp only [List.drop_left]
    refine ⟨?_, ?_, rfl, rfl, fun _ => rfl⟩
    · rw [hclocks, List.map_map, List.map_map]
      rfl
    · intro r hr
      obtain ⟨sp, -, rfl⟩ := List.mem_map.mp hr
      rfl
  · rw [clocks_of_ne hm]
    cases hp : s.clockPeriod with
    | none =>
      rw [finalize_globalClock_none hs hm hp]
      simp only [List.drop_length]
      exact ⟨rfl, (fun r hr => by cases hr), trivial, hp ▸ clocks_of_ne hm, fun h => absurd rfl h⟩
    | some p =>
      rw [finalize_globalClock_some hs hm hp]
      simp only [List.drop_left]
      refine ⟨rfl, fun r hr => ?_, rfl, hp ▸ clocks_of_ne hm, fun _ => rfl⟩
      rw [List.mem_singleton.mp hr]
      rfl

/-- A closed stream stays as it is. -/
theorem finalize_of_finalized (hs : s.finalized = true) : s.finalize = s := by
  unfold finalize
  rw [if_pos hs]

/-- Calls after the close change neither the clocks nor the buffers. -/
theorem call_of_finalized (hs : s.finalized = true) (c : Call) :
    (s.call c).1.finalized = true ∧ (s.call c).1.clocks = s.clocks ∧
      (s.call c).1.pending = s.pending := by
  cases c with
  | drain => exact ⟨hs, rfl, rfl⟩
  | _ =>
    simp only [call, onTime, onOrderbook, onTrade, onLiquidation, onFunding, onFundingSettlement,
      onOpenInterest, if_pos hs]
    exact ⟨hs, rfl, rfl⟩

/-- A reachable closed stream whose clock was driven holds nothing. -/
theorem Reachable.pending_eq_zero (h : Reachable s) (hs : s.finalized = true)
    (ha : s.clocks ≠ []) : s.pending = 0 := by
  induction h with
  | start cfg => cases hs
  | @call s c _ ih =>
    by_cases hfin : s.finalized = true
    · obtain ⟨-, hclocks, hpending⟩ := call_of_finalized hfin c
      rw [hpending]
      exact ih hfin (hclocks ▸ ha)
    · rw [(call_config (by simpa using hfin) c).2.2.2] at hs
      cases hs
  | @finalize s _ ih =>
    by_cases hfin : s.finalized = true
    · rw [finalize_of_finalized hfin] at ha ⊢
      exact ih hfin ha
    · obtain ⟨-, -, -, hclocks, hpending⟩ := finalize_spec (s := s) (by simpa using hfin)
      exact hpending (hclocks ▸ ha)

/-! ## When the close is honest -/

/-- The content period of a terminal row holds a timestamp exactly when the
row is the timestamp's own. -/
theorem inContentPeriod_iff (s : MarketSynchronizer) (tsUs p : ℕ) :
    s.InContentPeriod ((p + 1) * s.periodUs) tsUs ↔ s.rowOf tsUs = p + 1 := by
  unfold rowOf
  constructor
  · rintro ⟨q, hq, hlo, hhi⟩
    have hqp : p + 1 = q := Nat.eq_of_mul_eq_mul_right s.periodPos hq
    subst hqp
    exact congrArg (· + 1) (Nat.div_eq_of_lt_le hlo hhi)
  · intro h
    refine ⟨p + 1, rfl, ?_, ?_⟩
    · rw [← h]
      exact Nat.div_mul_le_self _ _
    · rw [← h, Nat.succ_mul]
      exact Nat.lt_div_mul_add s.periodPos

/-- A multiset that is a multiple of itself is empty, or taken once. -/
theorem eq_zero_or_eq_one_of_nsmul {α : Type} {n : ℕ} {M : Multiset α} (h : M = n • M) :
    M = 0 ∨ n = 1 := by
  have hcard := congrArg Multiset.card h
  rw [Multiset.card_nsmul] at hcard
  by_cases hM : M.card = 0
  · exact Or.inl (Multiset.card_eq_zero.mp hM)
  · exact Or.inr (Nat.eq_of_mul_eq_mul_right (Nat.pos_of_ne_zero hM) (by omega))

/-- An open stream is closed honestly exactly when what is pending, once per
clock, is what is pending, and belongs to every row about to be closed. -/
theorem honestClose_iff (hs : s.finalized = false) : s.HonestClose ↔
    marketEvents s.pending = s.clocks.length • marketEvents s.pending ∧
      ∀ p ∈ s.clocks, ∀ e ∈ marketEvents s.pending, s.rowOf e.tsUs = p + 1 := by
  obtain ⟨hlabels, hevents, hlate, -, -⟩ := finalize_spec hs
  have hlength : s.terminalRows.length = s.clocks.length := by
    simpa using congrArg List.length hlabels
  have hsum : (s.terminalRows.map (fun r => marketEvents r.events)).sum
      = s.clocks.length • marketEvents s.pending := by
    rw [List.map_congr_left (fun r hr => by rw [hevents r hr]), List.map_const', hlength,
      List.sum_replicate]
  have hrows : (∀ r ∈ s.terminalRows, ∀ e ∈ marketEvents r.events,
      s.InContentPeriod r.tsUs e.tsUs) ↔
      ∀ p ∈ s.clocks, ∀ e ∈ marketEvents s.pending, s.rowOf e.tsUs = p + 1 := by
    have hlabel : ∀ P : ℕ → Prop, (∀ r ∈ s.terminalRows, P r.tsUs) ↔
        ∀ p ∈ s.clocks, P ((p + 1) * s.periodUs) := by
      intro P
      rw [← List.forall_mem_map, hlabels, List.forall_mem_map]
    calc (∀ r ∈ s.terminalRows, ∀ e ∈ marketEvents r.events, s.InContentPeriod r.tsUs e.tsUs)
        ↔ ∀ r ∈ s.terminalRows, ∀ e ∈ marketEvents s.pending, s.InContentPeriod r.tsUs e.tsUs :=
          forall₂_congr (fun r hr => by rw [hevents r hr])
      _ ↔ ∀ p ∈ s.clocks, ∀ e ∈ marketEvents s.pending,
            s.InContentPeriod ((p + 1) * s.periodUs) e.tsUs :=
          hlabel (fun t => ∀ e ∈ marketEvents s.pending, s.InContentPeriod t e.tsUs)
      _ ↔ ∀ p ∈ s.clocks, ∀ e ∈ marketEvents s.pending, s.rowOf e.tsUs = p + 1 :=
          forall₂_congr (fun p _ => forall₂_congr (fun e _ => s.inContentPeriod_iff e.tsUs p))
  unfold HonestClose
  rw [hsum, hlate, hrows]
  constructor
  · rintro ⟨late, hbalance, hcard, hown⟩
    rw [Multiset.card_eq_zero.mp (show late.card = 0 by omega), add_zero] at hbalance
    exact ⟨hbalance, hown⟩
  · rintro ⟨hbalance, hown⟩
    exact ⟨0, by rw [add_zero]; exact hbalance, rfl, hown⟩

/-- **When `finalize` closes the stream honestly.** In every reachable state
whose clock was driven: exactly when nothing but settlements is pending, or
there is one clock and every pending event belongs to the row it is about to
close. -/
theorem honestClose_iff_of_reachable (h : Reachable s) (ha : s.clocks ≠ []) :
    s.HonestClose ↔ s.Closable := by
  by_cases hs : s.finalized = true
  · have hpending := h.pending_eq_zero hs ha
    have hrows : s.terminalRows = [] := by
      unfold terminalRows
      rw [finalize_of_finalized hs, List.drop_length]
    refine iff_of_true ⟨0, ?_, ?_, ?_⟩ (Or.inl (by rw [hpending]; rfl))
    · rw [hpending, hrows]
      rfl
    · rw [finalize_of_finalized hs]
      rfl
    · rw [hrows]
      intro r hr
      cases hr
  · rw [honestClose_iff (by simpa using hs)]
    constructor
    · rintro ⟨hbalance, hown⟩
      rcases eq_zero_or_eq_one_of_nsmul hbalance with hzero | hone
      · exact Or.inl hzero
      · obtain ⟨p, hp⟩ := List.length_eq_one_iff.mp hone
        exact Or.inr ⟨p, hp, hown p (by rw [hp]; exact List.mem_singleton_self p)⟩
    · rintro (hzero | ⟨p, hp, hown⟩)
      · rw [hzero]
        exact ⟨(nsmul_zero _).symm, fun p _ e he => absurd he (Multiset.notMem_zero e)⟩
      · rw [hp]
        refine ⟨(one_nsmul _).symm, fun q hq => ?_⟩
        rw [List.mem_singleton.mp hq]
        exact hown

/-- A trade of the open period is closed honestly. -/
theorem honestClose_of_open_period :
    (((tenMicros .externalClock 0).start.call (.onTime 5)).1.call
      (.onTrade (printAt 7))).1.HonestClose := by
  refine (honestClose_iff_of_reachable ?_ ?_).mpr (Or.inr ⟨0, ?_, ?_⟩)
  · exact .call _ (.call _ (.start _))
  · decide
  · decide
  · decide

/-- A trade of a later period is put into the terminal row all the same: the
clock is anchored in the first period, the terminal row closes it, and it
holds the trade at 25. -/
theorem not_honestClose_of_later_period :
    Reachable (((tenMicros .externalClock 0).start.call (.onTime 5)).1.call
        (.onTrade (printAt 25))).1 ∧
      (((tenMicros .externalClock 0).start.call (.onTime 5)).1.call
        (.onTrade (printAt 25))).1.clocks ≠ [] ∧
      ¬ (((tenMicros .externalClock 0).start.call (.onTime 5)).1.call
        (.onTrade (printAt 25))).1.HonestClose := by
  refine ⟨.call _ (.call _ (.start _)), by decide, ?_⟩
  rw [honestClose_iff (by decide)]
  decide

end MarketSynchronizer
