import Aetelier.MarketClock
import Aetelier.MarketFinalize

/-!
# The grid of each clock

A synchronizer has one clock in the global modes and one per symbol in
`orderbookDriven` mode. Whatever the order in which the clocks are driven,
the rows of each of them are the rows `anchor + 1, anchor + 2, …` without a
repetition or a hole, and the terminal row of `finalize` is the next one
(`SyncConfig.grid_shape`). The counter of captured rows counts all of them,
drained or not.
-/

/-! ## One call -/

namespace MarketSynchronizer

variable {key : String} {s : MarketSynchronizer} {c : Call}

/-- The terminal rows of one clock. In `orderbookDriven` mode `finalize` goes
over the tracked symbols and pushes one row for each. -/
def terminalRowsOf (s : MarketSynchronizer) (key : String) : List MarketSnapshot :=
  if s.clockMode = ClockMode.orderbookDriven then
    ((s.lastPeriod.keys.zip s.terminalRows).filter (fun x => x.1 = key)).map Prod.snd
  else s.terminalRows

/-- A call of another symbol leaves the clock of a symbol where it is. -/
theorem clock_call_of_not_onSymbol (hs : s.finalized = false) (hc : ¬ c.OnSymbol key) :
    (s.call c).1.clock key = s.clock key := by
  cases c with
  | onOrderbook pair tsUs b =>
    have hne : key ≠ pair.toCanonical := fun h => hc h.symm
    obtain ⟨hmode, -⟩ := config_emitAdvance_feed s (.onOrderbook pair tsUs b)
    rw [call_eq hs, clock_record, ← clock_emitAdvance_feed s key (.onOrderbook pair tsUs b)]
    generalize (s.feed (.onOrderbook pair tsUs b)).emitAdvance (.onOrderbook pair tsUs b) = t
    unfold moveClock
    split
    · rfl
    · split
      · rfl
      · show (if t.clockMode = _ then (t.lastPeriod.insert _ _).get? key else t.clockPeriod) = _
        rw [HashMap.get?_insert, if_neg hne]
        rfl
  | _ => exact absurd trivial hc

/-- A call that drives no clock completes no period. -/
theorem advance_of_clockTs_eq_none (h : c.clockTs s.clockMode = none) : s.advance c = none := by
  unfold advance
  rw [h]

/-- A call that completes no period emits no row. -/
theorem newRows_of_none (h : s.advance c = none) : s.newRows c = [] := by
  unfold newRows
  rw [h]

/-- **What a call captures**: the rows it emits. -/
theorem totalCaptured_call (hs : s.finalized = false) (c : Call) :
    (s.call c).1.totalCaptured = s.totalCaptured + (s.newRows c).length := by
  obtain ⟨lp, cp, bk, h⟩ := call_frame hs c
  rw [h]
  show ((s.feed c).emitAdvance c).totalCaptured = _
  unfold emitAdvance newRows
  rw [advance_feed]
  cases s.advance c with
  | none => cases c <;> rfl
  | some a =>
    simp only [List.length_map, List.length_range']
    cases c <;> rfl

/-- The terminal row of a clock is the row after the period it is in. -/
theorem tsUs_terminalRowsOf (hs : s.finalized = false) (key : String) :
    (s.terminalRowsOf key).map MarketSnapshot.tsUs
      = (s.clock key).toList.map (fun p => (p + 1) * s.periodUs) := by
  unfold terminalRowsOf clock
  by_cases hm : s.clockMode = ClockMode.orderbookDriven
  · rw [if_pos hm, if_pos hm]
    unfold terminalRows
    rw [finalize_obDriven hs hm]
    unfold finalizeObDriven
    simp only [List.drop_left]
    rw [← HashMap.map_fst_iter, List.zip_map', List.filter_map, List.map_map, List.map_map]
    show (s.lastPeriod.iter.filter (fun sp => decide (sp.1 = key))).map _ = _
    rw [HashMap.filter_iter, List.map_map]
    rfl
  · rw [if_neg hm, if_neg hm, (finalize_spec hs).1, clocks_of_ne hm]

/-- Closing the stream buffers the terminal rows and counts them. -/
theorem finalize_captured (hs : s.finalized = false) :
    s.finalize.buffer = s.buffer ++ s.terminalRows ∧
      s.finalize.totalCaptured = s.totalCaptured + s.terminalRows.length ∧
      s.finalize.finalized = true := by
  unfold terminalRows
  by_cases hm : s.clockMode = ClockMode.orderbookDriven
  · rw [finalize_obDriven hs hm]
    unfold finalizeObDriven
    simp only [List.drop_left]
    exact ⟨trivial, trivial, rfl⟩
  · cases hp : s.clockPeriod with
    | none =>
      rw [finalize_globalClock_none hs hm hp]
      simp
    | some p =>
      rw [finalize_globalClock_some hs hm hp]
      simp

/-- A closed stream only hands out what it holds. -/
theorem call_of_closed (hs : s.finalized = true) (c : Call) :
    (s.call c).1.finalized = true ∧ (s.call c).1.totalCaptured = s.totalCaptured ∧
      (s.call c).2 ++ (s.call c).1.buffer = s.buffer := by
  cases c with
  | drain => exact ⟨hs, rfl, List.append_nil _⟩
  | _ =>
    simp [call, onTime, onOrderbook, onTrade, onLiquidation, onFunding, onFundingSettlement,
      onOpenInterest, hs, dropPostFinalize]

end MarketSynchronizer

/-! ## The rows of a run, clock by clock -/

section Runs

open MarketSynchronizer

namespace Ledger

/-- The rows one call adds to what was emitted. -/
def rowsBy (l : Ledger) (c : Call) : List MarketSnapshot :=
  (l.call c).emitted.drop l.emitted.length

/-- **The rows of one clock**: those emitted by the calls that concern it. -/
def rowsOf (key : String) (l : Ledger) : List Call → List MarketSnapshot
  | [] => []
  | c :: calls => (if c.OnSymbol key then l.rowsBy c else []) ++ (l.call c).rowsOf key calls

/-- Close the stream. -/
def finalize (l : Ledger) : Ledger := { l with sync := l.sync.finalize }

theorem rowsBy_eq {l : Ledger} (hl : l.sync.finalized = false) (c : Call) :
    l.rowsBy c = l.sync.newRows c := by
  unfold rowsBy
  rw [emitted_call hl, List.drop_left]

theorem rowsOf_append_singleton (key : String) (l : Ledger) (calls : List Call) (c : Call) :
    l.rowsOf key (calls ++ [c])
      = l.rowsOf key calls ++ (if c.OnSymbol key then (l.run calls).rowsBy c else []) := by
  induction calls generalizing l with
  | nil => exact List.append_nil _
  | cons c' calls ih =>
    show _ ++ (l.call c').rowsOf key (calls ++ [c]) = _ ++ (l.call c').rowsOf key calls ++ _
    rw [ih, List.append_assoc]
    rfl

/-- A closed ledger takes no more rows, and its counter stands. -/
theorem run_of_closed {l : Ledger} (hl : l.sync.finalized = true) (post : List Call) :
    (l.run post).emitted = l.emitted ∧
      (l.run post).sync.totalCaptured = l.sync.totalCaptured := by
  induction post generalizing l with
  | nil => exact ⟨rfl, rfl⟩
  | cons c post ih =>
    obtain ⟨hopen, htotal, hrows⟩ := call_of_closed hl c
    obtain ⟨he, ht⟩ := ih (l := l.call c) hopen
    refine ⟨he.trans ?_, ht.trans htotal⟩
    show l.taken ++ (l.sync.call c).2 ++ (l.sync.call c).1.buffer = _
    rw [List.append_assoc, hrows]
    rfl

end Ledger

namespace SyncConfig

variable {cfg : SyncConfig} {key : String}

/-- The rows of one clock in a run. -/
def rowsOf (cfg : SyncConfig) (key : String) (calls : List Call) : List MarketSnapshot :=
  (Ledger.start cfg.start).rowsOf key calls

/-- The period the clock of a symbol is anchored at: only the calls that
concern it drive it. -/
def anchorOf (cfg : SyncConfig) (key : String) (calls : List Call) : Option ℕ :=
  cfg.anchor (calls.filter (fun c => c.OnSymbol key))

theorem rowsOf_append (calls : List Call) (c : Call) :
    cfg.rowsOf key (calls ++ [c])
      = cfg.rowsOf key calls
        ++ (if c.OnSymbol key then (cfg.run calls).sync.newRows c else []) := by
  unfold rowsOf
  rw [Ledger.rowsOf_append_singleton]
  show _ ++ (if c.OnSymbol key then (cfg.run calls).rowsBy c else []) = _
  rw [Ledger.rowsBy_eq (cfg.run_config calls).1]

/-- An anchor stays where it is. -/
theorem anchorOf_append_of_some {calls : List Call} {a : ℕ} (h : cfg.anchorOf key calls = some a)
    (c : Call) : cfg.anchorOf key (calls ++ [c]) = some a := by
  unfold anchorOf at h ⊢
  rw [List.filter_append, anchor_append, h]
  intro hnil
  unfold anchor at h
  rw [hnil] at h
  cases h

/-- The first call that drives a clock anchors it, and no other does. -/
theorem anchorOf_append_of_none {calls : List Call} (h : cfg.anchorOf key calls = none)
    (c : Call) :
    cfg.anchorOf key (calls ++ [c])
      = if c.OnSymbol key then (c.clockTs cfg.clockMode).map cfg.periodAt else none := by
  unfold anchorOf anchor at h ⊢
  have hnil : cfg.ticks (calls.filter (fun c => c.OnSymbol key)) = [] := by
    rw [Option.map_eq_none_iff, List.head?_eq_none_iff] at h
    exact h
  rw [List.filter_append]
  unfold ticks at hnil ⊢
  rw [List.filterMap_append, hnil, List.nil_append]
  by_cases hc : c.OnSymbol key
  · rw [List.filter_cons_of_pos (by simpa using hc), if_pos hc]
    cases hts : c.clockTs cfg.clockMode with
    | none => rw [List.filterMap_cons_none hts]; rfl
    | some ts => rw [List.filterMap_cons_some hts]; rfl
  · rw [List.filter_cons_of_neg (by simpa using hc), if_neg hc]
    rfl

/-- **The grid of one clock** after a sequence of calls: before it is
anchored it has no row, and afterwards its rows are those from the anchor to
where it stands. -/
structure OnGrid (cfg : SyncConfig) (key : String) (calls : List Call) : Prop where
  /-- A clock that was not driven has no anchor and no row. -/
  undriven : cfg.clock key calls = none → cfg.anchorOf key calls = none ∧ cfg.rowsOf key calls = []
  /-- The rows of a clock that was driven. -/
  driven : ∀ p, cfg.clock key calls = some p → ∃ a, cfg.anchorOf key calls = some a ∧ a ≤ p ∧
    (cfg.rowsOf key calls).map MarketSnapshot.tsUs
      = (List.range' (a + 1) (p - a)).map (· * cfg.periodUs)

/-- A call that moves neither the clock nor the rows, and anchors no clock
that had no anchor. -/
theorem OnGrid.of_still {calls : List Call} (h : OnGrid cfg key calls) {c : Call}
    (hclock : cfg.clock key (calls ++ [c]) = cfg.clock key calls)
    (hrows : cfg.rowsOf key (calls ++ [c]) = cfg.rowsOf key calls)
    (hanchor : cfg.clock key calls = none → cfg.anchorOf key calls = none →
      cfg.anchorOf key (calls ++ [c]) = none) :
    OnGrid cfg key (calls ++ [c]) := by
  refine ⟨fun hp => ?_, fun p hp => ?_⟩
  · obtain ⟨ha, hr⟩ := h.undriven (hclock ▸ hp)
    exact ⟨hanchor (hclock ▸ hp) ha, hrows.trans hr⟩
  · obtain ⟨a, ha, hle, hr⟩ := h.driven p (hclock ▸ hp)
    exact ⟨a, anchorOf_append_of_some ha c, hle, by rw [hrows]; exact hr⟩

/-- A call keeps every clock on its grid, where its advance is not capped. -/
theorem OnGrid.append {calls : List Call} (h : OnGrid cfg key calls) {c : Call}
    (hcap : ∀ a ∈ (cfg.run calls).sync.advance c, a.2 - a.1 ≤ maxGapFill) :
    OnGrid cfg key (calls ++ [c]) := by
  obtain ⟨hopen, -, -, hmode⟩ := cfg.run_config calls
  by_cases hc : c.OnSymbol key
  swap
  · -- a call of another symbol moves neither the clock nor the rows of this one
    have hclock : cfg.clock key (calls ++ [c]) = cfg.clock key calls := by
      unfold clock
      rw [run_append_singleton]
      exact clock_call_of_not_onSymbol hopen hc
    have hrows : cfg.rowsOf key (calls ++ [c]) = cfg.rowsOf key calls := by
      rw [rowsOf_append, if_neg hc, List.append_nil]
    refine h.of_still hclock hrows (fun _ ha => ?_)
    rw [anchorOf_append_of_none ha, if_neg hc]
  cases hadv : (cfg.run calls).sync.advance c with
  | none =>
    have hrows : cfg.rowsOf key (calls ++ [c]) = cfg.rowsOf key calls := by
      rw [rowsOf_append, if_pos hc, newRows_of_none hadv, List.append_nil]
    rcases clock_append_of_none hc hadv with hclock | ⟨hclock, ts, hts, hclock'⟩
    · refine h.of_still hclock hrows (fun hp ha => ?_)
      -- a driving call would have anchored the clock
      rw [anchorOf_append_of_none ha, if_pos hc, Option.map_eq_none_iff]
      cases hts : c.clockTs cfg.clockMode with
      | none => rfl
      | some ts =>
        have hsome := clock_call_of_some hopen hc (hmode ▸ hts)
        rw [← hclock] at hp
        unfold clock at hp
        rw [run_append_singleton] at hp
        cases hp.symm.trans hsome
    · -- the first driving call is the anchor, and emits nothing
      obtain ⟨ha, hr⟩ := h.undriven hclock
      refine ⟨fun hp => (Option.some_ne_none _ (hclock'.symm.trans hp)).elim, fun p hp => ?_⟩
      obtain rfl : cfg.periodAt ts = p := Option.some.inj (hclock'.symm.trans hp)
      refine ⟨cfg.periodAt ts, ?_, le_refl _, ?_⟩
      · rw [anchorOf_append_of_none ha, if_pos hc, hts]
        rfl
      · rw [hrows, hr, Nat.sub_self]
        rfl
  | some adv =>
    obtain ⟨prev, current⟩ := adv
    obtain ⟨hclock, hclock', hlt⟩ := clock_append_of_some hc hadv
    obtain ⟨a, ha, hle, hr⟩ := h.driven prev hclock
    have hgap : current - prev ≤ maxGapFill := hcap _ hadv
    refine ⟨fun hp => (Option.some_ne_none _ (hclock'.symm.trans hp)).elim, fun p hp => ?_⟩
    obtain rfl : current = p := Option.some.inj (hclock'.symm.trans hp)
    refine ⟨a, anchorOf_append_of_some ha c, by omega, ?_⟩
    rw [rowsOf_append, if_pos hc, List.map_append, hr, tsUs_newRows hadv, ← List.map_append]
    -- the rows up to the old clock, then those up to the new one
    have hfill : fillCount prev current = current - prev := min_eq_left hgap
    have hsplit : current - a = (prev - a) + (current - prev) := by omega
    have hnext : prev + 1 = a + 1 + (prev - a) := by omega
    rw [hfill, hsplit, hnext, List.range'_append_1]

/-- Every clock of a run is on its grid, where no advance is capped. -/
theorem onGrid (key : String) {calls : List Call} (hcap : (Ledger.start cfg.start).Uncapped calls) :
    OnGrid cfg key calls := by
  induction calls using List.reverseRecOn with
  | nil =>
    have hclock : cfg.clock key [] = none := by
      unfold clock MarketSynchronizer.clock
      split <;> rfl
    refine ⟨fun _ => ⟨rfl, rfl⟩, fun p hp => ?_⟩
    rw [hclock] at hp
    cases hp
  | append_singleton calls c ih =>
    rw [Ledger.uncapped_append] at hcap
    exact (ih hcap.1).append hcap.2.1

/-- In a global-clock mode every row is a row of the one clock. -/
theorem rowsOf_eq_emitted (hm : cfg.clockMode ≠ ClockMode.orderbookDriven) (calls : List Call) :
    cfg.rowsOf key calls = (cfg.run calls).emitted := by
  induction calls using List.reverseRecOn with
  | nil => rfl
  | append_singleton calls c ih =>
    rw [rowsOf_append, emitted_append, ih]
    by_cases hc : c.OnSymbol key
    · rw [if_pos hc]
    · rw [if_neg hc, newRows_of_none (advance_of_clockTs_eq_none ?_)]
      rw [(cfg.run_config calls).2.2.2]
      cases c with
      | onOrderbook pair tsUs b => exact if_neg hm
      | _ => exact absurd trivial hc

/-- Every emitted row is a row of some clock. -/
theorem exists_mem_rowsOf {calls : List Call} {r : MarketSnapshot}
    (hr : r ∈ (cfg.run calls).emitted) : ∃ key, r ∈ cfg.rowsOf key calls := by
  induction calls using List.reverseRecOn with
  | nil => cases hr
  | append_singleton calls c ih =>
    have hsym : ∃ key, c.OnSymbol key := by
      cases c with
      | onOrderbook pair tsUs b => exact ⟨pair.toCanonical, rfl⟩
      | _ => exact ⟨"", trivial⟩
    rw [emitted_append] at hr
    rcases List.mem_append.mp hr with hr | hr
    · obtain ⟨key, hkey⟩ := ih hr
      refine ⟨key, ?_⟩
      rw [rowsOf_append]
      exact List.mem_append_left _ hkey
    · obtain ⟨key, hkey⟩ := hsym
      refine ⟨key, ?_⟩
      rw [rowsOf_append, if_pos hkey]
      exact List.mem_append_right _ hr

/-- The counter counts the rows emitted, drained or buffered. -/
theorem totalCaptured_run (calls : List Call) :
    (cfg.run calls).sync.totalCaptured = (cfg.run calls).emitted.length := by
  induction calls using List.reverseRecOn with
  | nil => rfl
  | append_singleton calls c ih =>
    rw [emitted_append, run_append_singleton, List.length_append, ← ih]
    exact totalCaptured_call (cfg.run_config calls).1 c

/-- **The shape of the grid.** After any sequence of calls of any clock mode,
drains among them, in which no advance is capped: the rows of a clock are
the consecutive multiples of the period from the one after its anchor, the
terminal row `finalize` pushes for it is the next, and a clock that was never
driven has neither. The rows of the one clock of a global mode are all the
rows, and every row is a row of some clock. At every moment, the calls after
`finalize` included, the counter is the number of rows ever pushed. -/
theorem grid_shape {calls : List Call} (hcap : (Ledger.start cfg.start).Uncapped calls)
    (post : List Call) :
    (∀ key a, cfg.anchorOf key calls = some a → ∃ n,
        (cfg.rowsOf key calls).map MarketSnapshot.tsUs
          = (List.range' (a + 1) n).map (· * cfg.periodUs) ∧
        (cfg.rowsOf key calls ++ (cfg.run calls).sync.terminalRowsOf key).map MarketSnapshot.tsUs
          = (List.range' (a + 1) (n + 1)).map (· * cfg.periodUs)) ∧
      (∀ key, cfg.anchorOf key calls = none →
        cfg.rowsOf key calls ++ (cfg.run calls).sync.terminalRowsOf key = []) ∧
      (cfg.clockMode ≠ ClockMode.orderbookDriven →
        ∀ key, cfg.rowsOf key calls = (cfg.run calls).emitted) ∧
      (∀ r ∈ (cfg.run calls).emitted, ∃ key, r ∈ cfg.rowsOf key calls) ∧
      (cfg.run calls).sync.totalCaptured = (cfg.run calls).emitted.length ∧
      ((cfg.run calls).finalize.run post).emitted
        = (cfg.run calls).emitted ++ (cfg.run calls).sync.terminalRows ∧
      ((cfg.run calls).finalize.run post).sync.totalCaptured
        = ((cfg.run calls).finalize.run post).emitted.length := by
  obtain ⟨hopen, hperiod, -, -⟩ := cfg.run_config calls
  obtain ⟨hbuffer, htotal, hclosed⟩ := finalize_captured hopen
  obtain ⟨hpost, hpost'⟩ := Ledger.run_of_closed (l := (cfg.run calls).finalize) hclosed post
  have hemitted : (cfg.run calls).finalize.emitted
      = (cfg.run calls).emitted ++ (cfg.run calls).sync.terminalRows := by
    show (cfg.run calls).taken ++ (cfg.run calls).sync.finalize.buffer = _
    rw [hbuffer, ← List.append_assoc]
    rfl
  refine ⟨fun key a ha => ?_, fun key ha => ?_, fun hm key => rowsOf_eq_emitted hm calls,
    fun r hr => exists_mem_rowsOf hr, totalCaptured_run calls, hpost.trans hemitted, ?_⟩
  · have hgrid := onGrid key hcap
    cases hclock : cfg.clock key calls with
    | none =>
      rw [(hgrid.undriven hclock).1] at ha
      cases ha
    | some p =>
      obtain ⟨a', ha', hle, hrows⟩ := hgrid.driven p hclock
      obtain rfl : a' = a := Option.some.inj (ha'.symm.trans ha)
      refine ⟨p - a', hrows, ?_⟩
      rw [List.map_append, hrows, tsUs_terminalRowsOf hopen, List.range'_concat, List.map_append,
        hperiod]
      unfold clock at hclock
      rw [hclock]
      have hnext : p + 1 = a' + 1 + 1 * (p - a') := by omega
      rw [← hnext]
      rfl
  · have hgrid := onGrid key hcap
    cases hclock : cfg.clock key calls with
    | none =>
      rw [(hgrid.undriven hclock).2, List.nil_append]
      refine List.map_eq_nil_iff.mp ((tsUs_terminalRowsOf hopen key).trans ?_)
      unfold clock at hclock
      rw [hclock]
      rfl
    | some p =>
      obtain ⟨a', ha', -⟩ := hgrid.driven p hclock
      rw [ha'] at ha
      cases ha
  · rw [hpost', hpost, hemitted, List.length_append, ← totalCaptured_run]
    exact htotal

/-- A second sample pair. -/
def ethUsdt : TradingPair := ⟨"ETH", "USDT"⟩

/-- Two symbols whose clocks are driven in turn, with a drain and a book that
goes back in time. -/
def twoSymbols : List Call :=
  [.onOrderbook btcUsdt 5 (bookAt 5), .onOrderbook ethUsdt 31 (bookAt 31),
    .onOrderbook btcUsdt 25 (bookAt 25), .drain, .onOrderbook btcUsdt 12 (bookAt 12),
    .onOrderbook ethUsdt 47 (bookAt 47), .onOrderbook btcUsdt 44 (bookAt 44)]

/-- The rows of the first of the two symbols: 10 to 40 while it runs, and 50
at the close. -/
theorem grid_shape_two_symbols :
    (Ledger.start (tenMicros .orderbookDriven 0).start).Uncapped twoSymbols ∧
      ∃ n, ((tenMicros .orderbookDriven 0).rowsOf btcUsdt.toCanonical twoSymbols
          ++ ((tenMicros .orderbookDriven 0).run twoSymbols).sync.terminalRowsOf
            btcUsdt.toCanonical).map MarketSnapshot.tsUs
        = (List.range' 1 (n + 1)).map (· * 10) := by
  have hcap : (Ledger.start (tenMicros .orderbookDriven 0).start).Uncapped twoSymbols := by decide
  obtain ⟨n, -, hrows⟩ := (grid_shape hcap []).1 btcUsdt.toCanonical 0 (by decide)
  exact ⟨hcap, n, hrows⟩

end SyncConfig

end Runs
