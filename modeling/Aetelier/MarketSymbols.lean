import Aetelier.MarketGrid
import Aetelier.MarketBooks

/-!
# One symbol among several

An `orderbookDriven` synchronizer keeps a clock and a book history per
symbol, but prunes all histories at once, at the last row of the symbol that
advanced. For another symbol this is harmless when the entry it keeps is at
or below that symbol's own clock, or is its oldest entry – and only then
(`lookups_pruneHistory_iff`): otherwise a row that symbol has not emitted yet
has lost its book. Along every run in which each advance spares a symbol in
this sense, the rows of that symbol embed the books a synchronizer fed only
its books would embed (`SyncConfig.rowsOf_alone`). Without a hold-back window
every run does (`SyncConfig.spares_of_no_delay`).
-/

namespace MarketSynchronizer

variable {key : String} {s : MarketSynchronizer} {c : Call}

/-- A book of a symbol. -/
def Call.IsBookOf (key : String) : Call → Bool
  | onOrderbook pair _ _ => pair.toCanonical = key
  | _ => false

theorem Call.onSymbol_book (pair : TradingPair) (tsUs : ℕ) (b : Orderbook) :
    (Call.onOrderbook pair tsUs b).OnSymbol pair.toCanonical := rfl

/-- **An advance that spares a symbol**: it is the symbol's own, or the entry
of the symbol's history that the pruning keeps is at or below its clock, or
it is the oldest. -/
def Spares (s : MarketSynchronizer) (key : String) (c : Call) : Prop :=
  c.OnSymbol key ∨ ∀ a ∈ s.advance c, ∀ q ∈ s.lastPeriod.get? key,
    ∀ keep ∈ (s.history key).below? (a.1 + fillCount a.1 a.2),
      keep.1 ≤ q ∨ ∀ e ∈ (s.history key).entries, keep.1 ≤ e.1

instance (s : MarketSynchronizer) (key : String) (c : Call) : Decidable (s.Spares key c) := by
  unfold Spares
  infer_instance

/-! ## Pruning at another symbol's row -/

/-- **What pruning changes.** No lookup past a clock changes exactly when the
entry kept is at or below the clock or is the oldest. -/
theorem lookups_pruneHistory_iff {m : BookHistory} {lastRow : ℕ} {keep : ℕ × Orderbook}
    (hkeep : m.below? lastRow = some keep) (q : ℕ) :
    (∀ row, q < row → (pruneHistory lastRow m).below? row = m.below? row) ↔
      keep.1 ≤ q ∨ ∀ e ∈ m.entries, keep.1 ≤ e.1 := by
  have hprune : pruneHistory lastRow m = m.retain (fun k => decide (keep.1 ≤ k)) := by
    unfold pruneHistory
    rw [hkeep]
  obtain ⟨hmem, -, -⟩ := OrdMap.below?_eq_some_iff.mp hkeep
  rw [hprune]
  constructor
  · intro h
    by_contra hdrop
    rw [not_or] at hdrop
    push Not at hdrop
    obtain ⟨hq, e, he, hlt⟩ := hdrop
    -- the row of the kept entry has lost the entry before it
    have hrow := h keep.1 hq
    have hnone : (m.retain (fun k => decide (keep.1 ≤ k))).below? keep.1 = none := by
      refine OrdMap.below?_eq_none_iff.mpr (fun x hx => ?_)
      exact not_lt.mpr (of_decide_eq_true (List.mem_filter.mp hx).2)
    rw [hnone] at hrow
    exact OrdMap.below?_eq_none_iff.mp hrow.symm e he hlt
  · rintro (hq | hold) row hrow
    · have hself : m.below? (keep.1 + 1) = some keep :=
        OrdMap.below?_eq_some_iff.mpr
          ⟨hmem, Nat.lt_succ_self _, fun x _ hx => Nat.lt_succ_iff.mp hx⟩
      exact OrdMap.below?_retain hself (by omega)
    · have hall : m.retain (fun k => decide (keep.1 ≤ k)) = m := by
        refine OrdMap.ext (List.filter_eq_self.mpr (fun e he => ?_))
        exact decide_eq_true (hold e he)
      rw [hall]

/-- The history of a symbol after a call of another: pruned if that call
advanced. -/
theorem history_call_of_not_onSymbol (hs : s.finalized = false) (hc : ¬ c.OnSymbol key) :
    (s.advance c = none → (s.call c).1.history key = s.history key) ∧
      ∀ prev current, s.advance c = some (prev, current) →
        (s.call c).1.history key
          = pruneHistory (prev + fillCount prev current) (s.history key) := by
  cases c with
  | onOrderbook pair tsUs b =>
    have hne : key ≠ pair.toCanonical := fun h => hc h.symm
    have hcall : (s.call (.onOrderbook pair tsUs b)).1.history key
        = (s.emitAdvance (.onOrderbook pair tsUs b)).history key := by
      rw [call_eq hs]
      unfold history
      show ((HashMap.insert _ _ _).get? key).getD _ = _
      rw [HashMap.get?_insert, if_neg hne, books_moveClock]
      rfl
    rw [hcall]
    unfold emitAdvance
    refine ⟨fun h => by rw [h], fun prev current h => ?_⟩
    rw [h]
    show ((s.books.mapValues (fun _ m => pruneHistory (prev + fillCount prev current) m)).get?
      key).getD OrdMap.empty = _
    rw [HashMap.get?_mapValues]
    unfold history
    cases s.books.get? key with
    | none => rfl
    | some m => rfl
  | _ => exact absurd trivial hc

/-- **A call that spares a symbol changes no book a later row of it embeds.** -/
theorem Spares.lookups (h : s.Spares key c) (hs : s.finalized = false) (hc : ¬ c.OnSymbol key)
    (huntracked : s.lastPeriod.get? key = none → s.history key = OrdMap.empty) {row : ℕ}
    (hrow : ∀ p ∈ s.lastPeriod.get? key, p < row) :
    ((s.call c).1.history key).below? row = (s.history key).below? row := by
  obtain ⟨hquiet, hprune⟩ := history_call_of_not_onSymbol hs hc
  cases ha : s.advance c with
  | none => rw [hquiet ha]
  | some a =>
    obtain ⟨prev, current⟩ := a
    rw [hprune prev current ha]
    cases hkeep : (s.history key).below? (prev + fillCount prev current) with
    | none =>
      unfold pruneHistory
      rw [hkeep]
    | some keep =>
      cases hq : s.lastPeriod.get? key with
      | none =>
        rw [huntracked hq, OrdMap.below?_empty] at hkeep
        cases hkeep
      | some q =>
        have hspare := (h.resolve_left hc) _ ha q hq keep hkeep
        exact (lookups_pruneHistory_iff hkeep q).mpr hspare row (hrow q hq)

/-- Emitting rows adds nothing to a history. -/
theorem mem_history_emitAdvance_feed {e : ℕ × Orderbook}
    (he : e ∈ (((s.feed c).emitAdvance c).history key).entries) : e ∈ (s.history key).entries := by
  have hbooks : (s.feed c).books = s.books := by cases c <;> rfl
  unfold emitAdvance at he
  rw [advance_feed] at he
  cases ha : s.advance c with
  | none =>
    rw [ha] at he
    unfold history at he
    rwa [hbooks] at he
  | some a =>
    rw [ha] at he
    have he' : e ∈ ((((s.feed c).books.mapValues
        (fun _ m => pruneHistory (a.1 + fillCount a.1 a.2) m)).get? key).getD
          OrdMap.empty).entries :=
      he
    rw [hbooks, HashMap.get?_mapValues] at he'
    unfold history
    cases hm : s.books.get? key with
    | none =>
      rw [hm] at he'
      exact he'
    | some m =>
      rw [hm] at he'
      have hprune : e ∈ (pruneHistory (a.1 + fillCount a.1 a.2) m).entries := he'
      unfold pruneHistory at hprune
      split at hprune
      · exact (List.mem_filter.mp hprune).1
      · exact hprune

/-- **What a call adds to a history**: the book it feeds, under its own
period. -/
theorem mem_history_call (hs : s.finalized = false) {e : ℕ × Orderbook}
    (he : e ∈ ((s.call c).1.history key).entries) :
    e ∈ (s.history key).entries ∨
      ∃ pair tsUs b, c = .onOrderbook pair tsUs b ∧ pair.toCanonical = key ∧
        e.1 = tsUs / s.periodUs := by
  have hbase : ∀ {e}, e ∈ ((((s.feed c).emitAdvance c).moveClock c).history key).entries →
      e ∈ (s.history key).entries := by
    intro e he
    unfold history at he
    rw [books_moveClock] at he
    exact mem_history_emitAdvance_feed he
  rw [call_eq hs] at he
  cases c with
  | onOrderbook pair tsUs b =>
    have he' : e
        ∈ ((MarketSynchronizer.recordBook _ pair.toCanonical tsUs b).history key).entries :=
      he
    by_cases hsym : pair.toCanonical = key
    · rw [← hsym, history_recordBook, periodUs_moveClock, periodUs_emitAdvance_feed] at he'
      rcases OrdMap.mem_insertEntries (OrdMap.sorted _) he' with ⟨hk, -⟩ | ⟨hm, -⟩
      · exact Or.inr ⟨pair, tsUs, b, rfl, hsym, hk⟩
      · exact Or.inl (hbase (hsym ▸ hm))
    · refine Or.inl (hbase ?_)
      unfold history recordBook at he'
      rw [HashMap.get?_insert, if_neg (fun h => hsym h.symm)] at he'
      exact he'
  | _ => exact Or.inl (hbase he)

end MarketSynchronizer

/-! ## Over a run -/

section Runs

open MarketSynchronizer

/-- Every call of a run spares a symbol, in the state it is made in. -/
def Ledger.Spares (key : String) (l : Ledger) : List Call → Prop
  | [] => True
  | c :: calls => l.sync.Spares key c ∧ (l.call c).Spares key calls

instance Ledger.decidableSpares (key : String) (l : Ledger) :
    ∀ calls, Decidable (l.Spares key calls)
  | [] => isTrue trivial
  | c :: calls =>
    have := (l.call c).decidableSpares key calls
    inferInstanceAs (Decidable (l.sync.Spares key c ∧ (l.call c).Spares key calls))

theorem Ledger.spares_append_singleton {key : String} {l : Ledger} {calls : List Call} {c : Call} :
    l.Spares key (calls ++ [c]) ↔ l.Spares key calls ∧ (l.run calls).sync.Spares key c := by
  induction calls generalizing l with
  | nil => exact and_comm
  | cons c' calls ih =>
    show l.sync.Spares key c' ∧ (l.call c').Spares key (calls ++ [c]) ↔ _
    rw [ih, ← and_assoc]
    rfl

namespace SyncConfig

variable {cfg : SyncConfig} {key : String}

/-- The books of one symbol in a run. -/
def booksOf (key : String) (calls : List Call) : List Call := calls.filter (·.IsBookOf key)

theorem booksOf_append_of_book (calls : List Call) {c : Call} (hc : c.IsBookOf key = true) :
    booksOf key (calls ++ [c]) = booksOf key calls ++ [c] := by
  unfold booksOf
  rw [List.filter_append, List.filter_cons_of_pos hc, List.filter_nil]

theorem booksOf_append_of_other (calls : List Call) {c : Call} (hc : c.IsBookOf key = false) :
    booksOf key (calls ++ [c]) = booksOf key calls := by
  unfold booksOf
  rw [List.filter_append, List.filter_cons_of_neg (by rw [hc]; exact Bool.false_ne_true),
    List.filter_nil, List.append_nil]

/-- **The run of a symbol among others, and its run alone**: the same clock,
and past that clock the same books. -/
structure AsAlone (cfg : SyncConfig) (key : String) (calls : List Call) : Prop where
  /-- The clocks agree. -/
  clock : cfg.clock key calls = cfg.clock key (booksOf key calls)
  /-- A symbol without a clock has no history. -/
  untracked : cfg.clock key calls = none → (cfg.run calls).sync.history key = OrdMap.empty
  /-- The lookups past the clock agree. -/
  lookups : ∀ row, (∀ p ∈ cfg.clock key calls, p < row) →
    ((cfg.run calls).sync.history key).below? row
      = ((cfg.run (booksOf key calls)).sync.history key).below? row

theorem clock_eq_lastPeriod (hm : cfg.clockMode = ClockMode.orderbookDriven) (key : String)
    (calls : List Call) : cfg.clock key calls = (cfg.run calls).sync.lastPeriod.get? key := by
  unfold clock MarketSynchronizer.clock
  rw [(cfg.run_config calls).2.2.2, if_pos hm]

/-- A call that is no book of the symbol leaves its clock where it is. -/
theorem clock_append_of_not_isBookOf (hm : cfg.clockMode = ClockMode.orderbookDriven)
    (calls : List Call) {c : Call} (hc : c.IsBookOf key = false) :
    cfg.clock key (calls ++ [c]) = cfg.clock key calls := by
  obtain ⟨hopen, -, -, hmode⟩ := cfg.run_config calls
  unfold clock
  rw [run_append_singleton]
  show ((cfg.run calls).sync.call c).1.clock key = _
  cases c with
  | onOrderbook pair tsUs b =>
    exact clock_call_of_not_onSymbol hopen (of_decide_eq_false hc)
  | _ =>
    refine clock_call_of_none hopen ?_
    rw [hmode, hm]
    rfl

/-- A book of the symbol moves its clock to the period it reaches. -/
theorem clock_append_book (hm : cfg.clockMode = ClockMode.orderbookDriven) (pair : TradingPair)
    (tsUs : ℕ) (b : Orderbook) (calls : List Call) :
    cfg.clock pair.toCanonical (calls ++ [.onOrderbook pair tsUs b])
      = some (max ((cfg.clock pair.toCanonical calls).getD 0) (cfg.periodAt tsUs)) := by
  obtain ⟨hopen, -, -, hmode⟩ := cfg.run_config calls
  have hts : Call.clockTs (cfg.run calls).sync.clockMode (.onOrderbook pair tsUs b)
      = some tsUs := by
    rw [hmode, hm]
    rfl
  unfold clock
  rw [run_append_singleton]
  show ((cfg.run calls).sync.call _).1.clock _ = _
  rw [clock_call_of_some hopen (Call.onSymbol_book pair tsUs b) hts, periodAt_run]

/-- The rows a call emits for a symbol, by label and book, depend on its clock
and its lookups only. -/
theorem books_newRows {pair : TradingPair} {tsUs : ℕ} {b : Orderbook} {calls calls' : List Call}
    (hclock : cfg.clock pair.toCanonical calls = cfg.clock pair.toCanonical calls')
    (hlookups : ∀ row, (∀ p ∈ cfg.clock pair.toCanonical calls, p < row) →
      ((cfg.run calls).sync.history pair.toCanonical).below? row
        = ((cfg.run calls').sync.history pair.toCanonical).below? row) :
    ((cfg.run calls).sync.newRows (.onOrderbook pair tsUs b)).map
        (fun r => (r.tsUs, r.orderbook))
      = ((cfg.run calls').sync.newRows (.onOrderbook pair tsUs b)).map
        (fun r => (r.tsUs, r.orderbook)) := by
  obtain ⟨-, hperiod, hdelay, hmode⟩ := cfg.run_config calls
  obtain ⟨-, hperiod', hdelay', hmode'⟩ := cfg.run_config calls'
  have hadvance : (cfg.run calls).sync.advance (.onOrderbook pair tsUs b)
      = (cfg.run calls').sync.advance (.onOrderbook pair tsUs b) := by
    refine Option.ext (fun a => ?_)
    obtain ⟨prev, current⟩ := a
    rw [advance_eq_some_iff (Call.onSymbol_book pair tsUs b),
      advance_eq_some_iff (Call.onSymbol_book pair tsUs b), hmode, hmode', periodAt_run,
      periodAt_run]
    show (∃ ts, _ ∧ cfg.clock pair.toCanonical calls = some prev ∧ _)
      ↔ ∃ ts, _ ∧ cfg.clock pair.toCanonical calls' = some prev ∧ _
    rw [hclock]
  unfold newRows
  rw [← hadvance]
  cases ha : (cfg.run calls).sync.advance (.onOrderbook pair tsUs b) with
  | none => rfl
  | some a =>
    obtain ⟨prev, current⟩ := a
    simp only [List.map_map]
    refine List.map_congr_left (fun p hp => ?_)
    obtain ⟨hprev, -, -⟩ := clock_append_of_some (Call.onSymbol_book pair tsUs b) ha
    have hpast : ∀ q ∈ cfg.clock pair.toCanonical calls, q < p := by
      intro q hq
      rw [hprev] at hq
      cases hq
      rw [List.mem_range'_1] at hp
      omega
    show (p * _, (cfg.run calls).sync.asOfBook pair.toCanonical p)
      = (p * _, (cfg.run calls').sync.asOfBook pair.toCanonical p)
    rw [asOfBook_eq, asOfBook_eq, hlookups p hpast, hperiod, hperiod']

/-- A book of the symbol keeps the two runs together. -/
theorem AsAlone.append_book (hm : cfg.clockMode = ClockMode.orderbookDriven) {calls : List Call}
    (h : AsAlone cfg key calls) {c : Call} (hc : c.IsBookOf key = true) :
    AsAlone cfg key (calls ++ [c]) := by
  have hbooks := booksOf_append_of_book calls hc
  cases c with
  | onOrderbook pair tsUs b =>
    obtain rfl : pair.toCanonical = key := of_decide_eq_true hc
    obtain ⟨hopen, hperiod, -, hmode⟩ := cfg.run_config calls
    obtain ⟨hopen', hperiod', -, hmode'⟩ := cfg.run_config (booksOf pair.toCanonical calls)
    have hclock := clock_append_book hm pair tsUs b
    refine ⟨?_, fun hnone => ?_, fun row hrow => ?_⟩
    · rw [hbooks, hclock, hclock, h.clock]
    · rw [hclock] at hnone
      cases hnone
    · have hpast : ∀ p ∈ cfg.clock pair.toCanonical calls, p < row := by
        intro p hp
        have hle := hrow _ (hclock calls)
        rw [hp, Option.getD_some] at hle
        exact lt_of_le_of_lt (le_max_left _ _) hle
      have hpast' : ∀ l, cfg.clock pair.toCanonical calls = cfg.clock pair.toCanonical l →
          ∀ prev current, (cfg.run l).sync.advance (.onOrderbook pair tsUs b)
            = some (prev, current) → current ≤ row := by
        intro l hl prev current ha
        have hcurrent := (clock_append_of_some (Call.onSymbol_book pair tsUs b) ha).2.1
        rw [hclock, ← hl, ← hclock] at hcurrent
        exact (hrow current hcurrent).le
      rw [hbooks, run_append_singleton, run_append_singleton]
      show (((cfg.run calls).sync.call _).1.history _).below? row
        = (((cfg.run (booksOf pair.toCanonical calls)).sync.call _).1.history _).below? row
      rw [history_call hopen (Call.onSymbol_book pair tsUs b) (hpast' calls rfl),
        history_call hopen' (Call.onSymbol_book pair tsUs b) (hpast' _ h.clock),
        h.lookups row hpast, hperiod, hperiod']
  | _ => cases hc

/-- A call that is no book of the symbol keeps the two runs together, if it
spares the symbol. -/
theorem AsAlone.append_other (hm : cfg.clockMode = ClockMode.orderbookDriven) {calls : List Call}
    (h : AsAlone cfg key calls) {c : Call} (hc : c.IsBookOf key = false)
    (hspare : (cfg.run calls).sync.Spares key c) : AsAlone cfg key (calls ++ [c]) := by
  have hbooks := booksOf_append_of_other calls hc
  obtain ⟨hopen, -, -, hmode⟩ := cfg.run_config calls
  have hclock := clock_append_of_not_isBookOf hm calls hc
  have hlast := clock_eq_lastPeriod hm key calls
  have hhistory : ∀ row, (∀ p ∈ cfg.clock key calls, p < row) →
      ((cfg.run (calls ++ [c])).sync.history key).below? row
        = ((cfg.run calls).sync.history key).below? row := by
    intro row hrow
    rw [run_append_singleton]
    show (((cfg.run calls).sync.call c).1.history key).below? row = _
    by_cases hsym : c.OnSymbol key
    · -- not a book, so it drives no clock and records nothing
      cases c with
      | onOrderbook pair tsUs b => exact absurd hsym (of_decide_eq_false hc)
      | _ =>
        refine (history_call hopen hsym (fun prev current ha => ?_)).trans rfl
        obtain ⟨ts, hts, -⟩ := (advance_eq_some_iff hsym).mp ha
        rw [hmode, hm] at hts
        cases hts
    · rw [hlast] at hrow
      exact hspare.lookups hopen hsym (fun hq => h.untracked (hlast.trans hq)) hrow
  refine ⟨by rw [hbooks, hclock]; exact h.clock, fun hnone => ?_, fun row hrow => ?_⟩
  · rw [hclock] at hnone
    refine OrdMap.ext (List.eq_nil_iff_forall_not_mem.mpr (fun e he => ?_))
    have hrow := hhistory (e.1 + 1) (fun p hp => by rw [hnone] at hp; cases hp)
    rw [h.untracked hnone, OrdMap.below?_empty] at hrow
    exact OrdMap.below?_eq_none_iff.mp hrow e he (Nat.lt_succ_self _)
  · rw [hclock] at hrow
    rw [hbooks, hhistory row hrow]
    exact h.lookups row hrow

/-- A run that spares a symbol is, for that symbol, its run alone. -/
theorem asAlone (hm : cfg.clockMode = ClockMode.orderbookDriven) {calls : List Call}
    (hspare : (Ledger.start cfg.start).Spares key calls) : AsAlone cfg key calls := by
  induction calls using List.reverseRecOn with
  | nil => exact ⟨rfl, fun _ => rfl, fun _ _ => rfl⟩
  | append_singleton calls c ih =>
    rw [Ledger.spares_append_singleton] at hspare
    cases hc : c.IsBookOf key with
    | true => exact (ih hspare.1).append_book hm hc
    | false => exact (ih hspare.1).append_other hm hc hspare.2

/-- **A symbol among others embeds the books it would embed alone.** In every
run of an `orderbookDriven` synchronizer, with any hold-back window and any
interleaving of symbols, whose advances all spare a symbol, the rows emitted
for that symbol have the labels and the books of the rows that a synchronizer
fed only the books of the symbol emits. -/
theorem rowsOf_alone (hm : cfg.clockMode = ClockMode.orderbookDriven) (key : String)
    {calls : List Call} (hspare : (Ledger.start cfg.start).Spares key calls) :
    (cfg.rowsOf key calls).map (fun r => (r.tsUs, r.orderbook))
      = (cfg.run (booksOf key calls)).emitted.map (fun r => (r.tsUs, r.orderbook)) := by
  induction calls using List.reverseRecOn with
  | nil => rfl
  | append_singleton calls c ih =>
    rw [Ledger.spares_append_singleton] at hspare
    have halone := asAlone hm hspare.1
    rw [rowsOf_append, List.map_append, ih hspare.1]
    cases c with
    | onOrderbook pair tsUs b =>
      by_cases hsym : pair.toCanonical = key
      · subst hsym
        have hbook : (Call.onOrderbook pair tsUs b).IsBookOf pair.toCanonical = true :=
          decide_eq_true rfl
        rw [if_pos (Call.onSymbol_book pair tsUs b), booksOf_append_of_book _ hbook,
          emitted_append, List.map_append, books_newRows halone.clock halone.lookups]
      · have hother : ¬ (Call.onOrderbook pair tsUs b).OnSymbol key := hsym
        have hbook : (Call.onOrderbook pair tsUs b).IsBookOf key = false := decide_eq_false hsym
        rw [if_neg hother, booksOf_append_of_other _ hbook]
        exact List.append_nil _
    | _ =>
      -- nothing but a book drives this mode's clocks
      rw [newRows_of_none
          (advance_of_clockTs_eq_none (by rw [(cfg.run_config calls).2.2.2, hm]; rfl)),
        ite_self, booksOf_append_of_other _ rfl]
      exact List.append_nil _

/-- Without a hold-back window no book is past its symbol's clock. -/
theorem history_le_clock (hm : cfg.clockMode = ClockMode.orderbookDriven)
    (hdelay : cfg.emissionDelayUs = 0) (key : String) (calls : List Call) :
    ∀ e ∈ ((cfg.run calls).sync.history key).entries, ∃ q ∈ cfg.clock key calls, e.1 ≤ q := by
  induction calls using List.reverseRecOn with
  | nil =>
    intro e he
    cases he
  | append_singleton calls c ih =>
    obtain ⟨hopen, hperiod, -, hmode⟩ := cfg.run_config calls
    intro e he
    rw [run_append_singleton] at he
    have hcase := mem_history_call hopen he
    by_cases hbook : c.IsBookOf key = true
    · cases c with
      | onOrderbook pair tsUs b =>
        obtain rfl : pair.toCanonical = key := of_decide_eq_true hbook
        refine ⟨_, clock_append_book hm pair tsUs b calls, ?_⟩
        rcases hcase with he | ⟨pair', tsUs', b', hc, -, hperiods⟩
        · obtain ⟨q, hq, hle⟩ := ih e he
          rw [hq, Option.getD_some]
          exact hle.trans (le_max_left _ _)
        · cases hc
          rw [hperiods, hperiod]
          unfold periodAt
          rw [hdelay, Nat.sub_zero]
          exact le_max_right _ _
      | _ => cases hbook
    · rw [Bool.not_eq_true] at hbook
      rw [clock_append_of_not_isBookOf hm _ hbook]
      rcases hcase with he | ⟨pair, tsUs, b, rfl, hsym, -⟩
      · exact ih e he
      · exact absurd hsym (of_decide_eq_false hbook)

/-- **Without a hold-back window every run spares every symbol.** -/
theorem spares_of_no_delay (hm : cfg.clockMode = ClockMode.orderbookDriven)
    (hdelay : cfg.emissionDelayUs = 0) (key : String) (calls : List Call) :
    (Ledger.start cfg.start).Spares key calls := by
  induction calls using List.reverseRecOn with
  | nil => trivial
  | append_singleton calls c ih =>
    refine Ledger.spares_append_singleton.mpr ⟨ih, Or.inr (fun a _ q hq keep hkeep => Or.inl ?_)⟩
    obtain ⟨hmem, -, -⟩ := OrdMap.below?_eq_some_iff.mp hkeep
    obtain ⟨q', hq', hle⟩ := history_le_clock hm hdelay key calls keep hmem
    rw [clock_eq_lastPeriod hm] at hq'
    cases hq.symm.trans hq'
    exact hle

/-- Two symbols with a window of two periods: the first advances to row 98
while the second, which has books of periods 0 and 1, stands at period 0. -/
def fastAndSlow : List Call :=
  [.onOrderbook ethUsdt 5 (bookAt 5), .onOrderbook ethUsdt 15 (bookAt 15),
    .onOrderbook ethUsdt 25 (bookAt 25), .onOrderbook btcUsdt 5 (bookAt 5),
    .onOrderbook btcUsdt 1000 (bookAt 1000), .onOrderbook ethUsdt 45 (bookAt 45)]

/-- **The slow symbol loses the books of the rows it has not emitted.** Alone
it embeds the book at 5 in row 10 and the book at 15 in row 20; next to a
fast symbol it embeds none. -/
theorem rowsOf_fast_and_slow :
    ((tenMicros .orderbookDriven 20).rowsOf ethUsdt.toCanonical fastAndSlow).map
        (fun r => (r.tsUs, r.orderbook))
      ≠ ((tenMicros .orderbookDriven 20).run
          (booksOf ethUsdt.toCanonical fastAndSlow)).emitted.map
        (fun r => (r.tsUs, r.orderbook)) := by
  intro h
  have hts := congrArg (List.map (fun x => x.2.map Orderbook.sourceOrderbookTsUs)) h
  revert hts
  decide

/-- Two symbols that advance together spare each other. -/
theorem rowsOf_alone_in_step :
    ((tenMicros .orderbookDriven 20).rowsOf ethUsdt.toCanonical
        [.onOrderbook ethUsdt 5 (bookAt 5), .onOrderbook btcUsdt 5 (bookAt 5),
          .onOrderbook ethUsdt 31 (bookAt 31), .onOrderbook btcUsdt 31 (bookAt 31),
          .onOrderbook ethUsdt 45 (bookAt 45), .onOrderbook btcUsdt 44 (bookAt 44)]).map
        (fun r => (r.tsUs, r.orderbook))
      = ((tenMicros .orderbookDriven 20).run
          [.onOrderbook ethUsdt 5 (bookAt 5), .onOrderbook ethUsdt 31 (bookAt 31),
            .onOrderbook ethUsdt 45 (bookAt 45)]).emitted.map (fun r => (r.tsUs, r.orderbook)) :=
  rowsOf_alone rfl ethUsdt.toCanonical (by decide)

end SyncConfig

end Runs
