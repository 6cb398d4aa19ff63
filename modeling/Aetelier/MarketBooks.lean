import Aetelier.MarketClock

/-!
# The book of a row

A row embeds the book as of its closing boundary: the last book of the
greatest grid period strictly below the row. The synchronizer keeps a
history per symbol for that lookup and prunes it after each emission, below
the entry the last emitted row used. Later rows are larger, so a pruned
entry is never looked up again; books may arrive in any order of timestamps,
and each enters the history under its own period.

`referenceBook` is the lookup over everything ever recorded, without
pruning. `SyncConfig.book_of_row` says that every row emitted by a run of
one symbol embeds exactly the reference's book.
-/

open MarketSynchronizer

/-! ## The reference -/

/-- The book a call records, with its timestamp. -/
def MarketSynchronizer.Call.book? : Call → Option (ℕ × Orderbook)
  | onOrderbook _ tsUs snapshot => some (tsUs, snapshot)
  | _ => none

/-- The books recorded by a sequence of calls, in order of arrival. -/
def recordedBooks (calls : List Call) : List (ℕ × Orderbook) := calls.filterMap Call.book?

/-- One more book for the reference: it is taken if its period is below the
row and not below the period of the best book so far. -/
def newerBook (periodUs row : ℕ) (best : Option (ℕ × Orderbook)) (x : ℕ × Orderbook) :
    Option (ℕ × Orderbook) :=
  if x.1 / periodUs < row ∧ ∀ b ∈ best, b.1 / periodUs ≤ x.1 / periodUs then some x else best

/-- **The reference lookup**: among all books, the last to arrive of the
greatest grid period strictly below the row. -/
def referenceBook (periodUs : ℕ) (books : List (ℕ × Orderbook)) (row : ℕ) :
    Option (ℕ × Orderbook) :=
  books.foldl (newerBook periodUs row) none

theorem referenceBook_append_singleton (periodUs : ℕ) (books : List (ℕ × Orderbook)) (row : ℕ)
    (x : ℕ × Orderbook) :
    referenceBook periodUs (books ++ [x]) row
      = newerBook periodUs row (referenceBook periodUs books row) x := by
  unfold referenceBook
  rw [List.foldl_append]
  rfl

/-- **What the reference finds**: nothing if no book is below the row, and
else a book below the row whose period no earlier book below the row exceeds
and no later one reaches. -/
theorem referenceBook_spec (periodUs : ℕ) (books : List (ℕ × Orderbook)) (row : ℕ) :
    match referenceBook periodUs books row with
    | none => ∀ y ∈ books, row ≤ y.1 / periodUs
    | some x => ∃ pre post, books = pre ++ x :: post ∧ x.1 / periodUs < row ∧
        (∀ y ∈ pre, y.1 / periodUs < row → y.1 / periodUs ≤ x.1 / periodUs) ∧
        ∀ y ∈ post, y.1 / periodUs < row → y.1 / periodUs < x.1 / periodUs := by
  induction books using List.reverseRecOn with
  | nil => exact fun y hy => absurd hy List.not_mem_nil
  | append_singleton books x ih =>
    rw [referenceBook_append_singleton]
    unfold newerBook
    cases hb : referenceBook periodUs books row with
    | none =>
      rw [hb] at ih
      by_cases hx : x.1 / periodUs < row
      · rw [if_pos ⟨hx, fun b h => by cases h⟩]
        refine ⟨books, [], rfl, hx, fun y hy hlt => ?_, fun y hy => absurd hy List.not_mem_nil⟩
        exact absurd hlt (not_lt.mpr (ih y hy))
      · rw [if_neg (fun h => hx h.1)]
        intro y hy
        rcases List.mem_append.mp hy with hy | hy
        · exact ih y hy
        · rw [List.mem_singleton.mp hy]
          exact not_lt.mp hx
    | some b =>
      rw [hb] at ih
      obtain ⟨pre, post, rfl, hrow, hpre, hpost⟩ := ih
      by_cases hx : x.1 / periodUs < row ∧ b.1 / periodUs ≤ x.1 / periodUs
      · rw [if_pos ⟨hx.1, fun b' h => by cases h; exact hx.2⟩]
        refine ⟨pre ++ b :: post, [], rfl, hx.1, fun y hy hlt => ?_,
          fun y hy => absurd hy List.not_mem_nil⟩
        rcases List.mem_append.mp hy with hy | hy
        · exact (hpre y hy hlt).trans hx.2
        · rcases List.mem_cons.mp hy with rfl | hy
          · exact hx.2
          · exact (hpost y hy hlt).le.trans hx.2
      · rw [if_neg (fun h => hx ⟨h.1, h.2 b rfl⟩)]
        refine ⟨pre, post ++ [x], by simp, hrow, hpre, fun y hy hlt => ?_⟩
        rcases List.mem_append.mp hy with hy | hy
        · exact hpost y hy hlt
        · rw [List.mem_singleton.mp hy] at hlt ⊢
          exact not_le.mp (fun hle => hx ⟨hlt, hle⟩)

/-! ## The history a call leaves -/

namespace MarketSynchronizer

variable {s : MarketSynchronizer} {c : Call} {key : String}

/-- The history kept for a symbol. -/
def history (s : MarketSynchronizer) (key : String) : BookHistory :=
  (s.books.get? key).getD OrdMap.empty

theorem asOfBook_eq (s : MarketSynchronizer) (key : String) (row : ℕ) :
    s.asOfBook key row = ((s.history key).below? row).map Prod.snd := by
  unfold asOfBook history
  cases s.books.get? key <;> rfl

/-- Pruning changes no lookup past the last emitted row. -/
theorem below?_pruneHistory {lastRow row : ℕ} (h : lastRow ≤ row) (m : BookHistory) :
    (pruneHistory lastRow m).below? row = m.below? row := by
  unfold pruneHistory
  split
  · next keep b hb => exact OrdMap.below?_retain hb h
  · rfl

/-- The history after the rows of a call are emitted. -/
theorem history_emitAdvance_feed (s : MarketSynchronizer) (c : Call) (key : String) {row : ℕ}
    (hrow : ∀ prev current, s.advance c = some (prev, current) → current ≤ row) :
    (((s.feed c).emitAdvance c).history key).below? row = (s.history key).below? row := by
  unfold emitAdvance
  rw [advance_feed]
  cases ha : s.advance c with
  | none => cases c <;> rfl
  | some a =>
    obtain ⟨prev, current⟩ := a
    have hbooks : (s.feed c).books = s.books := by cases c <;> rfl
    show ((((s.feed c).books.mapValues
      (fun _ m => pruneHistory (prev + fillCount prev current) m)).get? key).getD
        OrdMap.empty).below? row = _
    rw [hbooks, HashMap.get?_mapValues]
    unfold history
    cases s.books.get? key with
    | none => rfl
    | some m =>
      refine below?_pruneHistory ?_ m
      have hlt := lt_of_advance ha
      have hle := hrow prev current ha
      unfold fillCount
      omega

theorem books_moveClock (t : MarketSynchronizer) (c : Call) : (t.moveClock c).books = t.books := by
  unfold moveClock
  split
  · rfl
  · split
    · rfl
    · cases c <;> rfl

theorem periodUs_moveClock (t : MarketSynchronizer) (c : Call) :
    (t.moveClock c).periodUs = t.periodUs := by
  unfold moveClock
  split
  · rfl
  · split
    · rfl
    · cases c <;> rfl

theorem periodUs_emitAdvance_feed (s : MarketSynchronizer) (c : Call) :
    ((s.feed c).emitAdvance c).periodUs = s.periodUs := by
  unfold emitAdvance
  split
  · exact periodUs_feed s c
  · exact periodUs_feed s c

theorem history_recordBook (t : MarketSynchronizer) (key : String) (tsUs : ℕ) (b : Orderbook) :
    (t.recordBook key tsUs b).history key = (t.history key).insert (tsUs / t.periodUs) b := by
  unfold history recordBook
  rw [HashMap.get?_insert, if_pos rfl]
  rfl

/-- **The history a call leaves**, as a row past its clock sees it: what was
there, and the book it records. -/
theorem history_call (hs : s.finalized = false) (hc : c.OnSymbol key) {row : ℕ}
    (hrow : ∀ prev current, s.advance c = some (prev, current) → current ≤ row) :
    ((s.call c).1.history key).below? row
      = match c.book? with
        | none => (s.history key).below? row
        | some x => if x.1 / s.periodUs < row ∧
              ∀ e ∈ (s.history key).below? row, e.1 ≤ x.1 / s.periodUs
            then some (x.1 / s.periodUs, x.2) else (s.history key).below? row := by
  have hbase : ((((s.feed c).emitAdvance c).moveClock c).history key).below? row
      = (s.history key).below? row := by
    rw [← history_emitAdvance_feed s c key hrow]
    unfold history
    rw [books_moveClock]
  rw [call_eq hs]
  cases c with
  | onOrderbook pair tsUs b =>
    have hkey : pair.toCanonical = key := hc
    show ((MarketSynchronizer.recordBook _ _ _ _).history key).below? row = _
    rw [hkey, history_recordBook, OrdMap.below?_insert Function.injective_id, hbase,
      periodUs_moveClock, periodUs_emitAdvance_feed]
    rfl
  | _ => exact hbase

/-- A call records under its own symbol only. -/
theorem books_call_key (hs : s.finalized = false) (hc : c.OnSymbol key)
    (hkeys : ∀ k m, s.books.get? k = some m → k = key) :
    ∀ k m, (s.call c).1.books.get? k = some m → k = key := by
  have hbase : ∀ k m, (((s.feed c).emitAdvance c).moveClock c).books.get? k = some m → k = key := by
    intro k m hm
    rw [books_moveClock] at hm
    unfold emitAdvance at hm
    split at hm
    · refine hkeys k m ?_
      cases c <;> exact hm
    · have hm' : ((s.feed c).books.mapValues _).get? k = some m := hm
      rw [HashMap.get?_mapValues] at hm'
      obtain ⟨m', hm', -⟩ := Option.map_eq_some_iff.mp hm'
      refine hkeys k m' ?_
      cases c <;> exact hm'
  rw [call_eq hs]
  cases c with
  | onOrderbook pair tsUs b =>
    intro k m hm
    have hkey : pair.toCanonical = key := hc
    by_cases hk : k = pair.toCanonical
    · rw [hk, hkey]
    · refine hbase k m ?_
      have hm' : (HashMap.insert _ _ _).get? k = some m := hm
      rwa [HashMap.get?_insert, if_neg hk] at hm'
  | _ => exact hbase

/-- The lookup of a call's rows is the lookup in its symbol's history. -/
theorem bookAsOf_eq (hc : c.OnSymbol key) (hkeys : ∀ k m, s.books.get? k = some m → k = key)
    (row : ℕ) : s.bookAsOf c row = ((s.history key).below? row).map Prod.snd := by
  have hany : s.asOfBookAny row = s.asOfBook key row := by
    unfold asOfBookAny asOfBook
    rw [HashMap.head?_values hkeys]
  rw [← asOfBook_eq]
  cases c with
  | onOrderbook pair tsUs b =>
    have hkey : pair.toCanonical = key := hc
    exact congrArg (s.asOfBook · row) hkey
  | _ => exact hany

end MarketSynchronizer

/-! ## Over a run -/

namespace SyncConfig

variable {cfg : SyncConfig} {key : String}

/-- **What the history keeps**: it is of one symbol, and every row at or past
the clock finds in it what the reference finds. -/
structure HistoryKept (cfg : SyncConfig) (key : String) (calls : List Call) : Prop where
  /-- No other symbol has a history. -/
  keys : ∀ k m, (cfg.run calls).sync.books.get? k = some m → k = key
  /-- Lookups past the clock agree with the reference. -/
  agree : ∀ row, (∀ p ∈ cfg.clock key calls, p ≤ row) →
    ((cfg.run calls).sync.history key).below? row
      = (referenceBook cfg.periodUs (recordedBooks calls) row).map
          (fun x => (x.1 / cfg.periodUs, x.2))

theorem recordedBooks_append_singleton (calls : List Call) (c : Call) :
    recordedBooks (calls ++ [c]) = recordedBooks calls ++ c.book?.toList := by
  unfold recordedBooks
  rw [List.filterMap_append]
  rfl

/-- A call keeps what later rows will look up. -/
theorem HistoryKept.append {calls : List Call} (h : HistoryKept cfg key calls) {c : Call}
    (hc : c.OnSymbol key) : HistoryKept cfg key (calls ++ [c]) := by
  obtain ⟨hopen, hperiod, -, -⟩ := cfg.run_config calls
  refine ⟨?_, fun row hrow => ?_⟩
  · rw [run_append_singleton]
    exact books_call_key hopen hc h.keys
  · have hagree := h.agree row (clock_mono hc hrow)
    rw [recordedBooks_append_singleton, run_append_singleton]
    show (((cfg.run calls).sync.call c).1.history key).below? row = _
    rw [history_call hopen hc (fun prev current ha =>
      hrow current (clock_append_of_some hc ha).2.1), hagree, hperiod]
    cases c.book? with
    | none => rw [Option.toList_none, List.append_nil]
    | some x =>
      rw [Option.toList_some, referenceBook_append_singleton]
      unfold newerBook
      simp only [Option.mem_def, Option.map_eq_some_iff, forall_exists_index, and_imp,
        forall_apply_eq_imp_iff₂]
      split <;> rfl

theorem historyKept {calls : List Call} (hsym : ∀ c ∈ calls, c.OnSymbol key) :
    HistoryKept cfg key calls := by
  induction calls using List.reverseRecOn with
  | nil => exact ⟨(fun k m hm => by cases hm), fun row _ => rfl⟩
  | append_singleton calls c ih =>
    exact (ih (fun c' hc' => hsym c' (by simp [hc']))).append (hsym c (by simp))

/-- **The book of a row is the book of the reference.** In a run of one
symbol, whatever the order in which books arrive, each row a call emits
embeds the reference's book over everything recorded before that call: the
last to arrive of the greatest period below the row. So no row embeds a book
of its closing boundary or later. -/
theorem book_of_row (key : String) {calls : List Call} {c : Call}
    (hsym : ∀ c' ∈ calls ++ [c], c'.OnSymbol key) :
    ∃ rows, (cfg.run (calls ++ [c])).emitted = (cfg.run calls).emitted ++ rows ∧
      ∀ r ∈ rows, ∃ p, r.tsUs = p * cfg.periodUs ∧
        r.orderbook = (referenceBook cfg.periodUs (recordedBooks calls) p).map Prod.snd ∧
        ∀ b ∈ r.orderbook, ∃ tsUs, (tsUs, b) ∈ recordedBooks calls ∧ tsUs < r.tsUs := by
  have hc : c.OnSymbol key := hsym c (by simp)
  have hkept : HistoryKept cfg key calls := historyKept (fun c' hc' => hsym c' (by simp [hc']))
  refine ⟨(cfg.run calls).sync.newRows c, emitted_append calls c, fun r hr => ?_⟩
  obtain ⟨prev, current, p, ha, hp, -, hts, hbook, -⟩ := mem_newRows hr
  rw [(cfg.run_config calls).2.1] at hts
  have hreference : r.orderbook
      = (referenceBook cfg.periodUs (recordedBooks calls) p).map Prod.snd := by
    rw [hbook, bookAsOf_eq hc hkept.keys, hkept.agree p, Option.map_map]
    · rfl
    · intro q hq
      rw [(clock_append_of_some hc ha).1] at hq
      cases hq
      exact hp.le
  refine ⟨p, hts, hreference, fun b hb => ?_⟩
  rw [hreference] at hb
  obtain ⟨x, hx, rfl⟩ := Option.map_eq_some_iff.mp hb
  have hspec := referenceBook_spec cfg.periodUs (recordedBooks calls) p
  rw [hx] at hspec
  obtain ⟨pre, post, hbooks, hlt, -, -⟩ := hspec
  refine ⟨x.1, ?_, ?_⟩
  · rw [hbooks]
    simp
  · rw [hts]
    exact (Nat.div_lt_iff_lt_mul cfg.periodPos).mp hlt

/-- The book at 12 arrives after the book at 25; the row the book at 31
completes embeds the one at 25. -/
theorem book_of_row_out_of_order :
    ∃ rows, ((tenMicros .orderbookDriven 0).run
        ([.onOrderbook btcUsdt 5 (bookAt 5), .onOrderbook btcUsdt 25 (bookAt 25),
          .onOrderbook btcUsdt 12 (bookAt 12)] ++ [.onOrderbook btcUsdt 31 (bookAt 31)])).emitted
      = ((tenMicros .orderbookDriven 0).run
        [.onOrderbook btcUsdt 5 (bookAt 5), .onOrderbook btcUsdt 25 (bookAt 25),
          .onOrderbook btcUsdt 12 (bookAt 12)]).emitted ++ rows ∧
      ∀ r ∈ rows, ∃ p, r.tsUs = p * 10 ∧
        r.orderbook = (referenceBook 10 [(5, bookAt 5), (25, bookAt 25), (12, bookAt 12)] p).map
          Prod.snd ∧
        ∀ b ∈ r.orderbook, ∃ tsUs,
          (tsUs, b) ∈ [(5, bookAt 5), (25, bookAt 25), (12, bookAt 12)] ∧ tsUs < r.tsUs :=
  book_of_row btcUsdt.toCanonical (by decide)

end SyncConfig
