import Aetelier.ObSynchronizer
import Aetelier.MarketBooks
import Aetelier.MarketGrid
import Aetelier.RowGroups

/-!
# The three grid samplers

Books are put on a grid in three ways. `ObSynchronizer.onSnapshot` keeps the
last book, `ObSynchronizer.onUpdate` keeps none and is handed the levels of
the book that is about to change, and a book-driven `MarketSynchronizer`
keeps a history per period, looks each row's book up in it as of the row's
closing boundary, and prunes it behind itself.

`gridRows` is what all three are for: between two consecutive books, one row
for every grid point crossed, with the earlier book in it. A `GridSampler` is
anything fed with books that has rows; it `Samples` the grid if there is a
relation between its state and the last book it was fed that one more book
keeps, adding the rows of that step. Each of the three samples the grid under
a relation of its own (`ObSynchronizer.holds_onSnapshot`,
`ObSynchronizer.holds_onUpdate`, `MarketSynchronizer.holds_onOrderbook`), and
`ObSynchronizer.samplers_agree` reads off that their rows are the same.
-/

/-! ## The grid -/

/-- The bid and the ask levels of a book, by price. -/
def Orderbook.levels (b : Orderbook) : List Level × List Level :=
  (b.bids.entries.map Prod.snd, b.asks.entries.map Prod.snd)

/-- A row of the grid: its timestamp and the levels in it. -/
structure GridRow where
  /-- Grid-aligned timestamp. -/
  tsUs : ℕ
  /-- Bid and ask levels, if the row has a book. -/
  levels : Option (List Level × List Level)
deriving DecidableEq

/-- The row of an `ObSynchronizer`. -/
def Orderbook.gridRow (b : Orderbook) : GridRow := ⟨b.orderbookTsUs, some b.levels⟩

/-- The row of a `MarketSynchronizer`. -/
def MarketSnapshot.gridRow (r : MarketSnapshot) : GridRow :=
  ⟨r.tsUs, r.orderbook.map Orderbook.levels⟩

/-- **A book of the sequence**, with what capturing it returns: two lists of
levels, in any order, that build a book of the same levels. -/
structure FedBook where
  /-- Exchange event time. -/
  tsUs : ℕ
  /-- The book. -/
  book : Orderbook
  /-- What a capture of the book returns. -/
  captured : List Level × List Level
  /-- The capture is of this book. -/
  returns : ∀ (id ts : ℕ) (pair : TradingPair) (exchange : String),
    (Orderbook.fromLevels id ts pair exchange captured.1 captured.2).levels = book.levels

/-- The rows between a book and the next one. -/
def heldRows (periodUs : ℕ) (held : FedBook) (tsUs : ℕ) : List GridRow :=
  (List.range' (held.tsUs / periodUs + 1)
    (MarketSynchronizer.fillCount (held.tsUs / periodUs) (tsUs / periodUs))).map
      (fun p => ⟨p * periodUs, some held.book.levels⟩)

/-- The rows after a book. -/
def rowsAfter (periodUs : ℕ) (held : FedBook) : List FedBook → List GridRow
  | [] => []
  | x :: rest => heldRows periodUs held x.tsUs ++ rowsAfter periodUs x rest

/-- **The rows of a sequence of books.** -/
def gridRows (periodUs : ℕ) : List FedBook → List GridRow
  | [] => []
  | x :: rest => rowsAfter periodUs x rest

/-- The row that closes the period of the last book. -/
def closingRow (periodUs : ℕ) (held : FedBook) : GridRow :=
  ⟨(held.tsUs / periodUs + 1) * periodUs, some held.book.levels⟩

/-- The rows between two books of one period, or of periods out of order. -/
theorem heldRows_of_le {periodUs tsUs : ℕ} {held : FedBook}
    (h : tsUs / periodUs ≤ held.tsUs / periodUs) : heldRows periodUs held tsUs = [] := by
  unfold heldRows MarketSynchronizer.fillCount
  rw [Nat.sub_eq_zero_of_le h]
  rfl

/-! ## Samplers -/

/-- Something that is fed books and has rows. -/
structure GridSampler (σ : Type) where
  /-- Take one book. -/
  feed : σ → FedBook → σ
  /-- The rows emitted so far. -/
  rows : σ → List GridRow
  /-- The rows counted so far. -/
  captured : σ → ℕ

namespace GridSampler

variable {σ : Type} {S : GridSampler σ} {periodUs : ℕ} {start : σ} {Holds : σ → FedBook → Prop}

/-- **The sampler samples the grid**, as witnessed by a relation between its
state and the last book it was fed. -/
structure Samples (S : GridSampler σ) (periodUs : ℕ) (start : σ) (Holds : σ → FedBook → Prop) :
    Prop where
  /-- It starts with no rows. -/
  initial : S.rows start = [] ∧ S.captured start = 0
  /-- The first book emits none. -/
  first : ∀ x, Holds (S.feed start x) x ∧ S.rows (S.feed start x) = [] ∧
    S.captured (S.feed start x) = 0
  /-- A later book emits the rows before it. -/
  next : ∀ s held x, Holds s held → held.tsUs ≤ x.tsUs → Holds (S.feed s x) x ∧
    S.rows (S.feed s x) = S.rows s ++ heldRows periodUs held x.tsUs ∧
    S.captured (S.feed s x) = S.captured s + (heldRows periodUs held x.tsUs).length

/-- What a sampler emits after a book. -/
theorem Samples.rest (h : S.Samples periodUs start Holds) {s : σ} {held : FedBook}
    (hs : Holds s held) {feeds : List FedBook}
    (hsorted : (held :: feeds).Pairwise (fun a b => a.tsUs ≤ b.tsUs)) :
    Holds (feeds.foldl S.feed s) ((held :: feeds).getLast (List.cons_ne_nil _ _)) ∧
      S.rows (feeds.foldl S.feed s) = S.rows s ++ rowsAfter periodUs held feeds ∧
      S.captured (feeds.foldl S.feed s)
        = S.captured s + (rowsAfter periodUs held feeds).length := by
  induction feeds generalizing s held with
  | nil => exact ⟨hs, (List.append_nil _).symm, rfl⟩
  | cons x rest ih =>
    obtain ⟨hheld, hrest⟩ := List.pairwise_cons.mp hsorted
    obtain ⟨hx, hrows, hcaptured⟩ := h.next s held x hs (hheld x List.mem_cons_self)
    obtain ⟨hlast, hrows', hcaptured'⟩ := ih hx hrest
    refine ⟨?_, ?_, ?_⟩
    · rw [List.getLast_cons (List.cons_ne_nil _ _)]
      exact hlast
    · rw [List.foldl_cons, hrows', hrows, List.append_assoc]
      rfl
    · rw [List.foldl_cons, hcaptured', hcaptured, rowsAfter, List.length_append, Nat.add_assoc]

/-- **What a sampler emits over a sequence of books in order.** -/
theorem Samples.run (h : S.Samples periodUs start Holds) {feeds : List FedBook}
    (hsorted : feeds.Pairwise (fun a b => a.tsUs ≤ b.tsUs)) :
    S.rows (feeds.foldl S.feed start) = gridRows periodUs feeds ∧
      S.captured (feeds.foldl S.feed start) = (gridRows periodUs feeds).length ∧
      ∀ held ∈ feeds.getLast?, Holds (feeds.foldl S.feed start) held := by
  cases feeds with
  | nil => exact ⟨h.initial.1, h.initial.2, fun held hheld => by cases hheld⟩
  | cons x rest =>
    obtain ⟨hx, hrows, hcaptured⟩ := h.first x
    obtain ⟨hlast, hrows', hcaptured'⟩ := h.rest hx hsorted
    refine ⟨?_, ?_, fun held hheld => ?_⟩
    · rw [List.foldl_cons, hrows', hrows]
      rfl
    · rw [List.foldl_cons, hcaptured', hcaptured, Nat.zero_add]
      rfl
    · rw [List.getLast?_eq_some_getLast (List.cons_ne_nil _ _)] at hheld
      cases hheld
      exact hlast

end GridSampler

/-! ## The order book synchronizer -/

namespace ObSynchronizer

variable {s : ObSynchronizer} {pair : TradingPair} {exchange : String} {periodUs : ℕ}
variable {held x : FedBook}

/-- The rows of the buffer. -/
def rows (s : ObSynchronizer) : List GridRow := s.buffer.map Orderbook.gridRow

/-- The synchronizer, fed with whole books. -/
def snapshotSampler (pair : TradingPair) : GridSampler ObSynchronizer where
  feed s x := (s.onSnapshot pair x.tsUs x.book).1
  rows := rows
  captured := totalCaptured

/-- The synchronizer, fed with updates: each is announced before it is
applied, with the book of the update before it to capture. -/
def updateSampler (pair : TradingPair) (exchange : String) :
    GridSampler (ObSynchronizer × (List Level × List Level)) where
  feed st x := ((st.1.onUpdate pair exchange x.tsUs st.2).1, x.captured)
  rows st := st.1.rows
  captured st := st.1.totalCaptured

/-- **An open stream of one symbol**, whose clock is in the period of the last
book fed. -/
structure ClockedAt (s : ObSynchronizer) (pair : TradingPair) (periodUs : ℕ) (held : FedBook) :
    Prop where
  opened : s.finalized = false
  period : s.periodUs = periodUs
  clock : s.lastPeriod.get? pair.toCanonical = some (held.tsUs / periodUs)
  alone : ∀ k p, s.lastPeriod.get? k = some p → k = pair.toCanonical

/-- What `onSnapshot` keeps: the clock and the book itself. -/
def HoldsBook (pair : TradingPair) (periodUs : ℕ) (s : ObSynchronizer) (held : FedBook) : Prop :=
  s.ClockedAt pair periodUs held ∧ s.lastSnapshot.get? pair.toCanonical = some held.book

/-- What `onUpdate` finds: the clock, and the levels of the book outside. -/
def HoldsCapture (pair : TradingPair) (periodUs : ℕ)
    (st : ObSynchronizer × (List Level × List Level)) (held : FedBook) : Prop :=
  st.1.ClockedAt pair periodUs held ∧ st.2 = held.captured

/-- A clock set to the period of a book. -/
theorem ClockedAt.of_insert (hopen : s.finalized = false) (hperiod : s.periodUs = periodUs)
    {m : HashMap String ℕ} (halone : ∀ k p, m.get? k = some p → k = pair.toCanonical)
    (hlast : s.lastPeriod = m.insert pair.toCanonical (x.tsUs / periodUs)) :
    s.ClockedAt pair periodUs x := by
  refine ⟨hopen, hperiod, ?_, fun k p hk => ?_⟩
  · rw [hlast, HashMap.get?_insert, if_pos rfl]
  · rw [hlast, HashMap.get?_insert] at hk
    split at hk
    · assumption
    · exact halone k p hk

/-- A later book of the same period finds the clock where it is. -/
theorem ClockedAt.same (h : s.ClockedAt pair periodUs held) (hle : held.tsUs ≤ x.tsUs)
    (hcur : x.tsUs / periodUs ≤ held.tsUs / periodUs) : s.ClockedAt pair periodUs x := by
  have heq : x.tsUs / periodUs = held.tsUs / periodUs :=
    le_antisymm hcur (Nat.div_le_div_right hle)
  exact ⟨h.opened, h.period, by rw [h.clock, heq], h.alone⟩

/-- Copies of a book at the grid points crossed are the rows between. -/
theorem map_gridRow_copies (f : ℕ → Orderbook) (hts : ∀ p, (f p).orderbookTsUs = p * periodUs)
    (hlevels : ∀ p, (f p).levels = held.book.levels) (tsUs : ℕ) :
    ((List.range' (held.tsUs / periodUs + 1)
        (fillCount (held.tsUs / periodUs) (tsUs / periodUs))).map f).map Orderbook.gridRow
      = heldRows periodUs held tsUs := by
  rw [List.map_map]
  refine List.map_congr_left (fun p _ => ?_)
  show GridRow.mk (f p).orderbookTsUs (some (f p).levels) = _
  rw [hts, hlevels]

/-- **One more snapshot** adds the rows between it and the last. -/
theorem holds_onSnapshot (h : HoldsBook pair periodUs s held) (hle : held.tsUs ≤ x.tsUs) :
    HoldsBook pair periodUs (s.onSnapshot pair x.tsUs x.book).1 x ∧
      (s.onSnapshot pair x.tsUs x.book).1.rows = s.rows ++ heldRows periodUs held x.tsUs ∧
      (s.onSnapshot pair x.tsUs x.book).1.totalCaptured
        = s.totalCaptured + (heldRows periodUs held x.tsUs).length := by
  obtain ⟨hclocked, hsnapshot⟩ := h
  obtain ⟨hopen, rfl, hclock, halone⟩ := id hclocked
  have hinsert : (s.lastSnapshot.insert pair.toCanonical x.book).get? pair.toCanonical
      = some x.book := by
    rw [HashMap.get?_insert, if_pos rfl]
  by_cases hcur : x.tsUs / s.periodUs ≤ held.tsUs / s.periodUs
  · obtain ⟨-, -, hclock', -⟩ := hclocked.same hle hcur
    rw [onSnapshot_of_le hopen hclock hcur, heldRows_of_le hcur]
    exact ⟨⟨⟨hopen, rfl, hclock', halone⟩, hinsert⟩, (List.append_nil _).symm, rfl⟩
  · rw [onSnapshot_of_lt hopen hclock hcur hsnapshot,
      ← map_gridRow_copies (fun p => { held.book with orderbookTsUs := p * s.periodUs })
        (fun _ => rfl) (fun _ => rfl) x.tsUs]
    refine ⟨⟨.of_insert hopen rfl halone rfl, hinsert⟩, List.map_append, ?_⟩
    rw [List.length_map, List.length_map, List.length_range']

/-- **One more update** adds the rows between it and the last. -/
theorem holds_onUpdate {st : ObSynchronizer × (List Level × List Level)}
    (h : HoldsCapture pair periodUs st held) (hle : held.tsUs ≤ x.tsUs) :
    HoldsCapture pair periodUs ((updateSampler pair exchange).feed st x) x ∧
      (st.1.onUpdate pair exchange x.tsUs st.2).1.rows
        = st.1.rows ++ heldRows periodUs held x.tsUs ∧
      (st.1.onUpdate pair exchange x.tsUs st.2).1.totalCaptured
        = st.1.totalCaptured + (heldRows periodUs held x.tsUs).length := by
  obtain ⟨s, captured⟩ := st
  obtain ⟨hclocked, rfl⟩ := h
  obtain ⟨hopen, rfl, hclock, halone⟩ := id hclocked
  show ((s.onUpdate pair exchange x.tsUs held.captured).1.ClockedAt pair _ x ∧ _) ∧ _
  by_cases hcur : x.tsUs / s.periodUs ≤ held.tsUs / s.periodUs
  · rw [onUpdate_of_le hopen hclock hcur, heldRows_of_le hcur]
    exact ⟨⟨hclocked.same hle hcur, rfl⟩, (List.append_nil _).symm, rfl⟩
  · rw [onUpdate_of_lt hopen hclock hcur,
      ← map_gridRow_copies (fun p =>
          Orderbook.fromLevels 0 (p * s.periodUs) pair exchange held.captured.1 held.captured.2)
        (fun _ => rfl) (fun p => held.returns 0 (p * s.periodUs) pair exchange) x.tsUs]
    refine ⟨⟨.of_insert hopen rfl halone rfl, rfl⟩, List.map_append, ?_⟩
    rw [List.length_map, List.length_map, List.length_range']

section Samples

variable (hashPeriods hashSnapshots : RandomState String) (periodPos : 0 < periodUs)

/-- Snapshots sample the grid. -/
theorem samples_snapshots (pair : TradingPair) :
    (snapshotSampler pair).Samples periodUs (new hashPeriods hashSnapshots periodUs periodPos)
      (HoldsBook pair periodUs) where
  initial := ⟨rfl, rfl⟩
  first x := by
    refine ⟨⟨.of_insert rfl rfl (fun k p hk => by cases hk) rfl, ?_⟩, rfl, rfl⟩
    show (HashMap.insert _ _ _).get? _ = _
    rw [HashMap.get?_insert, if_pos rfl]
  next s held x h hle := holds_onSnapshot h hle

/-- Updates sample the grid, whatever a capture before the first book would
return. -/
theorem samples_updates (pair : TradingPair) (exchange : String)
    (before : List Level × List Level) :
    (updateSampler pair exchange).Samples periodUs
      (new hashPeriods hashSnapshots periodUs periodPos, before) (HoldsCapture pair periodUs) where
  initial := ⟨rfl, rfl⟩
  first x := ⟨⟨.of_insert rfl rfl (fun k p hk => by cases hk) rfl, rfl⟩, rfl, rfl⟩
  next st held x h hle := holds_onUpdate h hle

end Samples

/-- The row that closes a stream of snapshots. -/
theorem rows_finalize (h : HoldsBook pair periodUs s held) :
    s.finalize.rows = s.rows ++ [closingRow periodUs held] ∧
      s.finalize.totalCaptured = s.totalCaptured + 1 := by
  obtain ⟨hclocked, hsnapshot⟩ := h
  have hterminal : s.terminalRows
      = [{ held.book with orderbookTsUs := (held.tsUs / periodUs + 1) * periodUs }] := by
    unfold terminalRows
    rw [HashMap.iter_of_alone hclocked.alone, hclocked.clock, hclocked.period]
    show [(pair.toCanonical, held.tsUs / periodUs)].filterMap _ = _
    rw [List.filterMap_cons, hsnapshot]
    rfl
  unfold finalize rows
  simp only [hclocked.opened, Bool.false_eq_true, if_false, hterminal]
  exact ⟨List.map_append, rfl⟩

end ObSynchronizer

/-! ## The market synchronizer -/

namespace MarketSynchronizer

variable {s : MarketSynchronizer} {pair : TradingPair} {periodUs : ℕ} {held x : FedBook}

/-- The synchronizer, fed with books only. -/
def bookSampler (pair : TradingPair) : GridSampler MarketSynchronizer where
  feed s x := (s.onOrderbook pair x.tsUs x.book).1
  rows s := s.buffer.map MarketSnapshot.gridRow
  captured := totalCaptured

/-- **What the history keeps**: the clock is in the period of the last book,
and every row past the clock would look up that book. -/
structure HoldsHistory (pair : TradingPair) (periodUs : ℕ) (s : MarketSynchronizer)
    (held : FedBook) : Prop where
  opened : s.finalized = false
  period : s.periodUs = periodUs
  driven : s.clockMode = ClockMode.orderbookDriven
  prompt : s.emissionDelayUs = 0
  clock : s.lastPeriod.get? pair.toCanonical = some (held.tsUs / periodUs)
  alone : ∀ k p, s.lastPeriod.get? k = some p → k = pair.toCanonical
  latest : ∀ row, held.tsUs / periodUs < row →
    (s.history pair.toCanonical).below? row = some (held.tsUs / periodUs, held.book)

/-- A book is a clock of its own symbol only. -/
theorem lastPeriod_onOrderbook (halone : ∀ k p, s.lastPeriod.get? k = some p → k = pair.toCanonical)
    (tsUs : ℕ) (b : Orderbook) :
    ∀ k p, (s.onOrderbook pair tsUs b).1.lastPeriod.get? k = some p → k = pair.toCanonical := by
  have hinsert : ∀ k p, (s.lastPeriod.insert pair.toCanonical (s.periodAt tsUs)).get? k = some p →
      k = pair.toCanonical := by
    intro k p hk
    rw [HashMap.get?_insert] at hk
    split at hk
    · assumption
    · exact halone k p hk
  unfold onOrderbook
  split
  · exact halone
  · dsimp only
    split
    · exact halone
    · split
      · exact hinsert
      · split
        · exact halone
        · exact hinsert

/-- The clock is that of the book-driven mode. -/
theorem clock_of_driven (hm : s.clockMode = ClockMode.orderbookDriven) (key : String) :
    s.clock key = s.lastPeriod.get? key := if_pos hm

/-- With no hold-back the clock reaches the period of the timestamp. -/
theorem periodAt_of_prompt (h : s.emissionDelayUs = 0) (tsUs : ℕ) :
    s.periodAt tsUs = tsUs / s.periodUs := by
  unfold periodAt
  rw [h, Nat.sub_zero]

/-- What a book completes. -/
theorem advance_onOrderbook (pair : TradingPair) (hm : s.clockMode = ClockMode.orderbookDriven)
    (hprompt : s.emissionDelayUs = 0) (tsUs : ℕ) (b : Orderbook) :
    s.advance (.onOrderbook pair tsUs b)
      = (s.lastPeriod.get? pair.toCanonical).bind (fun prev =>
          if tsUs / s.periodUs ≤ prev then none else some (prev, tsUs / s.periodUs)) := by
  unfold advance
  rw [show Call.clockTs s.clockMode (.onOrderbook pair tsUs b) = some tsUs from if_pos hm,
    ← periodAt_of_prompt hprompt]
  have hclock : s.clockOf (.onOrderbook pair tsUs b) = s.lastPeriod.get? pair.toCanonical := rfl
  cases hp : s.lastPeriod.get? pair.toCanonical with
  | none => rw [hclock, hp]; rfl
  | some prev => rw [hclock, hp]; rfl

/-- The rows of one more book are the rows between it and the last. -/
theorem gridRow_newRows (h : HoldsHistory pair periodUs s held) (x : FedBook) :
    (s.newRows (.onOrderbook pair x.tsUs x.book)).map MarketSnapshot.gridRow
      = heldRows periodUs held x.tsUs := by
  obtain ⟨-, rfl, hm, hprompt, hclock, -, hlatest⟩ := h
  have ha := advance_onOrderbook pair hm hprompt x.tsUs x.book
  rw [hclock, Option.bind_some] at ha
  unfold newRows
  rw [ha]
  by_cases hcur : x.tsUs / s.periodUs ≤ held.tsUs / s.periodUs
  · rw [if_pos hcur, heldRows_of_le hcur]
    rfl
  · rw [if_neg hcur]
    show ((List.range' _ _).map _).map MarketSnapshot.gridRow = _
    rw [List.map_map]
    refine List.map_congr_left (fun p hp => ?_)
    rw [List.mem_range'_1] at hp
    show GridRow.mk (p * s.periodUs) ((s.asOfBook pair.toCanonical p).map Orderbook.levels) = _
    rw [asOfBook_eq, hlatest p (by omega)]
    rfl

/-- The history after one more book, as rows past it see it. -/
theorem latest_onOrderbook (hs : s.finalized = false) (hm : s.clockMode = .orderbookDriven)
    (hprompt : s.emissionDelayUs = 0) (hbefore : ∀ row, x.tsUs / s.periodUs < row →
      ∀ e ∈ (s.history pair.toCanonical).below? row, e.1 ≤ x.tsUs / s.periodUs)
    {row : ℕ} (hrow : x.tsUs / s.periodUs < row) :
    ((s.onOrderbook pair x.tsUs x.book).1.history pair.toCanonical).below? row
      = some (x.tsUs / s.periodUs, x.book) := by
  have ha := advance_onOrderbook pair hm hprompt x.tsUs x.book
  refine (history_call (c := .onOrderbook pair x.tsUs x.book) hs rfl
    (fun prev current hadvance => ?_)).trans (if_pos ⟨hrow, hbefore row hrow⟩)
  rw [ha] at hadvance
  obtain ⟨q, -, hq⟩ := Option.bind_eq_some_iff.mp hadvance
  split at hq
  · cases hq
  · cases hq
    exact hrow.le

/-- **One more book** adds the rows between it and the last. -/
theorem holds_onOrderbook (h : HoldsHistory pair periodUs s held) (hle : held.tsUs ≤ x.tsUs) :
    HoldsHistory pair periodUs (s.onOrderbook pair x.tsUs x.book).1 x ∧
      (s.onOrderbook pair x.tsUs x.book).1.buffer.map MarketSnapshot.gridRow
        = s.buffer.map MarketSnapshot.gridRow ++ heldRows periodUs held x.tsUs ∧
      (s.onOrderbook pair x.tsUs x.book).1.totalCaptured
        = s.totalCaptured + (heldRows periodUs held x.tsUs).length := by
  have hrows := gridRow_newRows h x
  obtain ⟨hopen, rfl, hm, hprompt, hclock, halone, hlatest⟩ := h
  have hdiv : held.tsUs / s.periodUs ≤ x.tsUs / s.periodUs := Nat.div_le_div_right hle
  obtain ⟨hperiod', hprompt', hm', hopen'⟩ :=
    call_config hopen (.onOrderbook pair x.tsUs x.book)
  have hclock' : (s.call (.onOrderbook pair x.tsUs x.book)).1.clock pair.toCanonical = _ :=
    clock_call_of_some hopen rfl (show Call.clockTs s.clockMode _ = some x.tsUs from if_pos hm)
  rw [clock_of_driven (hm'.trans hm), clock_of_driven hm, hclock, periodAt_of_prompt hprompt,
    Option.getD_some, max_eq_right hdiv] at hclock'
  refine ⟨⟨hopen', hperiod', hm'.trans hm, hprompt'.trans hprompt, hclock',
    lastPeriod_onOrderbook halone _ _, fun row hrow => ?_⟩, ?_, ?_⟩
  · refine latest_onOrderbook hopen hm hprompt (fun row hrow e he => ?_) hrow
    rw [hlatest row (hdiv.trans_lt hrow)] at he
    cases he
    exact hdiv
  · have hbuffer := buffer_call hopen (.onOrderbook pair x.tsUs x.book)
    rw [← hrows, ← List.map_append, ← hbuffer]
    rfl
  · have hcaptured := totalCaptured_call hopen (.onOrderbook pair x.tsUs x.book)
    rw [← hrows, List.length_map]
    exact hcaptured

/-- Books sample the grid. -/
theorem samples_books (hashPeriods hashBooks : RandomState String) (periodPos : 0 < periodUs)
    (pair : TradingPair) :
    (bookSampler pair).Samples periodUs
      (withClockMode hashPeriods hashBooks periodUs periodPos .orderbookDriven)
      (HoldsHistory pair periodUs) where
  initial := ⟨rfl, rfl⟩
  first x := by
    refine ⟨⟨rfl, rfl, rfl, rfl, ?_, lastPeriod_onOrderbook (fun k p hk => by cases hk) _ _,
      fun row hrow => latest_onOrderbook rfl rfl rfl (fun row _ e he => by cases he) hrow⟩, rfl,
      rfl⟩
    show (HashMap.insert _ _ _).get? _ = _
    rw [HashMap.get?_insert, if_pos rfl]
    rfl
  next s held x h hle := holds_onOrderbook h hle

/-- The row that closes a stream of books. The lookup of the latest book
stops short of the period `u64::MAX`, for which there is no next one. -/
theorem gridRow_finalize (h : HoldsHistory pair periodUs s held)
    (hlast : held.tsUs / periodUs < u64Max) :
    s.finalize.buffer.map MarketSnapshot.gridRow
        = s.buffer.map MarketSnapshot.gridRow ++ [closingRow periodUs held] ∧
      s.finalize.totalCaptured = s.totalCaptured + 1 := by
  obtain ⟨hopen, rfl, hm, -, hclock, halone, hlatest⟩ := h
  have hiter : s.lastPeriod.iter = [(pair.toCanonical, held.tsUs / s.periodUs)] := by
    rw [HashMap.iter_of_alone halone, hclock]
    rfl
  have hbook : s.asOfBook pair.toCanonical u64Max = some held.book := by
    rw [asOfBook_eq, hlatest u64Max hlast]
    rfl
  rw [finalize_obDriven hopen hm]
  unfold finalizeObDriven
  dsimp only
  rw [hiter]
  refine ⟨List.map_append.trans (congrArg (s.buffer.map MarketSnapshot.gridRow ++ ·) ?_), rfl⟩
  show [GridRow.mk _ ((s.asOfBook pair.toCanonical u64Max).map Orderbook.levels)] = _
  rw [hbook]
  rfl

end MarketSynchronizer

/-! ## The three together -/

section Together

variable (hashPeriods hashBooks : RandomState String) {periodUs : ℕ} (periodPos : 0 < periodUs)
variable (pair : TradingPair) (exchange : String) (before : List Level × List Level)

/-- A new synchronizer, fed with updates. -/
def ObSynchronizer.overUpdates (feeds : List FedBook) : ObSynchronizer :=
  (feeds.foldl (updateSampler pair exchange).feed
    (ObSynchronizer.new hashPeriods hashBooks periodUs periodPos, before)).1

/-- A new synchronizer, fed with snapshots. -/
def ObSynchronizer.overSnapshots (feeds : List FedBook) : ObSynchronizer :=
  feeds.foldl (snapshotSampler pair).feed
    (ObSynchronizer.new hashPeriods hashBooks periodUs periodPos)

/-- A new book-driven market synchronizer without hold-back, fed with
books. -/
def MarketSynchronizer.overBooks (feeds : List FedBook) : MarketSynchronizer :=
  feeds.foldl (bookSampler pair).feed
    (withClockMode hashPeriods hashBooks periodUs periodPos .orderbookDriven)

end Together

section Agreement

variable {periodUs : ℕ} (periodPos : 0 < periodUs) (pair : TradingPair) (exchange : String)
variable (before : List Level × List Level) {feeds : List FedBook}

/-- **The three grid samplers agree.** Over every sequence of books of one
symbol in order of their timestamps, with jumps of any length, feeding the
books, capturing each one before the next, and driving a market synchronizer
with them emits the same rows – the same timestamps with the same bid and ask
levels – and counts the same number of them. Closing the streams adds the same
terminal row to the rows of the books fed and of the market synchronizer, if
the period after the last is a `u64`. -/
theorem ObSynchronizer.samplers_agree (hu hu' hs hs' hb hb' : RandomState String)
    (hsorted : feeds.Pairwise (fun a b => a.tsUs ≤ b.tsUs)) :
    (overUpdates hu hu' periodPos pair exchange before feeds).rows
        = (overSnapshots hs hs' periodPos pair feeds).rows ∧
      (overSnapshots hs hs' periodPos pair feeds).rows
        = (MarketSynchronizer.overBooks hb hb' periodPos pair feeds).buffer.map
            MarketSnapshot.gridRow ∧
      (overUpdates hu hu' periodPos pair exchange before feeds).totalCaptured
        = (overSnapshots hs hs' periodPos pair feeds).totalCaptured ∧
      (overSnapshots hs hs' periodPos pair feeds).totalCaptured
        = (MarketSynchronizer.overBooks hb hb' periodPos pair feeds).totalCaptured ∧
      ((∀ last ∈ feeds.getLast?, last.tsUs / periodUs < u64Max) →
        (overSnapshots hs hs' periodPos pair feeds).finalize.rows
            = (MarketSynchronizer.overBooks hb hb' periodPos pair feeds).finalize.buffer.map
                MarketSnapshot.gridRow ∧
        (overSnapshots hs hs' periodPos pair feeds).finalize.totalCaptured
          = (MarketSynchronizer.overBooks hb hb' periodPos pair feeds).finalize.totalCaptured) := by
  obtain ⟨hurows, hucount, -⟩ := (samples_updates hu hu' periodPos pair exchange before).run hsorted
  obtain ⟨hsrows, hscount, hsheld⟩ := (samples_snapshots hs hs' periodPos pair).run hsorted
  obtain ⟨hbrows, hbcount, hbheld⟩ :=
    (MarketSynchronizer.samples_books hb hb' periodPos pair).run hsorted
  refine ⟨hurows.trans hsrows.symm, hsrows.trans hbrows.symm, hucount.trans hscount.symm,
    hscount.trans hbcount.symm, fun hlast => ?_⟩
  cases hfeeds : feeds.getLast? with
  | none =>
    obtain rfl := List.getLast?_eq_none_iff.mp hfeeds
    show ((ObSynchronizer.new hs hs' periodUs periodPos).finalize.rows = _) ∧ _
    simp [overSnapshots, MarketSynchronizer.overBooks, finalize, terminalRows, rows, new,
      MarketSynchronizer.finalize, MarketSynchronizer.withClockMode,
      MarketSynchronizer.finalizeObDriven]
  | some last =>
    obtain ⟨hsclose, hstotal⟩ := rows_finalize (hsheld last hfeeds)
    obtain ⟨hbclose, hbtotal⟩ :=
      MarketSynchronizer.gridRow_finalize (hbheld last hfeeds) (hlast last hfeeds)
    refine ⟨?_, ?_⟩
    · refine hsclose.trans (Eq.trans ?_ hbclose.symm)
      exact congrArg (· ++ _) (hsrows.trans hbrows.symm)
    · refine hstotal.trans (Eq.trans ?_ hbtotal.symm)
      exact congrArg (· + 1) (hscount.trans hbcount.symm)

/-- A book of two bids and an ask around a price, captured best first. -/
def bookAround (tsUs price : ℕ) : FedBook where
  tsUs := tsUs
  book := Orderbook.fromLevels 7 tsUs btcUsdt "binance"
    [⟨0, .bids, ⟨price, 0⟩, ⟨1, 0⟩⟩, ⟨1, .bids, ⟨price - 1, 0⟩, ⟨2, 0⟩⟩]
    [⟨0, .asks, ⟨price + 1, 0⟩, ⟨3, 0⟩⟩]
  captured := ([⟨0, .bids, ⟨price, 0⟩, ⟨1, 0⟩⟩, ⟨1, .bids, ⟨price - 1, 0⟩, ⟨2, 0⟩⟩],
    [⟨0, .asks, ⟨price + 1, 0⟩, ⟨3, 0⟩⟩])
  returns _ _ _ _ := rfl

/-- Three books, the third two periods past the second. -/
def threeBooks : List FedBook := [bookAround 5 100, bookAround 12 101, bookAround 35 102]

/-- On a grid of ten the rows at 20 and at 30 both carry the second book, and
the terminal rows agree as well. -/
theorem ObSynchronizer.samplers_agree_threeBooks :
    let updates := overUpdates .table .table (show 0 < 10 by decide) btcUsdt "binance" ([], [])
      threeBooks
    let snapshots := overSnapshots .table .table (show 0 < 10 by decide) btcUsdt threeBooks
    let books := MarketSynchronizer.overBooks .table .table (show 0 < 10 by decide) btcUsdt
      threeBooks
    gridRows 10 threeBooks = [⟨10, some (bookAround 5 100).book.levels⟩,
        ⟨20, some (bookAround 12 101).book.levels⟩,
        ⟨30, some (bookAround 12 101).book.levels⟩] ∧
      updates.rows = snapshots.rows ∧
      snapshots.rows = books.buffer.map MarketSnapshot.gridRow ∧
      updates.totalCaptured = snapshots.totalCaptured ∧
      snapshots.totalCaptured = books.totalCaptured ∧
      snapshots.finalize.rows = books.finalize.buffer.map MarketSnapshot.gridRow ∧
      snapshots.finalize.totalCaptured = books.finalize.totalCaptured := by
  obtain ⟨hrows, hrows', hcount, hcount', hclose⟩ :=
    samplers_agree (show 0 < 10 by decide) btcUsdt "binance" ([], []) .table .table .table .table
      .table .table (show threeBooks.Pairwise (fun a b => a.tsUs ≤ b.tsUs) by decide)
  obtain ⟨hterminal, htotal⟩ := hclose (by decide)
  exact ⟨by decide, hrows, hrows', hcount, hcount', hterminal, htotal⟩

end Agreement
