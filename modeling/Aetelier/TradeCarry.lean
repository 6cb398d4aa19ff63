import Aetelier.PairInvariants
import Mathlib.Algebra.Order.Ring.Nat
import Mathlib.Order.Interval.Finset.Nat

/-!
# Trades across reconnects

A runtime lives for one connection. The worker links the runtimes of a
source by a map from pairs to sequences: each new runtime seeds the trade
logs of its pairs from the map, and writes a log's position back after every
print it handles. The linked runtimes are one machine, whose inputs are those
of the current runtime and the reconnects.

The accounting is exact (`LinkedRuntime.trade_loss_exact`): over any number
of connections, the prints the logs of a pair appended and the prints they
counted lost are together the sequences from the first appended to the
greatest, and the lost ones are the sequences of that range that were never
appended. What is sent downstream is another matter: the runtime forwards
every print it handles, the duplicates too, so a sequence is sent once
exactly when it is delivered once (`LinkedRuntime.sent_once_iff`).
-/

/-- The worker's map from pairs to the last sequence applied. -/
abbrev TradeSeqCarry := HashMap TradingPair ℕ

/-- Seed the continuity of a log from a prior connection. -/
def SourcedTradebook.withLastSeq (tb : SourcedTradebook) (lastSeq : Option ℕ) :
    SourcedTradebook :=
  { tb with lastSeq := lastSeq }

namespace SourcedTradebook

variable {tb : SourcedTradebook} {seq last : ℕ}

/-- A print at or below the position of a log leaves the log as it is. -/
theorem apply_of_le (hlast : tb.lastSeq = some last) (h : seq ≤ last) :
    tb.apply (some seq) = (tb, .duplicate) := by
  unfold apply
  simp only [hlast, if_pos h]

/-- **A print past the position of a log** is appended, and the sequences it
jumps over are counted lost. -/
theorem apply_of_lt (h : ∀ last ∈ tb.lastSeq, last < seq) :
    (tb.apply (some seq)).2 ≠ .duplicate ∧ (tb.apply (some seq)).1.lastSeq = some seq ∧
      (tb.apply (some seq)).1.count = tb.count + 1 ∧
      (tb.apply (some seq)).1.tradesLost
        = tb.tradesLost + tb.lastSeq.elim 0 (fun last => seq - last - 1) := by
  unfold apply
  cases hlast : tb.lastSeq with
  | none => simp
  | some last =>
    have hlt := h last hlast
    simp only [if_neg (not_le.mpr hlt)]
    split
    · simp
    · have hnext : seq - last - 1 = 0 := by omega
      simp [hnext]

end SourcedTradebook

/-! ## The log of a pair -/

namespace PairBook

variable (cfg : RuntimeConfig) (pair : TradingPair) (nowUs : ℕ)

theorem trades_requestReseed (b : PairBook) : (b.requestReseed cfg pair).1.trades = b.trades := by
  unfold requestReseed
  split <;> rfl

theorem trades_applyLive (b : PairBook) (d : NormalizedDelta) :
    (b.applyLive cfg pair nowUs d).pairBook.trades = b.trades := by
  unfold applyLive
  split
  · rfl
  · dsimp only
    split
    · exact trades_requestReseed cfg pair _
    · rfl

theorem trades_pushBuffered (b : PairBook) (buffer : List NormalizedDelta) (d : NormalizedDelta) :
    (b.pushBuffered pair buffer d).pairBook.trades = b.trades := by
  unfold pushBuffered
  split <;> rfl

theorem trades_replay (snapId : ℕ) (l : List NormalizedDelta) (b : PairBook) :
    (b.replay cfg pair nowUs snapId l).1.trades = b.trades := by
  induction l generalizing b with
  | nil => rfl
  | cons d rest ih =>
    unfold replay
    split
    · exact ih b
    · split
      · exact ih _
      · dsimp only
        split <;> rfl

theorem trades_applySeed (b : PairBook) (seed : NormalizedDelta) :
    (b.applySeed cfg pair nowUs seed).pairBook.trades = b.trades := by
  unfold applySeed
  dsimp only
  split
  · split
    · exact trades_requestReseed cfg pair _
    · rfl
  · split
    · exact (trades_requestReseed cfg pair _).trans (trades_replay cfg pair nowUs _ _ _)
    · exact trades_replay cfg pair nowUs _ _ _
    · exact trades_replay cfg pair nowUs _ _ _

/-- A book event does not touch the trade log. -/
theorem trades_onBook (b : PairBook) (d : NormalizedDelta) :
    (b.onBook cfg pair nowUs d).pairBook.trades = b.trades := by
  unfold onBook
  split
  · split
    · exact trades_applySeed cfg pair nowUs b d
    · exact trades_pushBuffered pair b _ d
  · exact trades_applyLive cfg pair nowUs b d

/-- Neither does a seed. -/
theorem trades_onFetched (b : PairBook) (result : Except String NormalizedDelta) :
    (b.onFetched cfg pair nowUs result).pairBook.trades = b.trades := by
  unfold onFetched
  dsimp only
  split
  · exact trades_applySeed cfg pair nowUs _ _
  · split
    · exact trades_requestReseed cfg pair _
    · rfl

end PairBook

namespace SourceRuntime

variable {cfg : RuntimeConfig} {pair : TradingPair}

/-- The trade log of a pair. -/
def tradesOf (s : SourceRuntime) (pair : TradingPair) : Option SourcedTradebook :=
  (s.books.get? pair).map (·.trades)

/-- **The print of a pair that a turn of the loop handles**: the run is not
over, trades are declared and the pair is tracked. -/
def printOf (cfg : RuntimeConfig) (pair : TradingPair) (s : SourceRuntime) (input : Input) :
    Option (Trade × Option ℕ) :=
  match input.body with
  | .event (.trade trade sequence) =>
    if s.outcome = none ∧ s.eventsDone = false ∧ .trades ∈ cfg.declared ∧ trade.pair = pair ∧
        (s.books.get? pair).isSome then
      some (trade, sequence)
    else none
  | _ => none

/-- Only the handler of a pair touches the log of the pair. -/
theorem tradesOf_onPair (s : SourceRuntime) (p : TradingPair) (handle : PairBook → Handled) :
    (s.onPair p handle).1.tradesOf pair
      = if p = pair then (s.books.get? pair).map (fun b => (handle b).pairBook.trades)
        else s.tradesOf pair := by
  unfold onPair tradesOf
  cases hb : s.books.get? p with
  | none =>
    by_cases hp : p = pair
    · subst hp
      rw [if_pos rfl, hb]
      rfl
    · rw [if_neg hp]
  | some b =>
    dsimp only
    rw [HashMap.get?_insert]
    by_cases hp : p = pair
    · subst hp
      rw [if_pos rfl, if_pos rfl, hb]
      rfl
    · rw [if_neg hp, if_neg (Ne.symm hp)]

theorem tradesOf_onPair_of_eq (s : SourceRuntime) (p : TradingPair) {handle : PairBook → Handled}
    (h : ∀ b, (handle b).pairBook.trades = b.trades) :
    (s.onPair p handle).1.tradesOf pair = s.tradesOf pair := by
  rw [tradesOf_onPair]
  split
  · unfold tradesOf
    simp only [h]
  · rfl

theorem tradesOf_declaredOnly {s : SourceRuntime} {datatype : DeclaredDatatype}
    {handled : SourceRuntime × List Effect}
    (h : datatype ∈ cfg.declared → handled.1.tradesOf pair = s.tradesOf pair) :
    (s.declaredOnly cfg datatype handled).1.tradesOf pair = s.tradesOf pair := by
  unfold declaredOnly
  split
  · next hd => exact h hd
  · rfl

/-- An event that is no print of the pair leaves its log alone. -/
theorem tradesOf_handleEvent (nowUs : ℕ) {s : SourceRuntime} {ev : DomainEvent}
    (h : ∀ t sequence, ev = .trade t sequence → .trades ∈ cfg.declared → t.pair ≠ pair) :
    (s.handleEvent cfg nowUs ev).1.tradesOf pair = s.tradesOf pair := by
  cases ev with
  | book delta =>
    refine tradesOf_declaredOnly (fun _ => ?_)
    cases cfg.codec.decode cfg.unicode delta.symbol with
    | none => rfl
    | some q => exact tradesOf_onPair_of_eq s q (fun b => PairBook.trades_onBook cfg q nowUs b _)
  | trade t sequence =>
    refine tradesOf_declaredOnly (fun hdecl => ?_)
    rw [tradesOf_onPair, if_neg (h t sequence rfl hdecl)]
  | connectionGap dropped =>
    simp only [handleEvent, onConnectionGap, tradesOf]
    rw [HashMap.get?_mapValues, Option.map_map]
    rfl
  | fundingRate fr => exact tradesOf_declaredOnly (fun _ => rfl)
  | openInterest oi => exact tradesOf_declaredOnly (fun _ => rfl)
  | fundingSettlement fs => exact tradesOf_declaredOnly (fun _ => rfl)

theorem tradesOf_settle (s : SourceRuntime) : s.settle.tradesOf pair = s.tradesOf pair := by
  unfold tradesOf
  rw [settle_books]

/-- A turn of the loop leaves the logs as its input did. -/
theorem tradesOf_step {s : SourceRuntime} (hs : s.outcome = none) (input : Input) :
    (s.step cfg input).1.tradesOf pair
      = (s.handle cfg input.nowUs input.body).1.tradesOf pair := by
  unfold step
  rw [if_neg (by rw [hs]; simp)]
  dsimp only
  split
  · exact tradesOf_settle _
  · split
    · exact tradesOf_settle _
    · exact tradesOf_settle (s.handle cfg input.nowUs input.body).1

/-- **A turn that handles no print of the pair leaves its log alone.** -/
theorem tradesOf_step_of_none {s : SourceRuntime} {input : Input}
    (h : s.printOf cfg pair input = none) :
    (s.step cfg input).1.tradesOf pair = s.tradesOf pair := by
  by_cases hs : s.outcome = none
  swap
  · rw [show s.step cfg input = (s, []) from if_pos (Option.isSome_iff_ne_none.mpr hs)]
  rw [tradesOf_step hs]
  unfold printOf at h
  cases hbody : input.body with
  | event ev =>
    rw [hbody] at h
    simp only [handle]
    by_cases hdone : s.eventsDone = true
    · rw [if_pos hdone]
    rw [if_neg hdone]
    cases ev with
    | trade t sequence =>
      by_cases hbook : (s.books.get? pair).isSome
      · refine tradesOf_handleEvent input.nowUs (fun t' sequence' ht hdecl hpair => ?_)
        cases ht
        exact Option.some_ne_none _
          ((if_pos ⟨hs, Bool.not_eq_true _ ▸ hdone, hdecl, hpair, hbook⟩).symm.trans h)
      · -- the pair is not tracked, so no handler finds a log
        refine tradesOf_declaredOnly (fun _ => ?_)
        rw [Option.not_isSome_iff_eq_none] at hbook
        rw [tradesOf_onPair]
        unfold tradesOf
        rw [hbook]
        split <;> rfl
    | _ => exact tradesOf_handleEvent input.nowUs (fun t sequence ht => by cases ht)
  | eventsClosed => rfl
  | fetched p result =>
    simp only [handle]
    split
    · exact tradesOf_onPair_of_eq { s with inFlight := s.inFlight - 1 } p
        (fun b => PairBook.trades_onFetched cfg p input.nowUs b result)
    · rfl
  | seedDeadline =>
    simp only [handle]
    split <;> rfl
  | shutdown => rfl

/-- What it means that a turn handles a print of the pair. -/
theorem of_printOf {s : SourceRuntime} {input : Input} {t : Trade} {sequence : Option ℕ}
    (h : s.printOf cfg pair input = some (t, sequence)) :
    input.body = .event (.trade t sequence) ∧ s.outcome = none ∧ s.eventsDone = false ∧
      .trades ∈ cfg.declared ∧ t.pair = pair ∧ ∃ b, s.books.get? pair = some b := by
  unfold printOf at h
  split at h
  · next t' sequence' hbody =>
    obtain ⟨⟨hs, hdone, hdecl, hpair, hbook⟩, he⟩ := Option.ite_none_right_eq_some.mp h
    cases he
    exact ⟨hbody, hs, hdone, hdecl, hpair, Option.isSome_iff_exists.mp hbook⟩
  · cases h

/-- A print that is handled goes to the pair's handler. -/
theorem handle_of_printOf {s : SourceRuntime} {input : Input} {t : Trade} {sequence : Option ℕ}
    (h : s.printOf cfg pair input = some (t, sequence)) :
    s.handle cfg input.nowUs input.body = s.onPair pair (fun b => b.onTrade t sequence) := by
  obtain ⟨hbody, -, hdone, hdecl, hpair, -⟩ := of_printOf h
  rw [hbody]
  simp only [handle, handleEvent, declaredOnly, if_pos hdecl, hpair, hdone]
  rfl

/-- **A turn that handles a print of the pair appends it to the log.** -/
theorem tradesOf_step_of_some {s : SourceRuntime} {input : Input} {t : Trade}
    {sequence : Option ℕ} (h : s.printOf cfg pair input = some (t, sequence)) :
    (s.step cfg input).1.tradesOf pair
      = (s.tradesOf pair).map (fun tb => (tb.apply sequence).1) := by
  obtain ⟨-, hs, -⟩ := of_printOf h
  rw [tradesOf_step hs, handle_of_printOf h, tradesOf_onPair, if_pos rfl]
  unfold tradesOf
  rw [Option.map_map]
  rfl

end SourceRuntime

/-! ## Sequences past all before them -/

/-- One sequence more: kept if it is past the last one kept. -/
def keepPast (kept : List ℕ) (seq : ℕ) : List ℕ :=
  if kept.getLast?.all (fun last => decide (last < seq)) then kept ++ [seq] else kept

/-- **The sequences of a delivery that are past all those before them**, in
order. -/
def pastAll (seqs : List ℕ) : List ℕ := seqs.foldl keepPast []

theorem pastAll_concat (seqs : List ℕ) (seq : ℕ) :
    pastAll (seqs ++ [seq]) = keepPast (pastAll seqs) seq := by
  unfold pastAll
  rw [List.foldl_append]
  rfl

theorem keepPast_of_lt {kept : List ℕ} {seq : ℕ} (h : ∀ last ∈ kept.getLast?, last < seq) :
    keepPast kept seq = kept ++ [seq] := by
  unfold keepPast
  refine if_pos ?_
  cases hlast : kept.getLast? with
  | none => rfl
  | some last => exact decide_eq_true (h last hlast)

theorem keepPast_of_le {kept : List ℕ} {seq last : ℕ} (hlast : kept.getLast? = some last)
    (h : seq ≤ last) : keepPast kept seq = kept := by
  unfold keepPast
  rw [hlast]
  exact if_neg (by simpa using h)

/-- The first sequence of a delivery is the first of those past all before
them. -/
theorem head?_pastAll (seqs : List ℕ) : (pastAll seqs).head? = seqs.head? := by
  induction seqs using List.reverseRecOn with
  | nil => rfl
  | append_singleton seqs seq ih =>
    rw [pastAll_concat]
    unfold keepPast
    split
    · rw [List.head?_append, List.head?_append, ih]
    · next hkept =>
      have hne : seqs ≠ [] := by
        rintro rfl
        exact hkept rfl
      rw [ih, List.head?_append_of_ne_nil _ hne]

theorem max?_concat (seqs : List ℕ) (seq : ℕ) :
    (seqs ++ [seq]).max? = some (seqs.max?.elim seq (max · seq)) := by
  cases seqs with
  | nil => rfl
  | cons first rest =>
    rw [List.cons_append, List.max?_cons', List.max?_cons', List.foldl_append]
    rfl

/-- The greatest sequence of a delivery is the last of those past all before
them. -/
theorem getLast?_pastAll (seqs : List ℕ) : (pastAll seqs).getLast? = seqs.max? := by
  induction seqs using List.reverseRecOn with
  | nil => rfl
  | append_singleton seqs seq ih =>
    rw [pastAll_concat, max?_concat, ← ih]
    cases hlast : (pastAll seqs).getLast? with
    | none =>
      rw [keepPast_of_lt (fun last h => by rw [hlast] at h; cases h), List.getLast?_concat]
      rfl
    | some last =>
      by_cases hle : seq ≤ last
      · rw [keepPast_of_le hlast hle, hlast]
        exact congrArg some (max_eq_left hle).symm
      · push Not at hle
        rw [keepPast_of_lt (fun last' h => by rw [hlast] at h; cases h; exact hle),
          List.getLast?_concat]
        exact congrArg some (max_eq_right hle.le).symm

/-! ## Linked runtimes -/

namespace SourceRuntime

/-- Attach the carry: the log of each pair starts afresh at the carried
position. -/
def withTradeSeqCarry (s : SourceRuntime) (carry : TradeSeqCarry) : SourceRuntime :=
  { s with
    books := s.books.mapValues (fun pair b =>
      { b with trades := (SourcedTradebook.new pair).withLastSeq (carry.get? pair) }) }

/-- The runtime of a new connection. -/
def connect (cfg : RuntimeConfig) (hasher : RandomState TradingPair) (nowUs : ℕ)
    (wireSymbols : List String) (carry : TradeSeqCarry) : SourceRuntime × List Effect :=
  let r := start cfg hasher nowUs wireSymbols
  (r.1.withTradeSeqCarry carry, r.2)

theorem tradesOf_withTradeSeqCarry {s : SourceRuntime} {carry : TradeSeqCarry}
    {pair : TradingPair} {tb : SourcedTradebook}
    (h : (s.withTradeSeqCarry carry).tradesOf pair = some tb) :
    tb = (SourcedTradebook.new pair).withLastSeq (carry.get? pair) := by
  unfold tradesOf withTradeSeqCarry at h
  rw [HashMap.get?_mapValues, Option.map_map, Option.map_eq_some_iff] at h
  obtain ⟨b, -, hb⟩ := h
  exact hb.symm

end SourceRuntime

/-- **The runtimes of a source**: the one of the current connection, the
carry, and those whose connections have ended. -/
structure LinkedRuntime where
  /-- The runtime of the current connection. -/
  runtime : SourceRuntime
  /-- The carry. -/
  carry : TradeSeqCarry
  /-- The runtimes of the earlier connections. -/
  ended : List SourceRuntime

/-- An input of the current runtime, or the next connection. -/
inductive LinkedInput where
  | input (input : Input)
  | reconnect (hasher : RandomState TradingPair) (nowUs : ℕ) (wireSymbols : List String)

namespace LinkedRuntime

variable (cfg : RuntimeConfig) (pair : TradingPair)

/-- The first connection, with nothing carried. -/
def first (carryHasher hasher : RandomState TradingPair) (nowUs : ℕ) (wireSymbols : List String) :
    LinkedRuntime where
  runtime := (SourceRuntime.connect cfg hasher nowUs wireSymbols (HashMap.empty carryHasher)).1
  carry := HashMap.empty carryHasher
  ended := []

/-- The carry after a turn of the loop: a handled print writes back the
position of its log. -/
def writeBack (x : LinkedRuntime) (after : SourceRuntime) (input : Input) : TradeSeqCarry :=
  match input.body with
  | .event (.trade t _) =>
    if (x.runtime.printOf cfg t.pair input).isSome then
      match (after.tradesOf t.pair).bind (·.lastSeq) with
      | some last => x.carry.insert t.pair last
      | none => x.carry
    else x.carry
  | _ => x.carry

/-- **One turn.** -/
def step (x : LinkedRuntime) : LinkedInput → LinkedRuntime × List Effect
  | .input input =>
    let r := x.runtime.step cfg input
    ({ x with runtime := r.1, carry := x.writeBack cfg r.1 input }, r.2)
  | .reconnect hasher nowUs wireSymbols =>
    let r := SourceRuntime.connect cfg hasher nowUs wireSymbols x.carry
    ({ x with runtime := r.1, ended := x.ended ++ [x.runtime] }, r.2)

/-- The linked runtimes as a machine. -/
def machine : Machine LinkedRuntime LinkedInput Effect := ⟨step cfg⟩

/-- The sum of a counter over the logs of a pair. -/
def total (counter : SourcedTradebook → ℕ) (x : LinkedRuntime) : ℕ :=
  ((x.ended ++ [x.runtime]).map (fun s => ((s.tradesOf pair).map counter).getD 0)).sum

/-- The sequence of a pair's print that a turn hands to the log of the
pair, whatever the log makes of it. -/
def handledSeq (x : LinkedRuntime) : LinkedInput → Option ℕ
  | .input input => (x.runtime.printOf cfg pair input).bind (·.2)
  | .reconnect .. => none

/-- The sequences handed to the logs of a pair, over all connections. -/
def handled (x : LinkedRuntime) (inputs : List LinkedInput) : List ℕ :=
  (machine cfg).collect (handledSeq cfg pair) x inputs

variable {cfg pair}

/-! ## What is sent -/

/-- The carry of a pair is untouched by a turn that handles no print of it. -/
theorem get?_writeBack_of_none {x : LinkedRuntime} {after : SourceRuntime} {input : Input}
    (h : x.runtime.printOf cfg pair input = none) :
    (x.writeBack cfg after input).get? pair = x.carry.get? pair := by
  unfold writeBack
  split
  · next t sequence hbody =>
    split
    · next hprint =>
      have hne : pair ≠ t.pair := by
        rintro rfl
        rw [h] at hprint
        cases hprint
      split
      · rw [HashMap.get?_insert, if_neg hne]
      · rfl
    · rfl
  · rfl

/-- A handled print writes back the position of its log, if it has one. -/
theorem get?_writeBack_of_some {x : LinkedRuntime} {after : SourceRuntime} {input : Input}
    {t : Trade} {sequence : Option ℕ} (h : x.runtime.printOf cfg pair input = some (t, sequence)) :
    (x.writeBack cfg after input).get? pair
      = ((after.tradesOf pair).bind (·.lastSeq)).or (x.carry.get? pair) := by
  obtain ⟨hbody, -, -, -, hpair, -⟩ := SourceRuntime.of_printOf h
  subst hpair
  unfold writeBack
  rw [hbody]
  simp only [h, Option.isSome_some, if_true]
  cases (after.tradesOf t.pair).bind (·.lastSeq) with
  | none => rfl
  | some last => rw [HashMap.get?_insert, if_pos rfl]; rfl

theorem total_eq (counter : SourcedTradebook → ℕ) (x : LinkedRuntime) :
    x.total pair counter
      = (x.ended.map (fun s => ((s.tradesOf pair).map counter).getD 0)).sum
        + ((x.runtime.tradesOf pair).map counter).getD 0 := by
  unfold total
  rw [List.map_append, List.sum_append]
  simp

/-- The last of an increasing list is its greatest. -/
theorem le_of_mem_of_getLast? {l : List ℕ} {a last : ℕ} (h : l.Pairwise (· < ·))
    (hlast : l.getLast? = some last) (ha : a ∈ l) : a ≤ last := by
  obtain ⟨init, rfl⟩ := List.getLast?_eq_some_iff.mp hlast
  rcases List.mem_append.mp ha with ha | ha
  · exact ((List.pairwise_append.mp h).2.2 a ha last List.mem_cons_self).le
  · exact (List.mem_singleton.mp ha).le

/-- **The books of a pair's prints**, over all its logs: the sequences applied
increase, the position of the current log and the carry are the last of them,
and what was applied and what was lost fill the range they span. -/
structure Counted (pair : TradingPair) (x : LinkedRuntime) (applied : List ℕ) : Prop where
  /-- The carry is the last sequence applied. -/
  carried : x.carry.get? pair = applied.getLast?
  /-- So is the position of the current log. -/
  position : ∀ tb, x.runtime.tradesOf pair = some tb → tb.lastSeq = applied.getLast?
  /-- The sequences applied increase. -/
  increasing : applied.Pairwise (· < ·)
  /-- The counters count them. -/
  count : x.total pair SourcedTradebook.count = applied.length
  /-- Nothing is lost before the first. -/
  noneLost : applied = [] → x.total pair SourcedTradebook.tradesLost = 0
  /-- Applied and lost fill the range. -/
  filled : ∀ first ∈ applied.head?, ∀ last ∈ applied.getLast?,
    x.total pair SourcedTradebook.count + x.total pair SourcedTradebook.tradesLost + first
      = last + 1

/-- A state that agrees on the logs and the carry of the pair is counted as
well. -/
theorem Counted.of_eq {x y : LinkedRuntime} {applied : List ℕ} (h : Counted pair x applied)
    (hcarry : y.carry.get? pair = x.carry.get? pair)
    (hposition : ∀ tb, y.runtime.tradesOf pair = some tb → tb.lastSeq = x.carry.get? pair)
    (hcount : y.total pair SourcedTradebook.count = x.total pair SourcedTradebook.count)
    (hlost : y.total pair SourcedTradebook.tradesLost = x.total pair SourcedTradebook.tradesLost) :
    Counted pair y applied where
  carried := hcarry.trans h.carried
  position := fun tb htb => (hposition tb htb).trans h.carried
  increasing := h.increasing
  count := hcount.trans h.count
  noneLost := fun hnil => hlost.trans (h.noneLost hnil)
  filled := by
    rw [hcount, hlost]
    exact h.filled

/-- A print past the position of the log is counted. -/
theorem Counted.snoc {x y : LinkedRuntime} {applied : List ℕ} (h : Counted pair x applied)
    {seq : ℕ} (hpast : ∀ last ∈ applied.getLast?, last < seq)
    (hcarry : y.carry.get? pair = some seq)
    (hposition : ∀ tb, y.runtime.tradesOf pair = some tb → tb.lastSeq = some seq)
    (hcount : y.total pair SourcedTradebook.count = x.total pair SourcedTradebook.count + 1)
    (hlost : y.total pair SourcedTradebook.tradesLost
      = x.total pair SourcedTradebook.tradesLost
        + applied.getLast?.elim 0 (fun last => seq - last - 1)) :
    Counted pair y (applied ++ [seq]) where
  carried := by rw [hcarry, List.getLast?_concat]
  position := fun tb htb => by rw [hposition tb htb, List.getLast?_concat]
  increasing := by
    refine List.pairwise_append.mpr ⟨h.increasing, List.pairwise_singleton _ _, ?_⟩
    intro a ha b hb
    obtain rfl : b = seq := List.mem_singleton.mp hb
    cases hlast : applied.getLast? with
    | none =>
      rw [List.getLast?_eq_none_iff.mp hlast] at ha
      cases ha
    | some last =>
      exact (le_of_mem_of_getLast? h.increasing hlast ha).trans_lt (hpast last hlast)
  count := by rw [hcount, h.count, List.length_append, List.length_singleton]
  noneLost := fun hnil => absurd hnil (by simp)
  filled := by
    intro first hfirst last hlast
    rw [List.getLast?_concat] at hlast
    obtain rfl : seq = last := Option.some.inj hlast
    rw [hcount, hlost]
    cases happlied : applied with
    | nil =>
      -- the first print: nothing was lost before it
      rw [happlied] at hfirst
      obtain rfl : seq = first := Option.some.inj hfirst
      have hc := h.count
      rw [happlied, List.length_nil] at hc
      rw [hc, h.noneLost happlied, List.getLast?_nil, Option.elim_none]
      omega
    | cons a rest =>
      rw [← happlied]
      obtain ⟨last, hlast⟩ : ∃ last, applied.getLast? = some last := by
        rw [happlied]
        exact ⟨_, List.getLast?_cons⟩
      have hhead : applied.head? = some first := by
        rw [happlied] at hfirst ⊢
        exact hfirst
      have hfill := h.filled first hhead last hlast
      have hlt := hpast last hlast
      rw [hlast, Option.elim_some]
      omega

/-- No print of the pair comes without a sequence. -/
def Sequenced (pair : TradingPair) : LinkedInput → Prop
  | .input input => ∀ t, input.body = .event (.trade t none) → t.pair ≠ pair
  | .reconnect .. => True

/-- The first connection starts with nothing counted. -/
theorem counted_first (cfg : RuntimeConfig) (pair : TradingPair)
    (carryHasher hasher : RandomState TradingPair) (nowUs : ℕ) (wireSymbols : List String) :
    Counted pair (first cfg carryHasher hasher nowUs wireSymbols) [] := by
  have hlog : ∀ tb,
      (first cfg carryHasher hasher nowUs wireSymbols).runtime.tradesOf pair = some tb →
      tb = (SourcedTradebook.new pair).withLastSeq none :=
    fun tb htb => SourceRuntime.tradesOf_withTradeSeqCarry htb
  have htotal : ∀ counter : SourcedTradebook → ℕ,
      counter ((SourcedTradebook.new pair).withLastSeq none) = 0 →
      (first cfg carryHasher hasher nowUs wireSymbols).total pair counter = 0 := by
    intro counter hzero
    rw [total_eq]
    cases htb : (first cfg carryHasher hasher nowUs wireSymbols).runtime.tradesOf pair with
    | none => rfl
    | some tb =>
      rw [hlog tb htb]
      exact (Nat.zero_add _).trans hzero
  exact ⟨rfl, fun tb htb => by rw [hlog tb htb]; rfl, List.Pairwise.nil, htotal _ rfl,
    fun _ => htotal _ rfl, fun _ hfirst => by cases hfirst⟩

/-- A reconnect starts the log of a pair anew, at the position carried
over. -/
theorem Counted.reconnect {x : LinkedRuntime} {applied : List ℕ} (h : Counted pair x applied)
    (hasher : RandomState TradingPair) (nowUs : ℕ) (wireSymbols : List String) :
    Counted pair (x.step cfg (.reconnect hasher nowUs wireSymbols)).1 applied := by
  have hlog : ∀ tb, ((x.step cfg (.reconnect hasher nowUs wireSymbols)).1.runtime.tradesOf pair)
      = some tb → tb = (SourcedTradebook.new pair).withLastSeq (x.carry.get? pair) :=
    fun tb htb => SourceRuntime.tradesOf_withTradeSeqCarry htb
  have htotal : ∀ counter : SourcedTradebook → ℕ,
      (∀ last, counter ((SourcedTradebook.new pair).withLastSeq last) = 0) →
      (x.step cfg (.reconnect hasher nowUs wireSymbols)).1.total pair counter
        = x.total pair counter := by
    intro counter hzero
    rw [total_eq]
    show x.total pair counter + _ = _
    cases htb : (x.step cfg (.reconnect hasher nowUs wireSymbols)).1.runtime.tradesOf pair with
    | none => rfl
    | some tb =>
      rw [hlog tb htb, Option.map_some, Option.getD_some, hzero, Nat.add_zero]
  exact h.of_eq rfl (fun tb htb => by rw [hlog tb htb]; rfl) (htotal _ fun _ => rfl)
    (htotal _ fun _ => rfl)

/-- An input of the running connection changes the total by what it does to
the log of that connection. -/
theorem total_step_input (x : LinkedRuntime) (input : Input) (counter : SourcedTradebook → ℕ) :
    (x.step cfg (.input input)).1.total pair counter
      = (x.ended.map (fun s => ((s.tradesOf pair).map counter).getD 0)).sum
        + (((x.runtime.step cfg input).1.tradesOf pair).map counter).getD 0 :=
  total_eq counter _

/-- An input that delivers no print of the pair. -/
theorem Counted.quiet {x : LinkedRuntime} {applied : List ℕ} (h : Counted pair x applied)
    {input : Input} (hprint : x.runtime.printOf cfg pair input = none) :
    Counted pair (x.step cfg (.input input)).1 applied := by
  have hlog := SourceRuntime.tradesOf_step_of_none hprint
  refine h.of_eq (get?_writeBack_of_none hprint) (fun tb htb => ?_) ?_ ?_
  · rw [h.position tb (hlog ▸ htb), h.carried]
  · rw [total_step_input, hlog, ← total_eq]
  · rw [total_step_input, hlog, ← total_eq]

/-- A print of the pair: one at or below the position is a duplicate, any
other moves the position and is counted, with the sequences it skips. -/
theorem Counted.print {x : LinkedRuntime} {applied : List ℕ} (h : Counted pair x applied)
    {input : Input} {t : Trade} {seq : ℕ}
    (hprint : x.runtime.printOf cfg pair input = some (t, some seq)) :
    Counted pair (x.step cfg (.input input)).1 (keepPast applied seq) := by
  obtain ⟨-, -, -, -, -, b, hb⟩ := SourceRuntime.of_printOf hprint
  have htb : x.runtime.tradesOf pair = some b.trades := by
    unfold SourceRuntime.tradesOf
    rw [hb]
    rfl
  have hposition := h.position b.trades htb
  have hlog := SourceRuntime.tradesOf_step_of_some hprint
  rw [htb, Option.map_some] at hlog
  have hcarry : (x.step cfg (.input input)).1.carry.get? pair
      = ((b.trades.apply (some seq)).1.lastSeq).or (x.carry.get? pair) := by
    refine (get?_writeBack_of_some hprint).trans ?_
    rw [hlog]
    rfl
  by_cases hdup : ∃ last ∈ b.trades.lastSeq, seq ≤ last
  · -- at or below the position: nothing moves
    obtain ⟨last, hlast, hle⟩ := hdup
    rw [SourcedTradebook.apply_of_le hlast hle] at hlog hcarry
    rw [keepPast_of_le (hposition.symm.trans hlast) hle]
    refine h.of_eq ?_ (fun tb' htb' => ?_) ?_ ?_
    · rw [hcarry, hposition, ← h.carried, Option.or_self]
    · obtain rfl : b.trades = tb' := Option.some.inj (hlog.symm.trans htb')
      rw [hposition, h.carried]
    · rw [total_step_input, hlog, total_eq, htb]
    · rw [total_step_input, hlog, total_eq, htb]
  · push Not at hdup
    obtain ⟨-, hlast, hcount, hlost⟩ := SourcedTradebook.apply_of_lt hdup
    rw [hposition] at hdup hlost
    rw [keepPast_of_lt hdup]
    refine h.snoc hdup ?_ (fun tb' htb' => ?_) ?_ ?_
    · rw [hcarry, hlast]
      rfl
    · rw [← Option.some.inj (hlog.symm.trans htb'), hlast]
    · rw [total_step_input, hlog, total_eq, htb, Option.map_some, Option.getD_some, hcount]
      rfl
    · rw [total_step_input, hlog, total_eq, htb, Option.map_some, Option.getD_some, hlost,
        Option.map_some, Option.getD_some, Nat.add_assoc]

/-- **A turn keeps the count.** -/
theorem Counted.step {x : LinkedRuntime} {seqs : List ℕ} (h : Counted pair x (pastAll seqs))
    {i : LinkedInput} (hseq : Sequenced pair i) :
    Counted pair (x.step cfg i).1 (pastAll (seqs ++ (handledSeq cfg pair x i).toList)) := by
  cases i with
  | reconnect hasher nowUs wireSymbols =>
    rw [show handledSeq cfg pair x (.reconnect hasher nowUs wireSymbols) = none from rfl,
      Option.toList_none, List.append_nil]
    exact h.reconnect hasher nowUs wireSymbols
  | input input =>
    cases hprint : x.runtime.printOf cfg pair input with
    | none =>
      rw [show handledSeq cfg pair x (.input input) = none by simp only [handledSeq, hprint]; rfl,
        Option.toList_none, List.append_nil]
      exact h.quiet hprint
    | some print =>
      obtain ⟨t, sequence⟩ := print
      obtain ⟨hbody, -, -, -, hpair, -⟩ := SourceRuntime.of_printOf hprint
      cases sequence with
      | none => exact absurd hpair (hseq t hbody)
      | some seq =>
        rw [show handledSeq cfg pair x (.input input) = some seq by
          simp only [handledSeq, hprint, Option.bind_some], Option.toList_some, pastAll_concat]
        exact h.print hprint

/-- The count holds along every run. -/
theorem counted_run {x : LinkedRuntime} (h : Counted pair x []) {inputs : List LinkedInput}
    (hseq : ∀ i ∈ inputs, Sequenced pair i) :
    Counted pair ((machine cfg).run x inputs).1 (pastAll (handled cfg pair x inputs)) := by
  unfold handled
  induction inputs using List.reverseRecOn with
  | nil => exact h
  | append_singleton inputs i ih =>
    rw [Machine.run_append_singleton, Machine.collect_append_singleton]
    exact (ih (fun j hj => hseq j (List.mem_append_left _ hj))).step
      (hseq i (List.mem_append_right _ List.mem_cons_self))

/-- **An exact account of a pair's prints**, given the sequences delivered to
its logs: those past all before them are applied, the others are not. -/
structure ExactAccount (pair : TradingPair) (x : LinkedRuntime) (seqs : List ℕ) : Prop where
  /-- The logs apply each print that is past all before it, and no other. -/
  count : x.total pair SourcedTradebook.count = (pastAll seqs).length
  /-- Before the first print nothing is lost. -/
  noneLost : seqs = [] → x.total pair SourcedTradebook.tradesLost = 0
  /-- From the first to the greatest, applied and lost fill the range. -/
  filled : ∀ first ∈ seqs.head?, ∀ greatest ∈ seqs.max?,
    x.total pair SourcedTradebook.count + x.total pair SourcedTradebook.tradesLost
      = greatest - first + 1
  /-- The lost ones are as many as the sequences of the range that were never
  applied, so each of those is counted once. -/
  missing : ∀ first ∈ seqs.head?, ∀ greatest ∈ seqs.max?,
    x.total pair SourcedTradebook.tradesLost
      = ((Finset.Icc first greatest).filter (· ∉ pastAll seqs)).card

theorem Counted.exactAccount {x : LinkedRuntime} {seqs : List ℕ}
    (h : Counted pair x (pastAll seqs)) : ExactAccount pair x seqs := by
  have hfilled : ∀ first ∈ (pastAll seqs).head?, ∀ greatest ∈ (pastAll seqs).getLast?,
      (∀ n ∈ pastAll seqs, first ≤ n ∧ n ≤ greatest) ∧
        x.total pair SourcedTradebook.count + x.total pair SourcedTradebook.tradesLost
          = greatest - first + 1 := by
    intro first hfirst greatest hgreatest
    have hrange : ∀ n ∈ pastAll seqs, first ≤ n ∧ n ≤ greatest := by
      intro n hn
      refine ⟨?_, le_of_mem_of_getLast? h.increasing hgreatest hn⟩
      obtain ⟨rest, hrest⟩ := List.head?_eq_some_iff.mp hfirst
      have hincreasing := h.increasing
      rw [hrest] at hn hincreasing
      rcases List.mem_cons.mp hn with rfl | hn
      · exact le_refl _
      · exact ((List.pairwise_cons.mp hincreasing).1 n hn).le
    have hfill := h.filled first hfirst greatest hgreatest
    have hle := (hrange greatest (List.mem_of_getLast? hgreatest)).1
    exact ⟨hrange, by omega⟩
  rw [head?_pastAll, getLast?_pastAll] at hfilled
  refine ⟨h.count, fun hnil => h.noneLost (by rw [hnil]; rfl),
    fun first hf g hg => (hfilled first hf g hg).2, ?_⟩
  intro first hfirst greatest hgreatest
  obtain ⟨hrange, hfill⟩ := hfilled first hfirst greatest hgreatest
  -- the sequences applied are distinct members of the range
  have happlied : (Finset.Icc first greatest).filter (· ∈ pastAll seqs)
      = (pastAll seqs).toFinset := by
    ext n
    simp only [Finset.mem_filter, Finset.mem_Icc, List.mem_toFinset]
    exact ⟨fun hn => hn.2, fun hn => ⟨hrange n hn, hn⟩⟩
  have hcard := Finset.card_filter_add_card_filter_not (s := Finset.Icc first greatest)
    (· ∈ pastAll seqs)
  rw [happlied, List.toFinset_card_of_nodup (h.increasing.imp ne_of_lt), Nat.card_Icc,
    ← h.count] at hcard
  have hlast : (pastAll seqs).getLast? = some greatest := (getLast?_pastAll seqs).trans hgreatest
  have hle := (hrange greatest (List.mem_of_getLast? hlast)).1
  omega

/-- **Trade losses are counted exactly, across reconnects**: over any number
of linked connections and any delivery of a pair's prints, all of which carry
a sequence. -/
theorem trade_loss_exact (carryHasher hasher : RandomState TradingPair) (nowUs : ℕ)
    (wireSymbols : List String) {inputs : List LinkedInput}
    (hseq : ∀ i ∈ inputs, Sequenced pair i) :
    ExactAccount pair
      ((machine cfg).run (first cfg carryHasher hasher nowUs wireSymbols) inputs).1
      (handled cfg pair (first cfg carryHasher hasher nowUs wireSymbols) inputs) :=
  (counted_run (counted_first cfg pair carryHasher hasher nowUs wireSymbols) hseq).exactAccount

/-! ## A sample source -/

/-- A venue of which only the trades are declared. -/
def tradeVenue : RuntimeConfig := { RuntimeConfig.restVenue with declared := [.trades] }

/-- The arrival of a print of `BTCUSDT` with a sequence. -/
def print (seq : ℕ) : LinkedInput :=
  .input { body := .event (.trade
    { sourceTradeTsUs := seq
      pair := ⟨"BTC", "USDT"⟩
      side := .buy
      amount := ⟨1, 0⟩
      price := ⟨100, 0⟩
      exchange := "binance"
      id := "" } (some seq)) }

/-- The next connection of `BTCUSDT`. -/
def reconnected : LinkedInput := .reconnect RandomState.table 0 ["BTCUSDT"]

/-- Two prints lost in an outage, one replayed after it, and one that follows
in the third connection: of the six sequences from 4 to 9 four are applied and
two lost. -/
theorem trade_loss_exact_of_outage :
    handled tradeVenue ⟨"BTC", "USDT"⟩
        (first tradeVenue RandomState.table RandomState.table 0 ["BTCUSDT"])
        [print 4, print 5, reconnected, print 5, print 8, reconnected, print 9]
      = [4, 5, 5, 8, 9] ∧
    ((machine tradeVenue).run
        (first tradeVenue RandomState.table RandomState.table 0 ["BTCUSDT"])
        [print 4, print 5, reconnected, print 5, print 8, reconnected, print 9]).1.total
      ⟨"BTC", "USDT"⟩ SourcedTradebook.count = 4 ∧
    ((machine tradeVenue).run
        (first tradeVenue RandomState.table RandomState.table 0 ["BTCUSDT"])
        [print 4, print 5, reconnected, print 5, print 8, reconnected, print 9]).1.total
      ⟨"BTC", "USDT"⟩ SourcedTradebook.tradesLost = 2 := by
  have hhandled : handled tradeVenue ⟨"BTC", "USDT"⟩
      (first tradeVenue RandomState.table RandomState.table 0 ["BTCUSDT"])
      [print 4, print 5, reconnected, print 5, print 8, reconnected, print 9]
      = [4, 5, 5, 8, 9] := by
    decide
  have haccount := @trade_loss_exact tradeVenue ⟨"BTC", "USDT"⟩
    RandomState.table RandomState.table 0 ["BTCUSDT"]
    [print 4, print 5, reconnected, print 5, print 8, reconnected, print 9]
    (fun i hi => by
      simp only [List.mem_cons, List.not_mem_nil, or_false] at hi
      obtain rfl | rfl | rfl | rfl | rfl | rfl | rfl := hi
      all_goals first | trivial | (intro t ht; cases ht))
  rw [hhandled] at haccount
  exact ⟨hhandled, haccount.count, haccount.missing 4 rfl 9 rfl⟩

end LinkedRuntime
