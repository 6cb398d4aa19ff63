import Aetelier.SourcedOrderbook
import Aetelier.HashMap
import Aetelier.Trace

/-!
# The reconstruction runtime

One runtime drives the books of one socket. Each pair is in one of two
phases: it buffers its deltas while a seed is awaited, or applies them as
they come. A seed is applied, the buffered deltas it does not cover are
replayed, and the pair goes live; a gap puts a pair with a seeder back to
buffering and asks for another seed, up to a budget, and otherwise ends the
run so that the caller reconnects.

The runtime is a machine: a state, the inputs of its event loop – decoded
events, results of seed fetches, the deadline of an in-band seed, the end of
the event stream, shutdown – and the effects of each. Effects are what the
code does to the outside, and also what it does to a book and to a buffer
(`Effect.applied`, `Effect.droppedOldest`), so that properties of a run can
be stated on its trace. Almost everything happens to one pair at a time:
the functions on `PairBook` are the bodies of `handle_event` and
`apply_seed`, and `SourceRuntime.step` routes inputs to them.

Left out is what no book depends on: log lines, the feed set behind
`note_live` and `note_resubscribing` (kept as effects), the cadence sweep,
the heartbeat, and the trade-sequence carry of the worker. A seed fetch is a
detached task; one is in flight for a pair exactly while its `seeding` flag
is set, and its result is an input. The clock is read once per input.
-/

/-! ## Events and effects -/

/-- The datatypes a configuration declares. -/
inductive DeclaredDatatype where
  | orderbook
  | trades
  | liquidations
  | fundingRates
  | openInterest
deriving DecidableEq, Repr

/-- The datatypes of the feed set. -/
inductive FeedDatatype where
  | orders
  | trades
  | fundingRates
  | openInterest
deriving DecidableEq, Repr

/-- A decoded event of the socket. -/
inductive DomainEvent where
  /-- A book snapshot or delta. -/
  | book (delta : NormalizedDelta)
  /-- A trade print, with the venue's sequence if any. -/
  | trade (trade : Trade) (sequence : Option ℕ)
  /-- Messages provably left the socket undelivered. -/
  | connectionGap (dropped : ℕ)
  | fundingRate (fr : FundingRate)
  | openInterest (oi : OpenInterest)
  | fundingSettlement (fs : FundingSettlement)

/-- An event handed downstream. -/
inductive ReconstructedEvent where
  | book (pair : TradingPair) (tsUs : ℕ) (book : Orderbook)
  | trade (trade : Trade)
  | fundingRate (fr : FundingRate)
  | openInterest (oi : OpenInterest)
  | fundingSettlement (fs : FundingSettlement)

/-- Why a run ended. -/
inductive RuntimeOutcome where
  | finished
  | resyncRequired
deriving DecidableEq, Repr

/-- The counters a runtime bumps. -/
inductive Metric where
  | gaps
  | resyncs
  | checksumFail
  | reseedExhausted
  | deltasMissed (n : ℕ)
  | undeclaredDropped
  | tradeGaps
  | tradesLost (n : ℕ)
  | tradeLossExact
  | seedsAbandoned (n : ℕ)
deriving DecidableEq, Repr

/-- **What a run does**, step by step. -/
inductive Effect where
  /-- An update was applied to the book of a pair, with this result. -/
  | applied (pair : TradingPair) (delta : NormalizedDelta)
      (result : Except ResyncNeeded BookOutput)
  /-- The oldest buffered delta of a pair was dropped. -/
  | droppedOldest (pair : TradingPair) (delta : NormalizedDelta)
  /-- An event was sent downstream. -/
  | sent (event : ReconstructedEvent)
  /-- A seed fetch was started for a pair. -/
  | spawnedSeed (pair : TradingPair) (wire : String)
  | noteLive (pair : TradingPair) (datatype : FeedDatatype)
  | noteResubscribing (pair : TradingPair)
  | metric (m : Metric)

/-- The events a run sends downstream. -/
def Effect.events (effects : List Effect) : List ReconstructedEvent :=
  effects.filterMap (fun
    | .sent ev => some ev
    | _ => none)

/-! ## Trades -/

/-- The state of a trade log. -/
inductive TradeBookState where
  | empty
  | synced
  | closed
deriving DecidableEq, Repr

/-- What appending a print was. -/
inductive TradeApply where
  | applied
  | duplicate
  | gappedApplied (missed : ℕ)
deriving DecidableEq, Repr

/-- **A trade log**: its continuity and its counters. -/
structure SourcedTradebook where
  /-- Pair of the log. -/
  pair : TradingPair
  /-- Last sequence applied. -/
  lastSeq : Option ℕ
  /-- State of the log. -/
  state : TradeBookState
  /-- Prints appended. -/
  count : ℕ
  /-- Continuity breaks. -/
  gapEvents : ℕ
  /-- Prints lost. -/
  tradesLost : ℕ
deriving DecidableEq, Repr

namespace SourcedTradebook

/-- An empty log. -/
def new (pair : TradingPair) : SourcedTradebook := ⟨pair, none, .empty, 0, 0, 0⟩

/-- Append a print. -/
def apply (tb : SourcedTradebook) (sequence : Option ℕ) : SourcedTradebook × TradeApply :=
  let append (tb : SourcedTradebook) : SourcedTradebook :=
    { tb with
      lastSeq := sequence.or tb.lastSeq
      count := tb.count + 1
      state := .synced }
  match sequence, tb.lastSeq with
  | some seq, some last =>
    if seq ≤ last then (tb, .duplicate)
    else if last + 1 < seq then
      (append { tb with
          gapEvents := tb.gapEvents + 1
          tradesLost := tb.tradesLost + (seq - last - 1) },
        .gappedApplied (seq - last - 1))
    else (append tb, .applied)
  | _, _ => (append tb, .applied)

end SourcedTradebook

/-! ## One pair -/

/-- Cap on the buffered deltas of a pair. -/
def maxBufferedDeltas : ℕ := 100000

/-- Cap on consecutive re-seeds of a pair. -/
def maxReseeds : ℕ := 8

/-- The wait for an in-band seed, in microseconds. -/
def inBandSeedDeadlineUs : ℕ := 10000000

/-- Where the deltas of a pair go. -/
inductive Phase where
  /-- Into a buffer, until the seed arrives. -/
  | buffering (buffer : List NormalizedDelta)
  /-- To the book. -/
  | passthrough

/-- A seed is awaited. -/
def Phase.isBuffering : Phase → Bool
  | buffering _ => true
  | passthrough => false

/-- The buffered deltas. -/
def Phase.buffered : Phase → List NormalizedDelta
  | buffering buffer => buffer
  | passthrough => []

theorem Phase.buffered_buffering (buffer : List NormalizedDelta) :
    (Phase.buffering buffer).buffered = buffer := rfl

/-- **The reconstruction state of a pair.** -/
structure PairBook where
  /-- Wire symbol, for the seeder. -/
  wire : String
  /-- The book. -/
  book : SourcedOrderbook
  /-- The trade log. -/
  trades : SourcedTradebook
  /-- Where deltas go. -/
  phase : Phase
  /-- When buffering began. -/
  bufferingSince : Option ℕ
  /-- The buffer has dropped deltas. -/
  bufferOverflowed : Bool
  /-- A seed fetch is in flight. -/
  seeding : Bool
  /-- Re-seeds since the last clean reconcile. -/
  reseeds : ℕ
  /-- Exchange time of the last applied update, `0` if unknown. -/
  lastTs : ℕ
  /-- Receipt time of the last applied update. -/
  lastLocalTs : ℕ
  /-- Round trip at the last applied update. -/
  lastRtt : ℕ

/-- **What does not change during a run.** -/
structure RuntimeConfig where
  /-- The third-party crates. -/
  crates : Crates
  /-- The Unicode case tables. -/
  unicode : Unicode
  /-- Name of the exchange. -/
  exchange : String
  /-- Wire spelling of the venue. -/
  codec : SymbolCodec
  /-- How the books are reconstructed. -/
  model : ReconstructionModel
  /-- What a gap asks for. -/
  recovery : RecoveryAction
  /-- The configured depth of the books. -/
  maxDepth : Option ℕ
  /-- The datatypes declared. -/
  declared : List DeclaredDatatype
  /-- A seeder is attached. -/
  hasSeeder : Bool

namespace RuntimeConfig

/-- The books are seeded over REST. -/
def needsRest (cfg : RuntimeConfig) : Bool :=
  cfg.model.needsRest && decide (.orderbook ∈ cfg.declared)

/-- The seed races the deltas. -/
def seedsOutOfBand (cfg : RuntimeConfig) : Bool :=
  cfg.model.seedsOutOfBand && decide (.orderbook ∈ cfg.declared)

end RuntimeConfig

/-- An update with its symbol in canonical form. -/
def NormalizedDelta.canonical (delta : NormalizedDelta) (pair : TradingPair) : NormalizedDelta :=
  { delta with symbol := pair.toCanonical }

/-- What handling an input did to a pair. -/
structure Handled where
  /-- The pair afterwards. -/
  pairBook : PairBook
  /-- The effects. -/
  effects : List Effect
  /-- The socket must be reconnected. -/
  resync : Bool := false

namespace PairBook

variable (cfg : RuntimeConfig) (pair : TradingPair) (nowUs : ℕ)

/-- A new pair. -/
def new (wire : String) : PairBook where
  wire := wire
  book := (SourcedOrderbook.new pair cfg.model cfg.recovery).armConfigDepth cfg.maxDepth
  trades := SourcedTradebook.new pair
  phase := if cfg.seedsOutOfBand then .buffering [] else .passthrough
  bufferingSince := if cfg.seedsOutOfBand then some nowUs else none
  bufferOverflowed := false
  seeding := false
  reseeds := 0
  lastTs := 0
  lastLocalTs := 0
  lastRtt := 0

/-- Note the timestamps of an applied update. -/
def stamp (b : PairBook) (delta : NormalizedDelta) : PairBook :=
  { b with
    lastTs := if 0 < delta.sourceOrderbookTsUs then delta.sourceOrderbookTsUs else b.lastTs
    lastLocalTs := delta.localOrderbookTsUs
    lastRtt := delta.sourceOrderbookRttUs }

/-- The timestamp of an emitted book: the last exchange time, or the clock
where the venue gives none. -/
def bookTs (b : PairBook) : ℕ := if 0 < b.lastTs then b.lastTs else nowUs

/-- The levels of a side, best first. -/
def captureSide (side : OrderSide) (levels : List (Decimal × Decimal)) : List Level :=
  levels.mapIdx (fun i l => ⟨i, side, l.1, l.2⟩)

/-- The book of a pair, as it is emitted. -/
def capture (b : PairBook) : Orderbook :=
  { Orderbook.fromLevels 0 (b.bookTs nowUs) pair cfg.exchange
      (captureSide .bids (b.book.book.topBids b.book.book.bids.len))
      (captureSide .asks (b.book.book.topAsks b.book.book.asks.len)) with
    sourceOrderbookTsUs := b.lastTs
    localOrderbookTsUs := b.lastLocalTs
    sourceOrderbookRttUs := b.lastRtt }

/-- Emit the book of a pair. -/
def emitBook (b : PairBook) : Effect :=
  .sent (.book pair (b.bookTs nowUs) (b.capture cfg pair nowUs))

/-- Start a seed fetch, unless one is in flight or the budget is spent. -/
def requestReseed (b : PairBook) : PairBook × List Effect :=
  if cfg.hasSeeder ∧ b.seeding = false ∧ b.reseeds < maxReseeds then
    ({ b with seeding := true, reseeds := b.reseeds + 1 }, [.spawnedSeed pair b.wire])
  else (b, [])

/-- A gap may be answered with another seed. -/
def canReseed (b : PairBook) : Bool := cfg.hasSeeder ∧ b.reseeds < maxReseeds

/-- The counters of a gap. -/
def gapMetrics (e : ResyncNeeded) : List Effect :=
  [.metric .gaps] ++ (if e.reason.isChecksum then [.metric .checksumFail] else [])
    ++ [.metric .resyncs]

/-- A delta of a live pair: apply and emit, or go back to buffering it, or
reconnect. -/
def applyLive (b : PairBook) (delta : NormalizedDelta) : Handled :=
  match b.book.apply cfg.crates cfg.unicode delta with
  | (book, .ok output) =>
    let b' := ({ b with book := book }).stamp delta
    { pairBook := b'
      effects := [.applied pair delta (.ok output), b'.emitBook cfg pair nowUs,
        .noteLive pair .orders] }
  | (book, .error e) =>
    let b' := { b with book := book }
    if b'.canReseed cfg then
      let r := ({ b' with
        phase := .buffering [delta]
        bufferingSince := some nowUs }).requestReseed cfg pair
      { pairBook := r.1
        effects := .applied pair delta (.error e) :: gapMetrics e
          ++ .noteResubscribing pair :: r.2 }
    else
      { pairBook := b'
        effects := .applied pair delta (.error e) :: gapMetrics e
        resync := true }

/-- A delta of a buffering pair: the oldest goes if the buffer is full. -/
def pushBuffered (b : PairBook) (buffer : List NormalizedDelta) (delta : NormalizedDelta) :
    Handled :=
  if maxBufferedDeltas ≤ buffer.length then
    { pairBook := { b with phase := .buffering (buffer.tail ++ [delta]), bufferOverflowed := true }
      effects := (buffer.take 1).map (.droppedOldest pair) }
  else
    { pairBook := { b with phase := .buffering (buffer ++ [delta]) }
      effects := [] }

/-- What an overlong buffer has to drop, the oldest first. -/
def excessOf (buffer : List NormalizedDelta) : List NormalizedDelta :=
  buffer.take (buffer.length - maxBufferedDeltas)

/-- A buffer cut to its cap. -/
def capBuffer (buffer : List NormalizedDelta) : List NormalizedDelta :=
  buffer.drop (buffer.length - maxBufferedDeltas)

/-- How a replay ended. -/
inductive Replay where
  | clean
  | reseed
  | resync
deriving DecidableEq

/-- Replay buffered deltas after a seed of id `snapId`: those it covers are
skipped, the others applied and emitted, up to the first that does not
apply. -/
def replay (snapId : ℕ) (b : PairBook) :
    List NormalizedDelta → PairBook × List Effect × Replay
  | [] => ({ b with reseeds := 0 }, [], .clean)
  | delta :: rest =>
    if delta.updateId ≤ snapId then replay snapId b rest
    else match b.book.apply cfg.crates cfg.unicode delta with
      | (book, .ok output) =>
        let b' := ({ b with book := book }).stamp delta
        let r := replay snapId b' rest
        (r.1, .applied pair delta (.ok output) :: b'.emitBook cfg pair nowUs :: r.2.1, r.2.2)
      | (book, .error e) =>
        let b' := { b with book := book }
        if b'.canReseed cfg then
          ({ b' with
              phase := .buffering (capBuffer (delta :: rest))
              bufferingSince := some nowUs },
            .applied pair delta (.error e) :: gapMetrics e
              ++ (excessOf (delta :: rest)).map (.droppedOldest pair), .reseed)
        else
          (b', .applied pair delta (.error e) :: gapMetrics e ++ [.metric .reseedExhausted],
            .resync)

/-- Leave the buffering phase. -/
def goLive (b : PairBook) : PairBook :=
  { b with phase := .passthrough, bufferingSince := none, bufferOverflowed := false }

/-- **Seed a pair**: apply the snapshot, emit, replay the buffer. -/
def applySeed (b : PairBook) (seed : NormalizedDelta) : Handled :=
  let snapshot := seed.canonical pair
  match b.book.apply cfg.crates cfg.unicode snapshot with
  | (book, .error e) =>
    let b' := { b with book := book }
    if b'.canReseed cfg then
      let r := b'.requestReseed cfg pair
      { pairBook := r.1
        effects := .applied pair snapshot (.error e) :: .metric .resyncs
          :: .noteResubscribing pair :: r.2 }
    else
      { pairBook := b'
        effects := [.applied pair snapshot (.error e), .metric .resyncs, .metric .reseedExhausted]
        resync := true }
  | (book, .ok output) =>
    let b' := ({ b with book := book }).stamp snapshot
    let r := b'.goLive.replay cfg pair nowUs seed.updateId b.phase.buffered
    let effects := .applied pair snapshot (.ok output) :: b'.emitBook cfg pair nowUs :: r.2.1
      ++ [.noteLive pair .orders]
    match r.2.2 with
    | .reseed =>
      let r' := r.1.requestReseed cfg pair
      { pairBook := r'.1, effects := effects ++ .noteResubscribing pair :: r'.2 }
    | .clean => { pairBook := r.1, effects := effects }
    | .resync => { pairBook := r.1, effects := effects, resync := true }

/-- A book event of a pair, its symbol in canonical form: a snapshot seeds a
buffering pair, everything else goes where the phase says. -/
def onBook (b : PairBook) (delta : NormalizedDelta) : Handled :=
  match b.phase with
  | .buffering buffer =>
    if delta.isSnapshot then b.applySeed cfg pair nowUs delta else b.pushBuffered pair buffer delta
  | .passthrough => b.applyLive cfg pair nowUs delta

/-- The result of a seed fetch. A failed one is retried within the budget,
and the buffer is kept. -/
def onFetched (b : PairBook) (result : Except String NormalizedDelta) : Handled :=
  let b' := { b with seeding := false }
  match result with
  | .ok seed => b'.applySeed cfg pair nowUs seed
  | .error _ =>
    if b'.reseeds < maxReseeds then
      let r := b'.requestReseed cfg pair
      { pairBook := r.1, effects := .metric .resyncs :: r.2 }
    else
      { pairBook := b', effects := [.metric .resyncs, .metric .reseedExhausted], resync := true }

/-- A trade of a pair: its log, its counters, and the print itself. -/
def onTrade (b : PairBook) (trade : Trade) (sequence : Option ℕ) : Handled :=
  let (trades, result) := b.trades.apply sequence
  { pairBook := { b with trades := trades }
    effects := (if sequence.isSome then [.metric .tradeLossExact] else [])
      ++ (match result with
        | .gappedApplied missed => [.metric .tradeGaps, .metric (.tradesLost missed)]
        | _ => [])
      ++ [.sent (.trade trade), .noteLive trade.pair .trades] }

end PairBook

/-! ## The runtime -/

/-- **The state of a run.** -/
structure SourceRuntime where
  /-- The pairs of the socket. -/
  books : HashMap TradingPair PairBook
  /-- Seed fetches in flight. -/
  inFlight : ℕ
  /-- The event stream has ended. -/
  eventsDone : Bool
  /-- Set once the loop has ended. -/
  outcome : Option RuntimeOutcome

/-- What the event loop waits for. -/
inductive InputBody where
  /-- A decoded event. -/
  | event (ev : DomainEvent)
  /-- The event stream ended. -/
  | eventsClosed
  /-- A seed fetch returned. -/
  | fetched (pair : TradingPair) (result : Except String NormalizedDelta)
  /-- The tick that checks in-band seeds. -/
  | seedDeadline
  /-- Shutdown was signalled. -/
  | shutdown

/-- **An input of the event loop**, the clock it finds, and – where the
receiver of the output hangs up – how many events it still takes. -/
structure Input where
  /-- The input. -/
  body : InputBody
  /-- The clock. -/
  nowUs : ℕ := 0
  /-- What the receiver still takes. -/
  capacity : Option ℕ := none

namespace SourceRuntime

variable (cfg : RuntimeConfig)

/-- The pairs of a new runtime; a symbol that does not decode is skipped. -/
def new (hasher : RandomState TradingPair) (nowUs : ℕ) (wireSymbols : List String) :
    HashMap TradingPair PairBook :=
  wireSymbols.foldl (fun books wire =>
    match cfg.codec.decode cfg.unicode wire with
    | none => books
    | some pair => books.insert pair (PairBook.new cfg pair nowUs wire)) (HashMap.empty hasher)

/-- **The state before the loop**: the pairs, and the first seed fetches. A
runtime that needs a seed and has no seeder does not buffer for one. -/
def start (hasher : RandomState TradingPair) (nowUs : ℕ) (wireSymbols : List String) :
    SourceRuntime × List Effect :=
  let books := new cfg hasher nowUs wireSymbols
  if cfg.needsRest then
    if cfg.hasSeeder then
      (⟨books.mapValues (fun _ b => { b with seeding := true }), books.keys.length, false, none⟩,
        books.iter.map (fun pb => .spawnedSeed pb.1 pb.2.wire))
    else (⟨books.mapValues (fun _ b => { b with phase := .passthrough }), 0, false, none⟩, [])
  else (⟨books, 0, false, none⟩, [])

/-- Hand an input to the pair it is for. -/
def onPair (s : SourceRuntime) (pair : TradingPair) (handle : PairBook → Handled) :
    SourceRuntime × List Effect :=
  match s.books.get? pair with
  | none => (s, [])
  | some b =>
    let r := handle b
    ({ s with
        books := s.books.insert pair r.pairBook
        inFlight := s.inFlight + r.effects.countP (fun e => e matches .spawnedSeed ..)
        outcome := if r.resync then some .resyncRequired else s.outcome },
      r.effects)

/-- Drop an event of an undeclared datatype. -/
def declaredOnly (s : SourceRuntime) (datatype : DeclaredDatatype)
    (handled : SourceRuntime × List Effect) : SourceRuntime × List Effect :=
  if datatype ∈ cfg.declared then handled else (s, [.metric .undeclaredDropped])

/-- A connection-level loss: every book is gapped and its buffer dropped, and
the run ends. -/
def onConnectionGap (s : SourceRuntime) (dropped : ℕ) : SourceRuntime × List Effect :=
  ({ s with
      books := s.books.mapValues (fun _ b =>
        { b with book := b.book.forceGap, phase := .passthrough, bufferingSince := none })
      outcome := some .resyncRequired },
    [.metric .gaps, .metric .resyncs, .metric (.deltasMissed dropped)])

/-- **Route one event.** -/
def handleEvent (s : SourceRuntime) (nowUs : ℕ) : DomainEvent → SourceRuntime × List Effect
  | .book delta => s.declaredOnly cfg .orderbook
    (match cfg.codec.decode cfg.unicode delta.symbol with
      | none => (s, [])
      | some pair => s.onPair pair (fun b => b.onBook cfg pair nowUs (delta.canonical pair)))
  | .connectionGap dropped => s.onConnectionGap dropped
  | .trade trade sequence => s.declaredOnly cfg .trades
    (s.onPair trade.pair (fun b => b.onTrade trade sequence))
  | .fundingRate fr => s.declaredOnly cfg .fundingRates
    (s, [.sent (.fundingRate fr), .noteLive fr.pair .fundingRates])
  | .openInterest oi => s.declaredOnly cfg .openInterest
    (s, [.sent (.openInterest oi), .noteLive oi.pair .openInterest])
  | .fundingSettlement fs => s.declaredOnly cfg .fundingRates
    (s, [.sent (.fundingSettlement fs)])

/-- A seed fetch is in flight for a pair. -/
def fetching (s : SourceRuntime) (pair : TradingPair) : Bool :=
  (s.books.get? pair).any (·.seeding)

/-- An in-band seed is overdue. -/
def inBandSeedExpired (s : SourceRuntime) (nowUs : ℕ) : Bool :=
  s.books.values.any (fun b => b.phase.isBuffering &&
    b.bufferingSince.any (fun since => inBandSeedDeadlineUs < nowUs - since))

/-- What an input does, before the loop looks whether it is over. -/
def handle (s : SourceRuntime) (nowUs : ℕ) : InputBody → SourceRuntime × List Effect
  | .event ev => if s.eventsDone then (s, []) else s.handleEvent cfg nowUs ev
  | .eventsClosed => ({ s with eventsDone := true }, [])
  | .fetched pair result =>
    if s.fetching pair then
      { s with inFlight := s.inFlight - 1 }.onPair pair
        (fun b => b.onFetched cfg pair nowUs result)
    else (s, [])
  | .seedDeadline =>
    if cfg.seedsOutOfBand ∧ cfg.needsRest = false ∧ s.inBandSeedExpired nowUs then
      ({ s with outcome := some .resyncRequired }, [.metric .resyncs])
    else (s, [])
  | .shutdown => ({ s with outcome := some .finished }, [])

/-- The loop ends when the events have ended and no fetch is in flight. -/
def settle (s : SourceRuntime) : SourceRuntime :=
  if s.outcome = none ∧ s.eventsDone ∧ s.inFlight = 0 then { s with outcome := some .finished }
  else s

/-- The fetches abandoned by a run that ends. -/
def abandoned (s : SourceRuntime) : List Effect :=
  if s.outcome.isSome ∧ 0 < s.inFlight then [.metric (.seedsAbandoned s.inFlight)] else []

/-- An event was sent downstream. -/
def isSent : Effect → Bool
  | .sent _ => true
  | _ => false

/-- The effects up to the first event the receiver does not take. -/
def takeSends (capacity : ℕ) : List Effect → List Effect
  | [] => []
  | e :: effects =>
    if isSent e then
      match capacity with
      | 0 => []
      | n + 1 => e :: takeSends n effects
    else e :: takeSends capacity effects

/-- **One turn of the loop.** A run that is over does nothing more, and a
receiver that hangs up ends it at the event it does not take. -/
def step (s : SourceRuntime) (input : Input) : SourceRuntime × List Effect :=
  if s.outcome.isSome then (s, [])
  else
    let r := s.handle cfg input.nowUs input.body
    let done := r.1.settle
    match input.capacity with
    | none => (done, r.2 ++ done.abandoned)
    | some n =>
      if (r.2.filter isSent).length ≤ n then (done, r.2 ++ done.abandoned)
      else ({ done with outcome := some .finished }, takeSends n r.2)

/-- **The runtime as a machine.** -/
def machine : Machine SourceRuntime Input Effect := ⟨step cfg⟩

end SourceRuntime
