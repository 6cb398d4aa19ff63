import Aetelier.SourceRuntime

/-!
# The buffered sink

Snapshots are kept in memory and handed to a flusher a batch at a time. On its
way into the buffer a snapshot loses the data types that are not declared; a
buffer that is full sheds its oldest rows. A flush takes the whole buffer,
takes the snapshots of the batch apart into one list per data type, and clears
the buffer only if the flusher returns `Ok`.

Funding rates, open interest and settlements are carried forward from row to
row, so the lists of the first two keep one record per provenance key – the
exchange, the pair, the epoch of the connection and its receive counter – and
that of the third one per settlement. A record whose counter is zero has no
provenance and is always kept.
-/

/-- The records with a key not seen before, each key once; a record without a
key is always kept. -/
def dedupBy {α κ : Type} [DecidableEq κ] (key : α → Option κ) : List κ → List α → List α
  | _, [] => []
  | seen, a :: rest =>
    match key a with
    | none => a :: dedupBy key seen rest
    | some k => if k ∈ seen then dedupBy key seen rest else a :: dedupBy key (k :: seen) rest

/-- The provenance of a record: exchange, canonical pair, epoch, receive
counter. -/
abbrev ProvenanceKey := String × String × ℕ × ℕ

/-- The key of a funding rate. -/
def FundingRate.provenance (fr : FundingRate) : Option ProvenanceKey :=
  if fr.recvSeq = 0 then none
  else some (fr.exchange, fr.pair.toCanonical, fr.connEpochUs, fr.recvSeq)

/-- The key of an open-interest record. -/
def OpenInterest.provenance (oi : OpenInterest) : Option ProvenanceKey :=
  if oi.recvSeq = 0 then none
  else some (oi.exchange, oi.pair.toCanonical, oi.connEpochUs, oi.recvSeq)

/-- The key of a settlement. -/
def FundingSettlement.settlementKey (fs : FundingSettlement) : Option (String × String × ℕ) :=
  some (fs.exchange, fs.pair.toCanonical, fs.fundingTimeUs)

/-- **A batch taken apart.** -/
structure DecomposedSnapshots where
  /-- The order books. -/
  orderbooks : List Orderbook
  /-- The trades. -/
  trades : List Trade
  /-- The liquidations. -/
  liquidations : List Liquidation
  /-- The funding rates. -/
  fundingRates : List FundingRate
  /-- The open-interest records. -/
  openInterests : List OpenInterest
  /-- The settlements. -/
  fundingSettlements : List FundingSettlement

/-- `decompose_snapshots`. The keys seen are kept over the whole batch. -/
def decomposeSnapshots (snapshots : List MarketSnapshot) : DecomposedSnapshots where
  orderbooks := snapshots.filterMap MarketSnapshot.orderbook
  trades := snapshots.flatMap MarketSnapshot.trades
  liquidations := snapshots.flatMap MarketSnapshot.liquidations
  fundingRates := dedupBy FundingRate.provenance [] (snapshots.flatMap MarketSnapshot.fundingRate)
  openInterests := dedupBy OpenInterest.provenance []
    (snapshots.flatMap MarketSnapshot.openInterest)
  fundingSettlements := dedupBy FundingSettlement.settlementKey []
    (snapshots.flatMap MarketSnapshot.fundingSettlements)

/-! ## The sink -/

/-- The most snapshots a buffer holds before it sheds. -/
def maxBufferedSnapshots : ℕ := 200000

/-- How many it sheds at a time. -/
def overflowDropChunk : ℕ := 8192

/-- A snapshot without its undeclared data types. Settlements are not among
the data types that are declared. -/
def MarketSnapshot.strip (declared : List DeclaredDatatype) (s : MarketSnapshot) :
    MarketSnapshot where
  tsUs := s.tsUs
  orderbook := if DeclaredDatatype.orderbook ∈ declared then s.orderbook else none
  trades := if DeclaredDatatype.trades ∈ declared then s.trades else []
  liquidations := if DeclaredDatatype.liquidations ∈ declared then s.liquidations else []
  fundingRate := if DeclaredDatatype.fundingRates ∈ declared then s.fundingRate else []
  openInterest := if DeclaredDatatype.openInterest ∈ declared then s.openInterest else []
  fundingSettlements := s.fundingSettlements

/-- How many records `strip` takes. -/
def MarketSnapshot.stripped (declared : List DeclaredDatatype) (s : MarketSnapshot) : ℕ :=
  (if DeclaredDatatype.orderbook ∈ declared then 0 else s.orderbook.toList.length)
    + (if DeclaredDatatype.trades ∈ declared then 0 else s.trades.length)
    + (if DeclaredDatatype.liquidations ∈ declared then 0 else s.liquidations.length)
    + (if DeclaredDatatype.fundingRates ∈ declared then 0 else s.fundingRate.length)
    + if DeclaredDatatype.openInterest ∈ declared then 0 else s.openInterest.length

/-- **A buffered sink.** An emission is known by its number, which the code
does not keep. -/
structure BufferedSink where
  /-- The directory it writes to. -/
  outputDir : String
  /-- The data types it writes. -/
  declared : List DeclaredDatatype
  /-- The snapshots, oldest first. -/
  buffer : List (ℕ × MarketSnapshot)
  /-- How many snapshots were emitted. -/
  eventsEmitted : ℕ
  /-- Bytes written over all flushes. -/
  bytesWritten : ℕ
  /-- Files written over all flushes. -/
  filesWritten : ℕ
  /-- How many flushes failed. -/
  flushFailures : ℕ
  /-- How many snapshots were shed. -/
  droppedSnapshots : ℕ
  /-- How many records were stripped. -/
  undeclaredStripped : ℕ

namespace BufferedSink

/-- `BufferedSink::new`, with the data types declared. -/
def new (outputDir : String) (declared : List DeclaredDatatype) : BufferedSink :=
  ⟨outputDir, declared, [], 0, 0, 0, 0, 0, 0⟩

/-- `emit_snapshot`: strip, shed if the buffer is full, push. -/
def emitSnapshot (s : BufferedSink) (snapshot : MarketSnapshot) : BufferedSink :=
  let drop := if maxBufferedSnapshots ≤ s.buffer.length then min overflowDropChunk s.buffer.length
    else 0
  { s with
    eventsEmitted := s.eventsEmitted + 1
    undeclaredStripped := s.undeclaredStripped + snapshot.stripped s.declared
    droppedSnapshots := s.droppedSnapshots + drop
    buffer := s.buffer.drop drop ++ [(s.eventsEmitted, snapshot.strip s.declared)] }

/-- The end of a flush whose flusher returned `Ok`: the buffer is cleared and
the report added. -/
def flushed (s : BufferedSink) (bytes files : ℕ) : BufferedSink :=
  { s with
    buffer := []
    bytesWritten := s.bytesWritten + bytes
    filesWritten := s.filesWritten + files }

/-- The end of a flush whose flusher returned `Err`: the buffer is kept. -/
def flushFailed (s : BufferedSink) : BufferedSink :=
  { s with flushFailures := s.flushFailures + 1 }

end BufferedSink
