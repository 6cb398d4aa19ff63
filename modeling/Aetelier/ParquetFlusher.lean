import Aetelier.LeafFaults
import Aetelier.BufferedSink
import Mathlib.Data.List.Infix

/-!
# Flushing a batch, datatype by datatype

`flush_snapshots` takes a batch apart and writes the data types it has rows of
one after the other, each through `persist_leaf` into a leaf of its own. The
first that fails ends the flush, and the sink keeps its buffer: the next flush
writes the whole batch again, with whatever has been emitted since.

Any step of any of these calls may fail.

Beside the sink and its leaves the state holds three things no code keeps: what
was emitted, the batches that were tried and how that went, and how much had
been emitted when a flush last returned `Ok`. A file the sink writes is marked
with the flush that wrote it, a file it found in a leaf with none.
-/

/-! ## Strings and paths -/

namespace Str

/-- `str::contains`. -/
def contains (pattern s : String) : Bool := decide (pattern.toList <:+: s.toList)

/-- The loop of `replace`, with how much of an occurrence is still to pass. -/
def replaceFrom (pattern new : List Char) : ℕ → List Char → List Char
  | _, [] => []
  | k + 1, _ :: cs => replaceFrom pattern new k cs
  | 0, d :: cs =>
    if pattern <+: d :: cs then new ++ replaceFrom pattern new (pattern.length - 1) cs
    else d :: replaceFrom pattern new 0 cs

/-- `str::replace`, of a pattern that is not empty. -/
def replace (pattern new s : String) : String :=
  String.ofList (replaceFrom pattern.toList new.toList 0 s.toList)

/-- `Path::join` with a relative path. -/
def joinPath (dir name : String) : String :=
  if dir.toList.getLast?.all (· = '/') then dir ++ name else dir ++ "/" ++ name

/-- `Path::extension` of a file name: what follows the last point, unless the
name begins with it. -/
def extension (name : String) : Option String :=
  match name.toList.reverse.span (· ≠ '.') with
  | (_, []) => none
  | (_, [_]) => none
  | (ext, _) => some (String.ofList ext.reverse)

end Str

/-! ## A batch and its files -/

/-- The data types a leaf may be of, in the order they are written. -/
inductive LeafDatatype where
  | orderbooks
  | trades
  | liquidations
  | fundingRates
  | openInterests
  | fundingSettlements
deriving DecidableEq, Repr

namespace LeafDatatype

/-- All of them. -/
def all : List LeafDatatype :=
  [orderbooks, trades, liquidations, fundingRates, openInterests, fundingSettlements]

/-- The name of the leaf. -/
def name : LeafDatatype → String
  | orderbooks => "orderbooks"
  | trades => "trades"
  | liquidations => "liquidations"
  | fundingRates => "funding_rates"
  | openInterests => "open_interests"
  | fundingSettlements => "funding_settlements"

theorem mem_all (datatype : LeafDatatype) : datatype ∈ all := by
  cases datatype <;> decide

theorem name_injective : Function.Injective name := by
  intro a b
  cases a <;> cases b <;> decide

end LeafDatatype

/-- The rows a batch has of a data type. -/
def DecomposedSnapshots.rows (d : DecomposedSnapshots) : LeafDatatype → ℕ
  | .orderbooks => d.orderbooks.length
  | .trades => d.trades.length
  | .liquidations => d.liquidations.length
  | .fundingRates => d.fundingRates.length
  | .openInterests => d.openInterests.length
  | .fundingSettlements => d.fundingSettlements.length

/-- **A flush**: its number, and the batch. -/
@[ext] structure FlushTag where
  /-- How many flushes were tried before. -/
  number : ℕ
  /-- The batch. -/
  batch : List (ℕ × MarketSnapshot)

/-- The snapshots of the batch. -/
def FlushTag.snapshots (tag : FlushTag) : List MarketSnapshot := tag.batch.map Prod.snd

/-- **What the flusher calls**: for each data type the name and the bytes of
the parquet file of some rows – the name may depend on the time, and so on the
flush – and the text of a day. -/
structure ParquetWriters where
  orderbooks : ℕ → List Orderbook → String × List UInt8
  trades : ℕ → List Trade → String × List UInt8
  liquidations : ℕ → List Liquidation → String × List UInt8
  fundingRates : ℕ → List FundingRate → String × List UInt8
  openInterests : ℕ → List OpenInterest → String × List UInt8
  fundingSettlements : ℕ → List FundingSettlement → String × List UInt8
  /-- `%Y-%m-%d` of a time in microseconds. -/
  day : ℕ → String

namespace ParquetWriters

/-- The name and the bytes of the file of a data type. -/
def write (w : ParquetWriters) (number : ℕ) (d : DecomposedSnapshots) :
    LeafDatatype → String × List UInt8
  | .orderbooks => w.orderbooks number d.orderbooks
  | .trades => w.trades number d.trades
  | .liquidations => w.liquidations number d.liquidations
  | .fundingRates => w.fundingRates number d.fundingRates
  | .openInterests => w.openInterests number d.openInterests
  | .fundingSettlements => w.fundingSettlements number d.fundingSettlements

/-- The least time of a batch. -/
def tMinUs (snapshots : List MarketSnapshot) : ℕ :=
  (snapshots.map MarketSnapshot.tsUs).foldl min (2 ^ 64 - 1)

/-- The greatest time of a batch. -/
def tMaxUs (snapshots : List MarketSnapshot) : ℕ :=
  (snapshots.map MarketSnapshot.tsUs).foldl max 0

/-- `leaf_dir_for`: the directory of a leaf, of a day of it if the output
directory is a template. -/
def leafDirFor (w : ParquetWriters) (outputDir datatype : String) (tMin : ℕ) : String :=
  if Str.contains "\x7bdata_type\x7d" outputDir then
    Str.joinPath (Str.replace "\x7bdata_type\x7d" datatype outputDir) (w.day tMin)
  else Str.joinPath outputDir datatype

/-- The leaf a flush writes a data type to. -/
def leafOf (w : ParquetWriters) (outputDir : String) (tag : FlushTag) (datatype : LeafDatatype) :
    String :=
  w.leafDirFor outputDir datatype.name (tMinUs tag.snapshots)

/-- The call of `persist_leaf` for a data type. -/
def callOf (w : ParquetWriters) (tag : FlushTag) (datatype : LeafDatatype) :
    PersistCall (Option FlushTag) where
  datatype := datatype.name
  rows := UInt64.ofNat ((decomposeSnapshots tag.snapshots).rows datatype)
  tMinUs := UInt64.ofNat (tMinUs tag.snapshots)
  tMaxUs := UInt64.ofNat (tMaxUs tag.snapshots)
  stem := (w.write tag.number (decomposeSnapshots tag.snapshots) datatype).1
  bytes := (w.write tag.number (decomposeSnapshots tag.snapshots) datatype).2
  tag := some tag

end ParquetWriters

/-! ## The flush -/

/-- The data types a batch has rows of. -/
def FlushTag.parts (tag : FlushTag) : List LeafDatatype :=
  LeafDatatype.all.filter (fun datatype => 0 < (decomposeSnapshots tag.snapshots).rows datatype)

/-- A flush in progress: the data types written, the one being written and
where its call is, the ones to come, and the report so far. -/
structure Flush where
  /-- The data types written. -/
  written : List LeafDatatype
  /-- The one being written. -/
  part : LeafDatatype
  /-- Where its call is. -/
  pc : PersistPc
  /-- The ones to come. -/
  rest : List LeafDatatype
  /-- Bytes written. -/
  bytes : ℕ

/-- **A sink, its leaves and the flush it is in.** -/
structure SinkRun where
  /-- The sink. -/
  sink : BufferedSink
  /-- The leaves, by directory. -/
  leaves : String → Leaf (Option FlushTag)
  /-- The flush in progress. -/
  flush : Option Flush
  /-- Everything emitted, as it came into the buffer. -/
  emitted : List (ℕ × MarketSnapshot)
  /-- The batches tried, and whether `Ok` was returned. -/
  attempts : List (List (ℕ × MarketSnapshot) × Bool)
  /-- How much had been emitted when `Ok` was last returned. -/
  acked : ℕ

/-- What happens to a sink. -/
inductive SinkInput where
  /-- `emit_snapshot`. -/
  | emit (snapshot : MarketSnapshot)
  /-- `flush`. -/
  | flush
  /-- The flush makes a step. -/
  | tick
  /-- A step of the flush fails, a write after some bytes. -/
  | fail (written : ℕ)
deriving DecidableEq

namespace SinkRun

/-- A new sink, over the leaves it finds. -/
def start (outputDir : String) (declared : List DeclaredDatatype)
    (leaves : String → Leaf (Option FlushTag)) : SinkRun :=
  ⟨.new outputDir declared, leaves, none, [], [], 0⟩

/-- The flush that is in progress, or the next one. -/
def tag (s : SinkRun) : FlushTag := ⟨s.attempts.length, s.sink.buffer⟩

/-- The flush returns `Ok`. -/
def succeed (s : SinkRun) (bytes files : ℕ) : SinkRun :=
  { s with
    sink := s.sink.flushed bytes files
    flush := none
    attempts := s.attempts ++ [(s.sink.buffer, true)]
    acked := s.emitted.length }

/-- The flush returns `Err`. -/
def failed (s : SinkRun) : SinkRun :=
  { s with
    sink := s.sink.flushFailed
    flush := none
    attempts := s.attempts ++ [(s.sink.buffer, false)] }

/-- The flush goes on with the next data type, or returns. -/
def next (s : SinkRun) (written : List LeafDatatype) (bytes : ℕ) : List LeafDatatype → SinkRun
  | [] => s.succeed bytes written.length
  | part :: rest => { s with flush := some ⟨written, part, .createLeaf, rest, bytes⟩ }

/-- `emit_snapshot`. -/
def emit (s : SinkRun) (snapshot : MarketSnapshot) : SinkRun :=
  { s with
    sink := s.sink.emitSnapshot snapshot
    emitted := s.emitted ++ [(s.sink.eventsEmitted, snapshot.strip s.sink.declared)] }

/-- `flush`, up to its first write. -/
def beginFlush (s : SinkRun) : SinkRun :=
  if s.sink.buffer.isEmpty then { s with acked := s.emitted.length }
  else s.next [] 0 s.tag.parts

variable (c : EntryCodec) (sha : List UInt8 → String) (w : ParquetWriters)

/-- The directory of the leaf being written. -/
def path (s : SinkRun) (fl : Flush) : String := w.leafOf s.sink.outputDir s.tag fl.part

/-- The leaf being written, after a change to it. -/
def setLeaf (s : SinkRun) (fl : Flush) (leaf : Leaf (Option FlushTag)) : SinkRun :=
  { s with leaves := Function.update s.leaves (s.path w fl) leaf }

/-- The call being made, and the leaf it is made on, after a step of it. -/
def stepOf (s : SinkRun) (fl : Flush) : Leaf (Option FlushTag) × Progress :=
  (s.leaves (s.path w fl)).step c sha (s.path w fl) (w.callOf s.tag fl.part) fl.pc

/-- A step of the flush. -/
def tick (s : SinkRun) (fl : Flush) : SinkRun :=
  let s' := s.setLeaf w fl (s.stepOf c sha w fl).1
  match (s.stepOf c sha w fl).2 with
  | .at pc => { s' with flush := some { fl with pc := pc } }
  | .returned (.ok bytes) => s'.next (fl.written ++ [fl.part]) (fl.bytes + bytes) fl.rest
  | .returned (.error _) => s'.failed

/-- A step of the flush that fails. -/
def fault (s : SinkRun) (fl : Flush) (written : ℕ) : SinkRun :=
  (s.setLeaf w fl ((s.leaves (s.path w fl)).fault c (w.callOf s.tag fl.part) written fl.pc)).failed

/-- The sink as a machine; it writes the names a step overwrites. -/
def machine : Machine SinkRun SinkInput String where
  step s i :=
    match s.flush, i with
    | none, .emit snapshot => (s.emit snapshot, [])
    | none, .flush => (s.beginFlush, [])
    | some fl, .tick =>
      (s.tick c sha w fl, (s.leaves (s.path w fl)).overwritten (s.stepOf c sha w fl).1)
    | some fl, .fail written => (s.fault c w fl written, [])
    | _, _ => (s, [])

end SinkRun
