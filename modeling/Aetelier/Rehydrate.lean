import Aetelier.FrameworkWorker
import Aetelier.ParquetFlusher

/-!
# Filling the holes of persisted trades

`rehydrate_trades_dir` reads every trades file of a directory, asks the venue
for the trades of the same id range, and writes the persisted trades together
with those the files lacked into one new file. It walks the range batch by
batch: a batch is what the venue answers to the position reached so far. The
walk ends when the range is covered, when a batch is empty, when a batch does
not advance, and after 200 batches – and only the two in the middle set the
flag that says the range was not covered. The trades are kept by their number,
so what has no number, and what shares its number with a trade read before, is
not in the file that is written.

The venue is a parameter, and so are the reading and the writing of a file.
-/

/-- A file of a directory, and what reading it as trades gives. -/
structure DirEntry where
  /-- Its name. -/
  name : String
  /-- `read_trades_parquet`. -/
  trades : Except PersistError (List Trade)

/-- `fetch_after` of a venue, call after call: its answer may depend on the
calls made before. -/
abbrev TradesRestFetch := ℕ → String → TradingPair → TradePos → Except String (List Trade)

/-- Trades by their number. -/
abbrev NumberedTrades := OrdMap ℕ Trade (id : ℕ → ℕ)

/-- **A call of `rehydrate_trades_dir`**: its arguments, and what it finds
around it. -/
structure Rehydration where
  /-- The directory. -/
  tradesDir : String
  /-- Venue slug. -/
  exchange : String
  /-- The instrument, as the venue writes it. -/
  wireSymbol : String
  /-- The instrument. -/
  pair : TradingPair
  /-- The venue. -/
  fetcher : TradesRestFetch
  /-- The entries of the directory, in any order. -/
  readDir : Except PersistError (List DirEntry)
  /-- `write_trades_parquet`. -/
  writeTradesParquet : List Trade → String → Except PersistError Unit
  /-- The time of the write, as `%Y%m%d_%H%M%S`. -/
  stamp : String

/-- Outcome of one rehydration run. -/
structure RehydrateReport where
  /-- Venue slug. -/
  exchange : String
  /-- The instrument. -/
  wireSymbol : String
  /-- Files opened. -/
  filesScanned : ℕ
  /-- Trades read from them. -/
  tradesRead : ℕ
  /-- The least and the greatest number among them. -/
  idRange : Option (ℕ × ℕ)
  /-- Prints the venue served that the files lacked. -/
  recovered : ℕ
  /-- The venue returned nothing while the range was still uncovered. -/
  exhaustedBeforeRangeEnd : Bool
  /-- The file written. -/
  outputPath : Option String
deriving DecidableEq, Repr

/-- **What a run leaves**: its report, and the trades handed to the writer if a
file was written. -/
structure Rehydrated where
  /-- The report. -/
  report : RehydrateReport
  /-- The content of the file. -/
  written : Option (List Trade)
deriving DecidableEq, Repr

/-- Fetches of a run. -/
def maxFetchRounds : ℕ := 200

/-- The walk over the range: where it is, the trades by their number, and
those the venue added. -/
structure RehydrateWalk where
  /-- The position reached. -/
  pos : TradePos
  /-- Everything found so far. -/
  present : NumberedTrades
  /-- What the files lacked. -/
  recovered : List Trade

namespace Rehydration

variable (c : Rehydration)

/-! ## The persisted set -/

/-- The file is one of the originals. -/
def isOriginal (name : String) : Bool :=
  Str.extension name = some "parquet" && !Str.contains "rehydrated" name

/-- The originals, by name. -/
def files (entries : List DirEntry) : List DirEntry :=
  (entries.filter (fun f => isOriginal f.name)).mergeSort (fun f g => decide (f.name ≤ g.name))

/-- The trades of the originals, file after file. -/
def readTrades : List DirEntry → Except PersistError (List Trade)
  | [] => .ok []
  | f :: rest =>
    match f.trades with
    | .error e => .error e
    | .ok trades => (readTrades rest).map (trades ++ ·)

/-- Keep a trade under its number; one that is there stays. -/
def keep (present : NumberedTrades) (t : Trade) : NumberedTrades :=
  match parseU64 t.id with
  | none => present
  | some id => present.orInsert id t

/-- Trades by their number. -/
def persisted (trades : List Trade) : NumberedTrades := trades.foldl keep OrdMap.empty

/-- The range the files cover. -/
def idRange (trades : List Trade) : Option (ℕ × ℕ) :=
  match (persisted trades).first?, (persisted trades).last? with
  | some (minId, _), some (maxId, _) => some (minId, maxId)
  | _, _ => none

/-! ## The walk -/

/-- Take one trade of a batch: the position follows it, and it is kept if it is
of the range and new. The flag says that the position advanced. -/
def takeTrade (maxId : ℕ) (s : RehydrateWalk × Bool) (t : Trade) : RehydrateWalk × Bool :=
  match parseU64 t.id with
  | none => s
  | some id =>
    let s' := if s.1.pos.id < id then ({ s.1 with pos := ⟨id, t.sourceTradeTsUs⟩ }, true) else s
    if maxId < id ∨ (s'.1.present.get? id).isSome then s'
    else ({ s'.1 with
      present := s'.1.present.insert id t
      recovered := s'.1.recovered ++ [t] }, s'.2)

/-- The rounds of the walk that are left, from the given call of the venue on.
The flag is `exhausted_before_range_end`. -/
def fetchRounds (maxId : ℕ) : ℕ → ℕ → RehydrateWalk → Except PersistError (RehydrateWalk × Bool)
  | 0, _, w => .ok (w, false)
  | rounds + 1, call, w =>
    if maxId ≤ w.pos.id then .ok (w, false)
    else match c.fetcher call c.wireSymbol c.pair w.pos with
      | .error e => .error (.parse ("rehydrate fetch: " ++ e))
      | .ok [] => .ok (w, decide (w.pos.id < maxId))
      | .ok (t :: batch) =>
        let r := (t :: batch).foldl (takeTrade maxId) (w, false)
        if r.2 then fetchRounds maxId rounds (call + 1) r.1
        else .ok (r.1, decide (r.1.pos.id < maxId))

/-- Where the walk begins: before the first trade, and a second earlier. -/
def startPos (minId : ℕ) (first : Trade) : TradePos where
  id := minId - 1
  tsUs := first.sourceTradeTsUs - 1000000

/-- The file of a run. -/
def outputName : String :=
  c.exchange ++ "_" ++ Str.replace ":" "-" (Str.replace "/" "-" c.wireSymbol)
    ++ "_trades_rehydrated_" ++ c.stamp ++ ".parquet"

/-- Write the merged set if anything was recovered. -/
def writeMerged (report : RehydrateReport) (w : RehydrateWalk) : Except PersistError Rehydrated :=
  let report := { report with recovered := w.recovered.length }
  if w.recovered.isEmpty then .ok ⟨report, none⟩
  else
    let merged := w.present.entries.map Prod.snd
    let out := Str.joinPath c.tradesDir c.outputName
    match c.writeTradesParquet merged out with
    | .error e => .error e
    | .ok () => .ok ⟨{ report with outputPath := some out }, some merged⟩

/-- The persisted trades of the directory. -/
def originals : Except PersistError (List Trade) :=
  match c.readDir with
  | .error e => .error e
  | .ok entries => readTrades (files entries)

/-- **Rehydrate the trades of a directory.** -/
def rehydrateTradesDir : Except PersistError Rehydrated :=
  match c.readDir with
  | .error e => .error e
  | .ok entries =>
    match readTrades (files entries) with
    | .error e => .error e
    | .ok trades =>
      let report : RehydrateReport := {
        exchange := c.exchange
        wireSymbol := c.wireSymbol
        filesScanned := (files entries).length
        tradesRead := trades.length
        idRange := none
        recovered := 0
        exhaustedBeforeRangeEnd := false
        outputPath := none }
      match (persisted trades).first?, (persisted trades).last? with
      | some (minId, first), some (maxId, _) =>
        match c.fetchRounds maxId maxFetchRounds 0
            ⟨startPos minId first, persisted trades, []⟩ with
        | .error e => .error e
        | .ok (w, exhausted) =>
          c.writeMerged { report with
            idRange := some (minId, maxId), exhaustedBeforeRangeEnd := exhausted } w
      -- nothing persisted, nothing to repair
      | _, _ => .ok ⟨report, none⟩

end Rehydration
