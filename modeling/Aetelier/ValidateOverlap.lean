import Aetelier.ValidateBooks

/-!
# Files that overlap in time

The validator walks a directory, takes of each file the time of its first
record and that of its last, in the order the file is read, and groups the
files by venue, symbol and kind. Of each group it sorts the files by their
first time and tests each against the next.

The test on neighbours stands for a test on any two, since the files are
sorted (`StableSort.pairwise_iff_neighbours`). What it is made on does not
stand for the files: the first and the last record of a file are the earliest
and the latest only where the records are in the order of their times, which
those of two symbols in one file need not be, nor those of a file of trades.
And a file that `--skip-seen` passes over joins no group, so nothing is tested
against it.

`ValidateLake.misses_nothing_iff` puts this beside what is missed inside one
file.
-/

/-! ## The directory -/

/-- `dir_name`. -/
def DataKind.dirName : DataKind → String
  | .orderbook => "orderbooks"
  | .trades => "trades"

/-- The place of a kind in their order. -/
def DataKind.rank : DataKind → ℕ
  | .orderbook => 0
  | .trades => 1

/-- What a file holds, if it can be opened; its decimals as they are read. -/
inductive LakeContent where
  | orderbooks (file : Except PersistError ObFile)
  | trades (file : Except PersistError TradesFile)

/-- A file of the directory. -/
structure LakeFile where
  /-- The directory of its venue. -/
  exchange : String
  name : String
  sizeBytes : ℕ
  content : LakeContent

/-- What the files are grouped by: the venue, the symbol and the kind. -/
abbrev LakeGroup := String × String × DataKind

/-- The order of the groups. -/
def LakeGroup.order (g : LakeGroup) : String ×ₗ (String ×ₗ ℕ) :=
  toLex (g.1, toLex (g.2.1, g.2.2.rank))

namespace LakeFile

/-- The directory of the file. -/
def kind (f : LakeFile) : DataKind :=
  match f.content with
  | .orderbooks _ => .orderbook
  | .trades _ => .trades

/-- The directory the file is in. -/
def dir (dataDir : String) (f : LakeFile) : String :=
  Str.joinPath (Str.joinPath dataDir f.exchange) f.kind.dirName

/-- The path of the file. -/
def path (dataDir : String) (f : LakeFile) : String := Str.joinPath (f.dir dataDir) f.name

/-- The group the validator puts the file in, for its name. -/
def group (f : LakeFile) : LakeGroup :=
  (f.exchange, (Validate.parseSymbolFromFilename f.name).getD "", f.kind)

/-- The times of the records of the file. -/
def times (f : LakeFile) : List ℕ :=
  match f.content with
  | .orderbooks (.ok file) => file.rows.map ObRow.orderbookTsUs
  | .trades (.ok file) => file.batches.flatten.map TradeRow.sourceTradeTsUs
  | _ => []

/-- **Two files overlap in time**: neither lies wholly before the other. -/
def Overlaps (a b : LakeFile) : Prop :=
  (∃ x ∈ a.times, ∃ y ∈ b.times, x ≤ y) ∧ ∃ x ∈ a.times, ∃ y ∈ b.times, y ≤ x

end LakeFile

/-- **A run of the validator on a directory.** -/
structure ValidateLake where
  unicode : Unicode
  reader : BatchReader
  cli : ValidateCli
  dataDir : String
  expectExchanges : List String
  /-- `--skip-seen`. -/
  skipSeen : Bool
  /-- The sizes of the files that were validated before. -/
  knownFiles : String → Option ℕ
  /-- The directories under the data directory. -/
  dirs : List String
  /-- The files in them. -/
  files : List LakeFile
  /-- A directory lists a name once. -/
  dirs_nodup : dirs.Nodup
  paths_nodup : (files.map (LakeFile.path dataDir)).Nodup

/-- Where a file begins and ends, and its path. -/
structure FileSpan where
  firstTs : ℕ
  lastTs : ℕ
  path : String

/-- A file that begins before the one before it has ended. -/
structure OverlapFailure where
  group : LakeGroup
  prev : FileSpan
  curr : FileSpan

/-- What is kept while the files are walked. -/
structure ValidateScan where
  knownFiles : String → Option ℕ
  perGroup : OrdMap LakeGroup (List FileSpan) LakeGroup.order
  fileReports : List FileReport

namespace ValidateLake

variable (v : ValidateLake)

/-- `discover_exchanges`. -/
def discoverExchanges : List String :=
  StableSort.sort id (v.dirs.filter (fun d => d ∈ v.expectExchanges))

/-- `parquet_files_in`. -/
def parquetFilesIn (exchange : String) (kind : DataKind) : List LakeFile :=
  StableSort.sort LakeFile.name (v.files.filter (fun f => decide (f.exchange = exchange) &&
    decide (f.kind = kind) && decide (Str.extension f.name = some "parquet")))

/-- The files, in the order they are walked. -/
def walked : List LakeFile :=
  v.discoverExchanges.flatMap (fun exchange =>
    [DataKind.orderbook, DataKind.trades].flatMap (v.parquetFilesIn exchange))

/-- `validate_file`. -/
def validateFile (f : LakeFile) : Except ValidateError FileReport :=
  match f.content with
  | .orderbooks (.ok file) => Validate.orderbookFile v.unicode v.reader v.cli (f.dir v.dataDir)
      f.exchange f.sizeBytes f.name file
  | .orderbooks (.error e) => .error (.readObParquet e)
  | .trades (.ok file) => Validate.tradesFile v.unicode v.cli (f.dir v.dataDir) f.exchange
      f.sizeBytes f.name file
  | .trades (.error e) => .error (.readTradesParquet e)

/-- The report on a file that cannot be read. -/
def readFailed (f : LakeFile) : FileReport where
  path := f.path v.dataDir
  exchange := f.exchange
  symbol := (Validate.parseSymbolFromFilename f.name).getD ""
  kind := f.kind
  sizeBytes := f.sizeBytes
  rowCount := 0
  distinctTsCount := 0
  firstTs := 0
  lastTs := 0
  spanMs := 0
  failed := [TestId.fileNonEmpty.code]

/-- The report on a file. -/
def fileReport (f : LakeFile) : FileReport :=
  match v.validateFile f with
  | .ok report => report
  | .error _ => v.readFailed f

/-- What a report is grouped by. -/
def reportGroup (r : FileReport) : LakeGroup := (r.exchange, r.symbol, r.kind)

/-- The span of a report joins those of its group. -/
def pushSpan (spans : List FileSpan) (r : FileReport) : List FileSpan :=
  spans ++ [⟨r.firstTs, r.lastTs, r.path⟩]

/-- The file was seen before, and the validator is told to skip such files. -/
def skips (known : String → Option ℕ) (f : LakeFile) : Bool :=
  v.skipSeen && decide (known (f.path v.dataDir) = some f.sizeBytes)

/-- The body of the walk. -/
def visit (s : ValidateScan) (f : LakeFile) : ValidateScan :=
  if v.skips s.knownFiles f then s
  else
    let report := v.fileReport f
    { knownFiles := Function.update s.knownFiles (f.path v.dataDir) (some f.sizeBytes)
      perGroup := s.perGroup.upsert reportGroup (fun _ => []) pushSpan report
      fileReports := s.fileReports ++ [report] }

/-- The walk. -/
def scan : ValidateScan := v.walked.foldl v.visit ⟨v.knownFiles, .empty, []⟩

/-- The files of a group that begin before the one before them has ended. -/
def overlapsOf (g : LakeGroup) (spans : List FileSpan) : List OverlapFailure :=
  let spans := StableSort.sort FileSpan.firstTs spans
  ((spans.zip spans.tail).filter (fun w => decide (w.2.firstTs ≤ w.1.lastTs))).map
    (fun w => ⟨g, w.1, w.2⟩)

/-- `overlap_failures`. -/
def overlapFailures : List OverlapFailure :=
  v.scan.perGroup.entries.flatMap (fun e => overlapsOf e.1 e.2)

end ValidateLake

/-- **A file of trades that can be read**: every symbol, side and origin is
one. -/
def TradesFile.CanBeRead (u : Unicode) (file : TradesFile) : Prop :=
  ∀ r ∈ file.batches.flatten, (TradingPair.fromStr u r.symbol).isSome ∧
    (TradeSide.fromStr r.side).isSome ∧ (9 < file.columns → (TradeOrigin.fromStr r.origin).isSome)

instance (u : Unicode) (file : TradesFile) : Decidable (file.CanBeRead u) :=
  inferInstanceAs (Decidable (∀ r ∈ file.batches.flatten, _ ∧ _ ∧ _))

namespace ValidateLake

variable (v : ValidateLake)

/-- **Two files of a group that overlap are reported**: some failure is of
their group. -/
def ReportsOverlaps : Prop :=
  ∀ a ∈ v.walked, ∀ b ∈ v.walked, a.path v.dataDir ≠ b.path v.dataDir → a.group = b.group →
    a.Overlaps b → ∃ failure ∈ v.overlapFailures, failure.group = a.group

/-- The times of the records of a file that can be read: order books by symbol
and time, trades as they stand. -/
def readOrder (f : LakeFile) : List ℕ :=
  match f.content with
  | .orderbooks (.ok file) =>
    if file.CanBeRead v.unicode then
      (StableSort.sort (fun r => toLex (ObFile.key r)) file.rows).map ObRow.orderbookTsUs
    else []
  | .trades (.ok file) =>
    if file.CanBeRead v.unicode then file.batches.flatten.map TradeRow.sourceTradeTsUs else []
  | _ => []

/-- The time of the first record. -/
def begins (f : LakeFile) : ℕ := (v.readOrder f).head?.getD 0

/-- The time of the last. -/
def ends (f : LakeFile) : ℕ := (v.readOrder f).getLast?.getD 0

/-- A file comes before another: it begins before it, or with it and has the
lesser name. -/
def Before (c d : LakeFile) : Prop :=
  v.begins c < v.begins d ∨ (v.begins c = v.begins d ∧ c.name < d.name)

/-- **Two files of a group that overlap show it**, or two others of the group
do: neither was seen before and is to be skipped, and the one that comes first
has its last record no earlier than the other its first. -/
def OverlapsShow : Prop :=
  ∀ a ∈ v.walked, ∀ b ∈ v.walked, a.path v.dataDir ≠ b.path v.dataDir → a.group = b.group →
    a.Overlaps b → ∃ c ∈ v.walked, ∃ d ∈ v.walked, c.group = a.group ∧ d.group = a.group ∧
      v.skips v.knownFiles c = false ∧ v.skips v.knownFiles d = false ∧
      v.Before c d ∧ v.begins d ≤ v.ends c

end ValidateLake

/-! ## Where a file begins and ends -/

theorem not_exists_error {ε α : Type} {e : ε} : ¬ ∃ a : α, Except.error e = .ok a := by
  rintro ⟨_, h⟩
  cases h

/-- A row of trades is read exactly if its symbol, its side and its origin
are. -/
theorem TradeRow.exists_read_iff {u : Unicode} {path : String} {columns i : ℕ} {r : TradeRow} :
    (∃ t, r.read u path columns i = .ok t) ↔ (TradingPair.fromStr u r.symbol).isSome ∧
      (TradeSide.fromStr r.side).isSome ∧
        (9 < columns → (TradeOrigin.fromStr r.origin).isSome) := by
  unfold TradeRow.read
  dsimp only
  cases TradingPair.fromStr u r.symbol with
  | none => exact iff_of_false not_exists_error (fun h => by cases h.1)
  | some pair =>
    cases TradeSide.fromStr r.side with
    | none => exact iff_of_false not_exists_error (fun h => by cases h.2.1)
    | some side =>
      by_cases hcolumns : 9 < columns
      · rw [if_pos hcolumns]
        cases TradeOrigin.fromStr r.origin with
        | none => exact iff_of_false not_exists_error (fun h => by cases h.2.2 hcolumns)
        | some origin => exact iff_of_true ⟨_, rfl⟩ ⟨rfl, rfl, fun _ => rfl⟩
      · rw [if_neg hcolumns]
        exact iff_of_true ⟨_, rfl⟩ ⟨rfl, rfl, fun h => absurd h hcolumns⟩

theorem exists_readTradeRows_iff {u : Unicode} {path : String} {columns i : ℕ}
    {rows : List TradeRow} :
    (∃ ts, readTradeRows u path columns i rows = .ok ts) ↔
      ∀ r ∈ rows, (TradingPair.fromStr u r.symbol).isSome ∧ (TradeSide.fromStr r.side).isSome ∧
        (9 < columns → (TradeOrigin.fromStr r.origin).isSome) := by
  induction rows generalizing i with
  | nil => exact iff_of_true ⟨[], rfl⟩ (fun r hr => absurd hr List.not_mem_nil)
  | cons r rest ih =>
    have hread := @TradeRow.exists_read_iff u path columns i r
    rw [List.forall_mem_cons, ← ih (i := i + 1), ← hread, readTradeRows]
    cases r.read u path columns i with
    | error e =>
      exact iff_of_false not_exists_error (fun h => not_exists_error h.1)
    | ok t =>
      dsimp only
      cases readTradeRows u path columns (i + 1) rest with
      | error e =>
        exact iff_of_false not_exists_error (fun h => not_exists_error h.2)
      | ok ts => exact iff_of_true ⟨_, rfl⟩ ⟨⟨_, rfl⟩, ⟨_, rfl⟩⟩

/-- **A file of trades is read** exactly if it can be. -/
theorem exists_readTradesParquet_iff {u : Unicode} {path : String} {columns : ℕ}
    {batches : List (List TradeRow)} :
    (∃ ts, readTradesParquet u path columns batches = .ok ts) ↔
      TradesFile.CanBeRead u ⟨columns, batches⟩ := by
  unfold TradesFile.CanBeRead
  dsimp only
  induction batches with
  | nil => exact iff_of_true ⟨[], rfl⟩ (fun r hr => absurd hr List.not_mem_nil)
  | cons batch rest ih =>
    have hrows := @exists_readTradeRows_iff u path columns 0 batch
    rw [List.flatten_cons, List.forall_mem_append, ← ih, ← hrows, readTradesParquet]
    cases readTradeRows u path columns 0 batch with
    | error e =>
      exact iff_of_false not_exists_error (fun h => not_exists_error h.1)
    | ok ts =>
      dsimp only
      cases readTradesParquet u path columns rest with
      | error e =>
        exact iff_of_false not_exists_error (fun h => not_exists_error h.2)
      | ok ts' => exact iff_of_true ⟨_, rfl⟩ ⟨⟨_, rfl⟩, ⟨_, rfl⟩⟩

/-- The times of the trades read are those of the rows. -/
theorem times_of_readTradeRows {u : Unicode} {path : String} {columns i : ℕ}
    {rows : List TradeRow} {ts : List Trade}
    (h : readTradeRows u path columns i rows = .ok ts) :
    ts.map Trade.sourceTradeTsUs = rows.map TradeRow.sourceTradeTsUs := by
  induction rows generalizing i ts with
  | nil =>
    cases h
    rfl
  | cons r rest ih =>
    unfold readTradeRows at h
    split at h
    · next t ht =>
      cases hrest : readTradeRows u path columns (i + 1) rest with
      | error e =>
        rw [hrest] at h
        cases h
      | ok ts' =>
        rw [hrest] at h
        cases h
        have hts : t.sourceTradeTsUs = r.sourceTradeTsUs := by
          unfold TradeRow.read at ht
          repeat' split at ht
          all_goals cases ht
          all_goals rfl
        rw [List.map_cons, List.map_cons, hts, ih hrest]
    · cases h

theorem times_of_readTradesParquet {u : Unicode} {path : String} {columns : ℕ}
    {batches : List (List TradeRow)} {ts : List Trade}
    (h : readTradesParquet u path columns batches = .ok ts) :
    ts.map Trade.sourceTradeTsUs = batches.flatten.map TradeRow.sourceTradeTsUs := by
  induction batches generalizing ts with
  | nil =>
    cases h
    rfl
  | cons batch rest ih =>
    unfold readTradesParquet at h
    split at h
    · next ts₁ hbatch =>
      cases hrest : readTradesParquet u path columns rest with
      | error e =>
        rw [hrest] at h
        cases h
      | ok ts₂ =>
        rw [hrest] at h
        cases h
        rw [List.map_append, List.flatten_cons, List.map_append, times_of_readTradeRows hbatch,
          ih hrest]
    · cases h

namespace ValidateLake

variable (v : ValidateLake)

/-- The books of a file begin and end where its rows do, by symbol and time. -/
theorem ends_of_loadParquetToOb {u : Unicode} {path : String} {file : ObFile}
    {books : List Orderbook} (h : loadParquetToOb u v.reader path file = .ok books) :
    (books.map Orderbook.orderbookTsUs).head?
        = ((StableSort.sort (fun r => toLex (ObFile.key r)) file.rows).map
            ObRow.orderbookTsUs).head? ∧
      (books.map Orderbook.orderbookTsUs).getLast?
        = ((StableSort.sort (fun r => toLex (ObFile.key r)) file.rows).map
            ObRow.orderbookTsUs).getLast? := by
  rw [ValidateCall.map_orderbookTsUs (ValidateCall.forall₂_of_toOrderbooks
    (ValidateCall.loadParquetToOb_eq_ok_iff.mp h).2)]
  generalize hm : groupsOfRows file.columns file.rows = m
  have hkeys : ∀ o, o ∈ m.entries.map (fun e => toLex e.1) ↔
      o ∈ (StableSort.sort (fun r => toLex (ObFile.key r)) file.rows).map
        (fun r => toLex (ObFile.key r)) := by
    intro o
    have hrows : ofLex o ∈ (groupsOfRows file.columns file.rows).entries.map Prod.fst ↔
        ∃ r ∈ file.rows, ObFile.key r = ofLex o := ValidateCall.mem_keys_groupsOfRows
    rw [hm, List.mem_map] at hrows
    simp only [List.mem_map, List.mem_mergeSort]
    exact hrows
  have hm' : (m.entries.map (fun e => toLex e.1)).Pairwise (· ≤ ·) :=
    List.pairwise_map.mpr (m.sorted.imp (fun hlt => hlt.le))
  have hr' := List.pairwise_map.mpr (StableSort.pairwise_sort
    (f := fun r => toLex (ObFile.key r)) file.rows)
  -- the time is the second part of the key
  have hts : m.entries.map (fun e => e.1.2)
      = (m.entries.map (fun e => toLex e.1)).map (fun o => (ofLex o).2) := by
    rw [List.map_map]
    rfl
  have hts' : (StableSort.sort (fun r => toLex (ObFile.key r)) file.rows).map
        ObRow.orderbookTsUs
      = ((StableSort.sort (fun r => toLex (ObFile.key r)) file.rows).map
          (fun r => toLex (ObFile.key r))).map (fun o => (ofLex o).2) := by
    rw [List.map_map]
    rfl
  rw [hts, hts']
  generalize m.entries.map (fun e => toLex e.1) = l at hm' hkeys
  generalize (StableSort.sort (fun r => toLex (ObFile.key r)) file.rows).map
    (fun r => toLex (ObFile.key r)) = l' at hr' hkeys
  rw [List.head?_map, List.head?_map, List.getLast?_map, List.getLast?_map,
    StableSort.head?_eq_of_mem_iff hm' hr' hkeys, StableSort.getLast?_eq_of_mem_iff hm' hr' hkeys]
  exact ⟨rfl, rfl⟩

/-- The report on a file says where it begins and where it ends. -/
theorem span_fileReport (f : LakeFile) :
    (v.fileReport f).firstTs = v.begins f ∧ (v.fileReport f).lastTs = v.ends f ∧
      reportGroup (v.fileReport f) = f.group := by
  obtain ⟨exchange, name, sizeBytes, content⟩ := f
  unfold begins ends readOrder fileReport validateFile
  match content with
  | .orderbooks (.error e) => exact ⟨rfl, rfl, rfl⟩
  | .trades (.error e) => exact ⟨rfl, rfl, rfl⟩
  | .orderbooks (.ok file) =>
    dsimp only [LakeFile.path, Validate.orderbookFile]
    cases hload : loadParquetToOb v.unicode v.reader _ file with
    | error e =>
      have hnot : ¬ file.CanBeRead v.unicode := fun hcan => by
        obtain ⟨books, hbooks⟩ := ValidateCall.exists_loadParquetToOb_iff.mpr hcan
        cases hload.symm.trans hbooks
      rw [if_neg hnot]
      exact ⟨rfl, rfl, rfl⟩
    | ok books =>
      obtain ⟨hhead, hlast⟩ := v.ends_of_loadParquetToOb hload
      rw [if_pos (ValidateCall.exists_loadParquetToOb_iff.mp ⟨books, hload⟩), ← hhead, ← hlast]
      cases books with
      | nil => exact ⟨rfl, rfl, rfl⟩
      | cons ob books => exact ⟨rfl, rfl, rfl⟩
  | .trades (.ok file) =>
    dsimp only [LakeFile.path, Validate.tradesFile]
    cases hread : readTradesParquet v.unicode _ file.columns file.batches with
    | error e =>
      have hnot : ¬ file.CanBeRead v.unicode := fun hcan => by
        obtain ⟨ts, hts⟩ := exists_readTradesParquet_iff.mpr hcan
        cases hread.symm.trans hts
      rw [if_neg hnot]
      exact ⟨rfl, rfl, rfl⟩
    | ok ts =>
      rw [if_pos (exists_readTradesParquet_iff.mp ⟨ts, hread⟩), ← times_of_readTradesParquet hread]
      cases ts with
      | nil => exact ⟨rfl, rfl, rfl⟩
      | cons t ts => exact ⟨rfl, rfl, rfl⟩

/-! ## The order of the walk -/

/-- The files are walked once each, and those of a group by name. -/
theorem pairwise_walked :
    v.walked.Pairwise (fun a b => a ≠ b ∧ (a.group = b.group → a.name < b.name)) := by
  have hfiles : v.files.Nodup := v.paths_nodup.of_map
  have hdirs : v.discoverExchanges.Nodup :=
    (List.mergeSort_perm _ _).nodup_iff.mpr (v.dirs_nodup.filter _)
  have hplace : ∀ {exchange kind f}, f ∈ v.parquetFilesIn exchange kind →
      f ∈ v.files ∧ f.exchange = exchange ∧ f.kind = kind := by
    intro exchange kind f hf
    obtain ⟨hmem, htest⟩ := List.mem_filter.mp (List.mem_mergeSort.mp hf)
    rw [Bool.and_eq_true, Bool.and_eq_true, decide_eq_true_eq, decide_eq_true_eq] at htest
    exact ⟨hmem, htest.1.1, htest.1.2⟩
  -- files of two directories are of two groups
  have hapart : ∀ {x k x' k' a b}, a ∈ v.parquetFilesIn x k → b ∈ v.parquetFilesIn x' k' →
      (x ≠ x' ∨ k ≠ k') → a ≠ b ∧ (a.group = b.group → a.name < b.name) := by
    intro x k x' k' a b ha hb hne
    obtain ⟨-, rfl, rfl⟩ := hplace ha
    obtain ⟨-, rfl, rfl⟩ := hplace hb
    refine ⟨fun hab => ?_, fun hgroup => ?_⟩
    · rcases hne with hx | hk
      · exact hx (congrArg LakeFile.exchange hab)
      · exact hk (congrArg LakeFile.kind hab)
    · rcases hne with hx | hk
      · exact absurd (congrArg Prod.fst hgroup) hx
      · exact absurd (congrArg (fun g => g.2.2) hgroup) hk
  -- those of one directory are sorted by name
  have hdir : ∀ exchange kind, (v.parquetFilesIn exchange kind).Pairwise
      (fun a b => a ≠ b ∧ (a.group = b.group → a.name < b.name)) := by
    intro exchange kind
    have hnodup : (v.parquetFilesIn exchange kind).Nodup :=
      (List.mergeSort_perm _ _).nodup_iff.mpr (hfiles.filter _)
    have hsorted : (v.parquetFilesIn exchange kind).Pairwise (fun a b => a.name ≤ b.name) :=
      StableSort.pairwise_sort _
    refine (hnodup.and hsorted).imp_of_mem (fun {a b} ha hb hab => ⟨hab.1, fun hgroup => ?_⟩)
    refine lt_of_le_of_ne hab.2 (fun hname => hab.1 ?_)
    refine List.inj_on_of_nodup_map v.paths_nodup (hplace ha).1 (hplace hb).1 ?_
    unfold LakeFile.path LakeFile.dir
    rw [hname, show a.exchange = b.exchange from congrArg Prod.fst hgroup,
      show a.kind = b.kind from congrArg (fun g => g.2.2) hgroup]
  refine List.pairwise_flatMap.mpr ⟨fun exchange _ => ?_, ?_⟩
  · refine List.pairwise_flatMap.mpr ⟨fun kind _ => hdir exchange kind, ?_⟩
    refine List.pairwise_pair.mpr (fun a ha b hb => ?_)
    exact hapart ha hb (.inr (by decide))
  · refine hdirs.imp (fun {x x'} hne a ha b hb => ?_)
    obtain ⟨k, -, ha⟩ := List.mem_flatMap.mp ha
    obtain ⟨k', -, hb⟩ := List.mem_flatMap.mp hb
    exact hapart ha hb (.inl hne)

/-- The files that are walked: the parquet files of the venues expected. -/
theorem mem_walked_iff {f : LakeFile} :
    f ∈ v.walked ↔ (f.exchange ∈ v.dirs ∧ f.exchange ∈ v.expectExchanges) ∧ f ∈ v.files ∧
      Str.extension f.name = some "parquet" := by
  simp only [walked, discoverExchanges, parquetFilesIn, List.mem_flatMap, List.mem_mergeSort,
    List.mem_filter, Bool.and_eq_true, decide_eq_true_eq]
  constructor
  · rintro ⟨exchange, hexchange, kind, -, hf, ⟨rfl, -⟩, hext⟩
    exact ⟨hexchange, hf, hext⟩
  · rintro ⟨hexchange, hf, hext⟩
    refine ⟨f.exchange, hexchange, f.kind, ?_, hf, ⟨rfl, rfl⟩, hext⟩
    cases f.kind with
    | orderbook => exact List.mem_cons_self
    | trades => exact List.mem_cons_of_mem _ List.mem_cons_self

/-- The paths that are walked are different. -/
theorem nodup_paths_walked : (v.walked.map (LakeFile.path v.dataDir)).Nodup := by
  refine List.pairwise_map.mpr (v.pairwise_walked.imp_of_mem (fun ha hb hab hpath => hab.1 ?_))
  exact List.inj_on_of_nodup_map v.paths_nodup (v.mem_walked_iff.mp ha).2.1
    (v.mem_walked_iff.mp hb).2.1 hpath

/-! ## The groups -/

/-- The files that are not passed over. -/
def validated : List LakeFile := v.walked.filter (fun f => !v.skips v.knownFiles f)

/-- Whether a file is passed over depends on what was known of its path. -/
theorem skips_congr {known known' : String → Option ℕ} {f : LakeFile}
    (h : known (f.path v.dataDir) = known' (f.path v.dataDir)) :
    v.skips known f = v.skips known' f := by
  unfold skips
  rw [h]

/-- **The walk groups the reports on the files it does not pass over.** -/
theorem perGroup_foldl_visit {l : List LakeFile} (hl : (l.map (LakeFile.path v.dataDir)).Nodup)
    (s : ValidateScan) :
    (l.foldl v.visit s).perGroup
      = ((l.filter (fun f => !v.skips s.knownFiles f)).map v.fileReport).foldl
        (OrdMap.upsert reportGroup (fun _ => []) pushSpan) s.perGroup := by
  induction l generalizing s with
  | nil => rfl
  | cons f l ih =>
    rw [List.map_cons, List.nodup_cons] at hl
    rw [List.foldl_cons, ih hl.2]
    unfold visit
    cases hskip : v.skips s.knownFiles f with
    | true =>
      rw [if_pos rfl, List.filter_cons_of_neg (by rw [hskip]; decide)]
    | false =>
      rw [if_neg (by decide), List.filter_cons_of_pos (by rw [hskip]; decide), List.map_cons,
        List.foldl_cons]
      -- what becomes known is of this path, and no later file has it
      have hrest : l.filter (fun g => !v.skips
            (Function.update s.knownFiles (f.path v.dataDir) (some f.sizeBytes)) g)
          = l.filter (fun g => !v.skips s.knownFiles g) := by
        refine List.filter_congr (fun g hg => ?_)
        rw [v.skips_congr (Function.update_of_ne (fun h => hl.1 ?_) _ _)]
        exact h ▸ List.mem_map_of_mem hg
      dsimp only
      rw [hrest]

/-- The spans of a group. -/
def spansOf (g : LakeGroup) : List FileSpan :=
  (v.validated.filter (fun f => decide (f.group = g))).map
    (fun f => ⟨v.begins f, v.ends f, (v.fileReport f).path⟩)

theorem gather_pushSpan (rs : List FileReport) :
    OrdMap.gather (fun _ => []) pushSpan rs
      = if rs = [] then none else some (rs.map (fun r => ⟨r.firstTs, r.lastTs, r.path⟩)) := by
  have hpush : ∀ (rs : List FileReport) (spans : List FileSpan), rs.foldl pushSpan spans
      = spans ++ rs.map (fun r => ⟨r.firstTs, r.lastTs, r.path⟩) := by
    intro rs
    induction rs with
    | nil => exact fun spans => (List.append_nil spans).symm
    | cons r rs ih =>
      intro spans
      rw [List.foldl_cons, ih, pushSpan, List.map_cons, List.append_assoc]
      rfl
  cases rs with
  | nil => rfl
  | cons r rs =>
    rw [if_neg (List.cons_ne_nil r rs), OrdMap.gather, hpush]
    rfl

theorem order_injective : Function.Injective LakeGroup.order := by
  rintro ⟨exchange, symbol, kind⟩ ⟨exchange', symbol', kind'⟩ h
  have h₁ : exchange = exchange' := congrArg (fun o => (ofLex o).1) h
  have h₂ : symbol = symbol' := congrArg (fun o => (ofLex (ofLex o).2).1) h
  have h₃ : kind.rank = kind'.rank := congrArg (fun o => (ofLex (ofLex o).2).2) h
  cases h₁
  cases h₂
  cases kind <;> cases kind' <;> first | rfl | cases h₃

/-- **What a group holds** are the spans of its files. -/
theorem get?_perGroup (g : LakeGroup) :
    v.scan.perGroup.get? g.order = if v.spansOf g = [] then none else some (v.spansOf g) := by
  unfold scan
  rw [v.perGroup_foldl_visit v.nodup_paths_walked, OrdMap.get?_foldl_upsert, gather_pushSpan,
    List.filter_map]
  have hgroup : v.validated.filter ((fun r => decide (LakeGroup.order (reportGroup r) = g.order))
        ∘ v.fileReport) = v.validated.filter (fun f => decide (f.group = g)) := by
    refine List.filter_congr (fun f _ => ?_)
    show decide (LakeGroup.order (reportGroup (v.fileReport f)) = g.order) = _
    rw [(v.span_fileReport f).2.2, decide_eq_decide]
    exact order_injective.eq_iff
  have hspans : ((v.validated.filter (fun f => decide (f.group = g))).map v.fileReport).map
        (fun r => (⟨r.firstTs, r.lastTs, r.path⟩ : FileSpan)) = v.spansOf g := by
    rw [List.map_map]
    refine List.map_congr_left (fun f _ => ?_)
    show (⟨(v.fileReport f).firstTs, (v.fileReport f).lastTs, _⟩ : FileSpan) = _
    rw [(v.span_fileReport f).1, (v.span_fileReport f).2.1]
  show (if (v.validated.filter _).map v.fileReport = [] then none
    else some (((v.validated.filter _).map v.fileReport).map _)) = _
  rw [hgroup, hspans]
  refine if_congr ?_ rfl rfl
  unfold spansOf
  rw [List.map_eq_nil_iff, List.map_eq_nil_iff]

/-- A failure is of a group of which one is found. -/
theorem exists_failure_iff (g : LakeGroup) :
    (∃ failure ∈ v.overlapFailures, failure.group = g) ↔ overlapsOf g (v.spansOf g) ≠ [] := by
  have hof : ∀ {g' spans failure}, failure ∈ overlapsOf g' spans → failure.group = g' := by
    intro g' spans failure h
    obtain ⟨w, -, rfl⟩ := List.mem_map.mp h
    rfl
  constructor
  · rintro ⟨failure, hmem, hgroup⟩
    obtain ⟨e, he, hfailure⟩ := List.mem_flatMap.mp hmem
    have hkey : e.1 = g := (hof hfailure).symm.trans hgroup
    have hget := v.scan.perGroup.get?_of_mem he
    rw [hkey, get?_perGroup] at hget
    split at hget
    · cases hget
    · rw [Option.some.inj hget, ← hkey]
      exact List.ne_nil_of_mem hfailure
  · intro hne
    obtain ⟨failure, hfailure⟩ := List.exists_mem_of_ne_nil _ hne
    have hspans : v.spansOf g ≠ [] := by
      rintro hnil
      rw [hnil] at hfailure
      have hnone : overlapsOf g [] = [] := by
        unfold overlapsOf StableSort.sort
        rw [List.mergeSort_nil]
        rfl
      rw [hnone] at hfailure
      cases hfailure
    have hget := v.get?_perGroup g
    rw [if_neg hspans] at hget
    obtain ⟨k, hk, hmem⟩ := OrdMap.mem_of_get? hget
    obtain rfl := order_injective hk
    exact ⟨failure, List.mem_flatMap.mpr ⟨_, hmem, hfailure⟩, hof hfailure⟩

theorem not_before_of_before {c d : LakeFile} (h : v.Before c d) : ¬ v.Before d c := by
  rintro (hdc | ⟨heq, hdc⟩)
  · rcases h with hcd | ⟨heq, -⟩
    · exact hcd.asymm hdc
    · exact hdc.ne heq.symm
  · rcases h with hcd | ⟨-, hcd⟩
    · exact hcd.ne heq.symm
    · exact hcd.asymm hdc

/-- **A group has a failure** exactly if a file of it begins before one that
comes before it has ended. -/
theorem overlapsOf_ne_nil_iff (g : LakeGroup) :
    overlapsOf g (v.spansOf g) ≠ [] ↔ ∃ c ∈ v.validated, ∃ d ∈ v.validated,
      c.group = g ∧ d.group = g ∧ v.Before c d ∧ v.begins d ≤ v.ends c := by
  let files := v.validated.filter (fun f => decide (f.group = g))
  let span : LakeFile → FileSpan := fun f => ⟨v.begins f, v.ends f, (v.fileReport f).path⟩
  have hfiles : ∀ f, f ∈ files ↔ f ∈ v.validated ∧ f.group = g := by
    intro f
    rw [List.mem_filter, decide_eq_true_eq]
  have hsort : StableSort.sort FileSpan.firstTs (v.spansOf g)
      = (StableSort.sort v.begins files).map span :=
    (List.map_mergeSort (f := span) (fun _ _ _ _ => rfl)).symm
  -- the files of a group are walked by name, and so stay where the sort finds a tie
  have hnames : files.Pairwise (fun a b => a.name < b.name) := by
    refine ((v.pairwise_walked.filter _).filter _).imp_of_mem (fun ha hb hab => hab.2 ?_)
    exact ((hfiles _).mp ha).2.trans ((hfiles _).mp hb).2.symm
  have hbefore : (StableSort.sort v.begins files).Pairwise v.Before :=
    StableSort.pairwise_sort_lex hnames
  have hnil : overlapsOf g (v.spansOf g) = [] ↔
      (StableSort.sort v.begins files).Pairwise (fun a b => v.ends a < v.begins b) := by
    have hneighbours := StableSort.pairwise_iff_neighbours FileSpan.lastTs
      (StableSort.pairwise_sort (f := FileSpan.firstTs) (v.spansOf g))
    unfold overlapsOf
    dsimp only
    rw [List.map_eq_nil_iff, List.filter_eq_nil_iff]
    simp only [decide_eq_true_eq, not_le]
    rw [← hneighbours, hsort, List.pairwise_map]
  rw [Ne, hnil, StableSort.pairwise_iff_of_sorted (fun _ _ => v.not_before_of_before) hbefore]
  push Not
  simp only [List.mem_mergeSort, hfiles]
  constructor
  · rintro ⟨c, ⟨hc, hcg⟩, d, ⟨hd, hdg⟩, hcd, hle⟩
    exact ⟨c, hc, d, hd, hcg, hdg, hcd, hle⟩
  · rintro ⟨c, hc, d, hd, hcg, hdg, hcd, hle⟩
    exact ⟨c, ⟨hc, hcg⟩, d, ⟨hd, hdg⟩, hcd, hle⟩

/-- **When every overlap is reported**: exactly if the overlaps show. -/
theorem reportsOverlaps_iff : v.ReportsOverlaps ↔ v.OverlapsShow := by
  have hvalidated : ∀ f, f ∈ v.validated ↔ f ∈ v.walked ∧ v.skips v.knownFiles f = false := by
    intro f
    unfold validated
    rw [List.mem_filter, Bool.not_eq_true']
  refine forall₂_congr (fun a _ => forall₂_congr (fun b _ => imp_congr_right (fun _ =>
    imp_congr_right (fun _ => imp_congr_right (fun _ => ?_)))))
  rw [exists_failure_iff, overlapsOf_ne_nil_iff]
  simp only [hvalidated]
  constructor
  · rintro ⟨c, ⟨hc, hcs⟩, d, ⟨hd, hds⟩, hcg, hdg, hcd, hle⟩
    exact ⟨c, hc, d, hd, hcg, hdg, hcs, hds, hcd, hle⟩
  · rintro ⟨c, hc, d, hd, hcg, hdg, hcs, hds, hcd, hle⟩
    exact ⟨c, ⟨hc, hcs⟩, d, ⟨hd, hds⟩, hcg, hdg, hcd, hle⟩

/-- **When the validator misses nothing it checks for.** In a file of order
books: exactly if the symbols can be read, a time repeated or out of order is
so between two symbols as well, and of the rows as they are read a bid and an
ask still cross, and what is not positive prevails over what shares its place.
Between files: exactly if, in a group where two overlap, two that are not passed
over show it by their first and last record. -/
theorem misses_nothing_iff {F : Type} (call : ValidateCall F) (batch : List Orderbook)
    (lake : ValidateLake) :
    (call.MissesNothing batch ↔ ValidateCall.Unmasked call.floats call.unicode batch) ∧
      (lake.ReportsOverlaps ↔ lake.OverlapsShow) :=
  ⟨call.missesNothing_iff batch, lake.reportsOverlaps_iff⟩

/-! ### One time twice, and a file seen before -/

/-- Numbers that are exact, and read as whole ones. -/
def wholeFloats : StoredFloats ℚ := { Floats.exact with toDecimal := fun q => ⟨q.num, 0⟩ }

/-- A call on a file of order books. -/
def sampleCall : ValidateCall ℚ :=
  ⟨wholeFloats, ⟨id, id⟩, wholeReader, ⟨2, 100, 1 / 5⟩, "/data/kraken/orderbooks", "kraken", 4096,
    "BTC-USDT_ob_sync_20231114.parquet"⟩

/-- A file of trades at two times. -/
def sampleTrades (name : String) (first last : ℕ) : LakeFile where
  exchange := "kraken"
  name := name
  sizeBytes := 4096
  content := .trades (.ok ⟨10, [[first, last].map (fun ts =>
    ⟨ts, "BTC/USDT", "buy", ⟨36000, 0⟩, ⟨1, 0⟩, "kraken", toString ts, ts, 0, "ws"⟩)]⟩)

/-- Two files that overlap, the first of them seen before. -/
def seenLake : ValidateLake where
  unicode := ⟨id, id⟩
  reader := wholeReader
  cli := ⟨2, 100, 1 / 5⟩
  dataDir := "/data"
  expectExchanges := ["kraken"]
  skipSeen := true
  knownFiles path := if path = "/data/kraken/trades/BTC-USDT_trades_sync_1.parquet" then some 4096
    else none
  dirs := ["kraken"]
  files := [sampleTrades "BTC-USDT_trades_sync_1.parquet" 100 300,
    sampleTrades "BTC-USDT_trades_sync_2.parquet" 200 400]
  dirs_nodup := by decide
  paths_nodup := by decide

/-- **A repeated time and an overlap that are missed.** The books of two venues
are of one symbol and time, and the file passes the test for it; of two files
that overlap one was seen before, and no failure is found. -/
theorem not_misses_nothing :
    ¬ sampleCall.MissesNothing [venueBook "kraken", venueBook "bybit"] ∧
      ¬ seenLake.ReportsOverlaps := by
  constructor
  · intro h
    have hreports := h.sharesTime (by unfold ValidateCall.SharesTime; decide)
    obtain ⟨-, a, ha, b, hb, -, -, hne, -⟩ :=
      (ValidateCall.reports_uniqueOrderbookTs_iff _ _).mp hreports
    have hsymbol : ∀ ob ∈ [venueBook "kraken", venueBook "bybit"],
        ob.symbol = "BTC/USDT" := by decide
    exact hne ((hsymbol a ha).trans (hsymbol b hb).symm)
  · intro h
    have hmem : ∀ f ∈ seenLake.files, f ∈ seenLake.walked := by
      intro f hf
      rw [mem_walked_iff]
      rcases List.mem_pair.mp hf with rfl | rfl
      · exact ⟨by decide, hf, by decide⟩
      · exact ⟨by decide, hf, by decide⟩
    have hfailure := h _ (hmem _ List.mem_cons_self) _
      (hmem _ (List.mem_cons_of_mem _ List.mem_cons_self)) (by decide) (by decide +kernel)
      ⟨⟨100, by decide, 200, by decide, by decide⟩,
        ⟨300, by decide, 200, by decide, by decide⟩⟩
    rw [exists_failure_iff, overlapsOf_ne_nil_iff] at hfailure
    obtain ⟨c, hc, d, hd, -, -, hcd, -⟩ := hfailure
    -- the second file is the only one that is not passed over
    have hone : ∀ f ∈ seenLake.validated,
        f = sampleTrades "BTC-USDT_trades_sync_2.parquet" 200 400 := by
      intro f hf
      obtain ⟨hf, hskip⟩ := List.mem_filter.mp hf
      rcases List.mem_pair.mp (seenLake.mem_walked_iff.mp hf).2.1 with rfl | rfl
      · exact absurd hskip (by decide)
      · rfl
    rw [hone c hc, hone d hd] at hcd
    exact seenLake.not_before_of_before hcd hcd

end ValidateLake
