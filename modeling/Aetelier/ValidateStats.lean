import Aetelier.HashMap
import Aetelier.ValidateOverlap
import Mathlib.Algebra.BigOperators.Group.List.Basic

/-!
# The statistics of the validator

The validator keeps a state across its runs: the sizes of the files it knows, by
path, and counters. Some of these are read off the known files after each run,
the number of distinct files and their bytes. The others are added to, by each
report of the run: the snapshots and the trades, and all of what is counted for a
venue.

So a file that is walked again – without `--skip-seen` every file is, and with it
a file that has grown – is one known file, with its last size, and two reports.
The state is a function of all reports there have been
(`ValidateState.Holds.run`), and its two kinds of counter agree exactly as long
as no file is reported twice (`ValidateState.countedOnce_iff`).

A run that cannot write its report or its state leaves the state as it was, and
is no run here.
-/

/-- What is counted for a venue. -/
structure ExchangeStats where
  files : ℕ := 0
  bytes : ℕ := 0
  orderbookSnapshots : ℕ := 0
  trades : ℕ := 0

/-- The counters over all runs. -/
structure Cumulative where
  runs : ℕ := 0
  distinctFiles : ℕ := 0
  bytes : ℕ := 0
  orderbookSnapshots : ℕ := 0
  trades : ℕ := 0
  perExchange : OrdMap String ExchangeStats (id : String → String) := .empty

/-- What is kept of a run. -/
structure RunSummary where
  runId : ℕ
  filesSeen : ℕ
  newFiles : ℕ
  bytesSeen : ℕ
  totalOrderbookSnapshots : ℕ
  totalTrades : ℕ

/-- **The state of the validator**, kept across its runs. -/
structure ValidateState where
  runs : List RunSummary
  cumulative : Cumulative
  /-- The sizes of the files that have been validated, by path. -/
  knownFiles : HashMap String ℕ

/-- What is kept while the files of a run are walked. -/
structure FileWalk where
  knownFiles : HashMap String ℕ
  newFiles : ℕ := 0
  bytesSeen : ℕ := 0
  totalObSnapshots : ℕ := 0
  totalTrades : ℕ := 0
  fileReports : List FileReport := []

namespace FileReport

/-- The snapshots a report counts. -/
def obSnapshots (r : FileReport) : ℕ :=
  match r.kind with
  | .orderbook => r.distinctTsCount
  | .trades => 0

/-- The trades a report counts. -/
def tradeRows (r : FileReport) : ℕ :=
  match r.kind with
  | .orderbook => 0
  | .trades => r.rowCount

end FileReport

/-- A report adds to what is counted for its venue. -/
def ExchangeStats.add (stats : ExchangeStats) (fr : FileReport) : ExchangeStats where
  files := stats.files + 1
  bytes := stats.bytes + fr.sizeBytes
  orderbookSnapshots := match fr.kind with
    | .orderbook => stats.orderbookSnapshots + fr.distinctTsCount
    | .trades => stats.orderbookSnapshots
  trades := match fr.kind with
    | .orderbook => stats.trades
    | .trades => stats.trades + fr.rowCount

/-- The body of the walk. -/
def ValidateLake.walkFile (v : ValidateLake) (w : FileWalk) (f : LakeFile) : FileWalk :=
  let path := f.path v.dataDir
  let alreadySeen := decide (w.knownFiles.get? path = some f.sizeBytes)
  if v.skipSeen && alreadySeen then w
  else
    let report := v.fileReport f
    { knownFiles := w.knownFiles.insert path f.sizeBytes
      newFiles := if alreadySeen then w.newFiles else w.newFiles + 1
      bytesSeen := w.bytesSeen + f.sizeBytes
      totalObSnapshots := match f.kind with
        | .orderbook => w.totalObSnapshots + report.distinctTsCount
        | .trades => w.totalObSnapshots
      totalTrades := match f.kind with
        | .orderbook => w.totalTrades
        | .trades => w.totalTrades + report.rowCount
      fileReports := w.fileReports ++ [report] }

namespace ValidateState

/-- No state file yet. -/
def start (hasher : RandomState String) : ValidateState := ⟨[], {}, .empty hasher⟩

/-- The walk of a run. -/
def walk (st : ValidateState) (v : ValidateLake) : FileWalk :=
  v.walked.foldl v.walkFile { knownFiles := st.knownFiles }

/-- **A run of the validator**: what it makes of the state it has loaded. -/
def run (st : ValidateState) (v : ValidateLake) : ValidateState :=
  let w := st.walk v
  { runs := st.runs ++ [⟨st.cumulative.runs + 1, w.fileReports.length, w.newFiles, w.bytesSeen,
      w.totalObSnapshots, w.totalTrades⟩]
    cumulative :=
      { runs := st.cumulative.runs + 1
        distinctFiles := w.knownFiles.keys.length
        bytes := w.knownFiles.values.sum
        orderbookSnapshots := st.cumulative.orderbookSnapshots + w.totalObSnapshots
        trades := st.cumulative.trades + w.totalTrades
        perExchange := w.fileReports.foldl
          (OrdMap.upsert FileReport.exchange (fun _ => {}) ExchangeStats.add)
          st.cumulative.perExchange }
    knownFiles := w.knownFiles }

/-- One run after another. -/
def runAll (st : ValidateState) : List ValidateLake → ValidateState
  | [] => st
  | v :: rest => (st.run v).runAll rest

/-- All reports of these runs. -/
def reports (st : ValidateState) : List ValidateLake → List FileReport
  | [] => []
  | v :: rest => (st.walk v).fileReports ++ (st.run v).reports rest

end ValidateState

/-! ## What is to hold -/

/-- The last report there has been on a path. -/
def FileReport.lastOn (history : List FileReport) (path : String) : Option FileReport :=
  (history.filter (fun r => decide (r.path = path))).getLast?

/-- The sum of a count over the venues. -/
def Cumulative.total (c : Cumulative) (count : ExchangeStats → ℕ) : ℕ :=
  (c.perExchange.entries.map (fun e => count e.2)).sum

namespace ValidateState

/-- The sum over the known files of a count, each as last reported. -/
def sumKnown (st : ValidateState) (history : List FileReport) (count : FileReport → ℕ) : ℕ :=
  (st.knownFiles.keys.map (fun path =>
    ((FileReport.lastOn history path).map count).getD 0)).sum

/-- **Each file is counted once**: the files and bytes of the venues sum up to
the distinct files and their bytes, and of each known file one report is in the
totals, which are the snapshots and the trades of the known files. -/
structure CountedOnce (st : ValidateState) (history : List FileReport) : Prop where
  files : st.cumulative.total ExchangeStats.files = st.cumulative.distinctFiles
  bytes : st.cumulative.total ExchangeStats.bytes = st.cumulative.bytes
  once : ∀ path ∈ st.knownFiles.keys,
    (history.filter (fun r => decide (r.path = path))).length = 1
  snapshots : st.cumulative.orderbookSnapshots = st.sumKnown history FileReport.obSnapshots
  trades : st.cumulative.trades = st.sumKnown history FileReport.tradeRows

/-- **A run finds nothing to report again**: a file it walks that is known is one
it skips. -/
def Fresh (st : ValidateState) (v : ValidateLake) : Prop :=
  ∀ f ∈ v.walked, f.path v.dataDir ∈ st.knownFiles.keys →
    v.skipSeen = true ∧ st.knownFiles.get? (f.path v.dataDir) = some f.sizeBytes

/-- So does every one of these runs. -/
def AllFresh (st : ValidateState) : List ValidateLake → Prop
  | [] => True
  | v :: rest => st.Fresh v ∧ (st.run v).AllFresh rest

end ValidateState

/-! ## The reports of a run -/

section Reports

variable (v : ValidateLake)

/-- A report is of its file. -/
theorem ValidateLake.fields_validateFile {f : LakeFile} {r : FileReport}
    (h : v.validateFile f = .ok r) :
    r.path = f.path v.dataDir ∧ r.sizeBytes = f.sizeBytes ∧ r.kind = f.kind := by
  obtain ⟨exchange, name, sizeBytes, content⟩ := f
  unfold ValidateLake.validateFile at h
  cases content with
  | orderbooks file =>
    cases file with
    | error e => cases h
    | ok file =>
      dsimp only at h
      unfold Validate.orderbookFile at h
      split at h
      · next books hload =>
        have hr := Except.ok.inj h
        subst hr
        dsimp only [Validate.report, LakeFile.path, LakeFile.kind]
        exact ⟨rfl, rfl, rfl⟩
      · cases h
  | trades file =>
    cases file with
    | error e => cases h
    | ok file =>
      dsimp only at h
      unfold Validate.tradesFile at h
      split at h
      · next ts hread =>
        have hr := Except.ok.inj h
        subst hr
        dsimp only [Validate.report, LakeFile.path, LakeFile.kind]
        exact ⟨rfl, rfl, rfl⟩
      · cases h

theorem ValidateLake.fields_fileReport (f : LakeFile) :
    (v.fileReport f).path = f.path v.dataDir ∧ (v.fileReport f).sizeBytes = f.sizeBytes
      ∧ (v.fileReport f).kind = f.kind := by
  unfold ValidateLake.fileReport
  split
  · next r hr => exact v.fields_validateFile hr
  · unfold ValidateLake.readFailed
    dsimp only
    exact ⟨rfl, rfl, rfl⟩

/-- A report makes its file known. -/
def FileReport.note (known : HashMap String ℕ) (r : FileReport) : HashMap String ℕ :=
  known.insert r.path r.sizeBytes

/-- What holds of a walk that began with the files `known`: its known files and
its totals are those of its reports. -/
structure FileWalk.Holds (known : HashMap String ℕ) (w : FileWalk) : Prop where
  known_eq : w.knownFiles = w.fileReports.foldl FileReport.note known
  obSnapshots_eq : w.totalObSnapshots = (w.fileReports.map FileReport.obSnapshots).sum
  trades_eq : w.totalTrades = (w.fileReports.map FileReport.tradeRows).sum

/-- One file of the walk. -/
theorem FileWalk.Holds.walkFile {known : HashMap String ℕ} {w : FileWalk} (h : w.Holds known)
    (f : LakeFile) : (v.walkFile w f).Holds known := by
  obtain ⟨hpath, hsize, hkind⟩ := v.fields_fileReport f
  unfold ValidateLake.walkFile
  dsimp only
  split
  · exact h
  · refine ⟨?_, ?_, ?_⟩
    · dsimp only
      rw [List.foldl_append, ← h.known_eq]
      show _ = w.knownFiles.insert _ _
      rw [hpath, hsize]
    · dsimp only
      rw [List.map_append, List.sum_append, ← h.obSnapshots_eq, List.map_singleton,
        List.sum_singleton]
      unfold FileReport.obSnapshots
      rw [hkind]
      cases f.kind <;> rfl
    · dsimp only
      rw [List.map_append, List.sum_append, ← h.trades_eq, List.map_singleton,
        List.sum_singleton]
      unfold FileReport.tradeRows
      rw [hkind]
      cases f.kind <;> rfl

theorem ValidateState.holds_walk (st : ValidateState) : (st.walk v).Holds st.knownFiles := by
  have hfold : ∀ (files : List LakeFile) (w : FileWalk), w.Holds st.knownFiles →
      (files.foldl v.walkFile w).Holds st.knownFiles := by
    intro files
    induction files with
    | nil => exact fun w h => h
    | cons f files ih => exact fun w h => ih _ (h.walkFile v f)
  exact hfold v.walked _ ⟨rfl, rfl, rfl⟩

/-- **The reports of a walk** are those on the files it does not skip. -/
theorem fileReports_foldl_walkFile {files : List LakeFile}
    (hfiles : (files.map (LakeFile.path v.dataDir)).Nodup) (w : FileWalk) :
    (files.foldl v.walkFile w).fileReports = w.fileReports
      ++ (files.filter (fun f => !v.skips w.knownFiles.get? f)).map v.fileReport := by
  induction files generalizing w with
  | nil => exact (List.append_nil _).symm
  | cons f files ih =>
    rw [List.map_cons, List.nodup_cons] at hfiles
    rw [List.foldl_cons, ih hfiles.2]
    have hbody : v.walkFile w f = if v.skips w.knownFiles.get? f then w
        else (v.walkFile w f) := by
      unfold ValidateLake.walkFile ValidateLake.skips
      dsimp only
      split <;> rfl
    cases hskip : v.skips w.knownFiles.get? f with
    | true =>
      rw [hbody, hskip, if_pos rfl, List.filter_cons_of_neg (by rw [hskip]; decide)]
    | false =>
      have hstep : (v.walkFile w f).fileReports = w.fileReports ++ [v.fileReport f] ∧
          (v.walkFile w f).knownFiles
            = w.knownFiles.insert (f.path v.dataDir) f.sizeBytes := by
        unfold ValidateLake.walkFile
        unfold ValidateLake.skips at hskip
        dsimp only
        rw [hskip]
        exact ⟨rfl, rfl⟩
      -- what becomes known is of this path, and no later file has it
      have hrest : files.filter (fun g => !v.skips (v.walkFile w f).knownFiles.get? g)
          = files.filter (fun g => !v.skips w.knownFiles.get? g) := by
        refine List.filter_congr (fun g hg => ?_)
        have hne : g.path v.dataDir ≠ f.path v.dataDir :=
          fun h => hfiles.1 (h ▸ List.mem_map_of_mem hg)
        rw [v.skips_congr]
        rw [hstep.2, HashMap.get?_insert, if_neg hne]
      rw [hrest, hstep.1, List.filter_cons_of_pos (by rw [hskip]; decide), List.map_cons,
        List.append_assoc]
      rfl

theorem ValidateState.fileReports_walk (st : ValidateState) :
    (st.walk v).fileReports
      = (v.walked.filter (fun f => !v.skips st.knownFiles.get? f)).map v.fileReport :=
  fileReports_foldl_walkFile v v.nodup_paths_walked _

end Reports

/-! ## The state as a function of the reports -/

section History

variable {hasher : RandomState String} {history : List FileReport}

/-- What becomes known by reports is the size of the last on a path. -/
theorem FileReport.get?_foldl_note (path : String) :
    (history.foldl FileReport.note (HashMap.empty hasher)).get? path
      = (FileReport.lastOn history path).map FileReport.sizeBytes := by
  unfold FileReport.lastOn
  induction history using List.reverseRecOn with
  | nil => rfl
  | append_singleton history r ih =>
    rw [List.foldl_append, List.filter_append]
    show (HashMap.insert r.path r.sizeBytes _).get? path = _
    rw [HashMap.get?_insert, ih]
    by_cases hpath : path = r.path
    · rw [if_pos hpath, List.filter_cons_of_pos (by simpa using hpath.symm), List.filter_nil,
        List.getLast?_concat]
      rfl
    · rw [if_neg hpath, List.filter_cons_of_neg (by simpa using Ne.symm hpath), List.filter_nil,
        List.append_nil]

theorem FileReport.mem_keys_foldl_note {path : String} :
    path ∈ (history.foldl FileReport.note (HashMap.empty hasher)).keys
      ↔ path ∈ history.map FileReport.path := by
  rw [HashMap.mem_keys]
  simp only [FileReport.get?_foldl_note, Option.map_eq_some_iff]
  constructor
  · rintro ⟨_, r, hr, -⟩
    obtain ⟨hmem, hpath⟩ := List.mem_filter.mp (List.mem_of_getLast? hr)
    exact List.mem_map.mpr ⟨r, hmem, of_decide_eq_true hpath⟩
  · intro hmem
    obtain ⟨r, hr, rfl⟩ := List.mem_map.mp hmem
    have hne : history.filter (fun x => decide (x.path = r.path)) ≠ [] :=
      List.ne_nil_of_mem (List.mem_filter.mpr ⟨hr, decide_eq_true rfl⟩)
    exact ⟨_, _, List.getLast?_eq_some_getLast hne, rfl⟩

/-- If no path is reported on twice, the last report on a path is the only
one. -/
theorem FileReport.filter_path_of_nodup (hnodup : (history.map FileReport.path).Nodup)
    {r : FileReport} (hr : r ∈ history) :
    history.filter (fun x => decide (x.path = r.path)) = [r] := by
  have hmem : ∀ x, x ∈ history.filter (fun x => decide (x.path = r.path)) ↔ x ∈ [r] := by
    intro x
    rw [List.mem_filter, decide_eq_true_iff, List.mem_singleton]
    constructor
    · rintro ⟨hx, hpath⟩
      exact List.inj_on_of_nodup_map hnodup hx hr hpath
    · rintro rfl
      exact ⟨hr, rfl⟩
  have hfilter : (history.filter (fun x => decide (x.path = r.path))).Nodup :=
    hnodup.of_map.filter _
  exact List.perm_singleton.mp
    ((List.perm_ext_iff_of_nodup hfilter (List.nodup_singleton r)).mpr hmem)

theorem FileReport.lastOn_of_nodup (hnodup : (history.map FileReport.path).Nodup)
    {r : FileReport} (hr : r ∈ history) : FileReport.lastOn history r.path = some r := by
  unfold FileReport.lastOn
  rw [FileReport.filter_path_of_nodup hnodup hr]
  rfl

/-- What holds of a state after these reports: everything in it that is counted
is counted by them. -/
structure ValidateState.Holds (hasher : RandomState String) (st : ValidateState)
    (history : List FileReport) : Prop where
  known_eq : st.knownFiles = history.foldl FileReport.note (HashMap.empty hasher)
  perExchange_eq : st.cumulative.perExchange = history.foldl
    (OrdMap.upsert FileReport.exchange (fun _ => {}) ExchangeStats.add) .empty
  distinctFiles_eq : st.cumulative.distinctFiles = st.knownFiles.keys.length
  bytes_eq : st.cumulative.bytes = st.knownFiles.values.sum
  snapshots_eq : st.cumulative.orderbookSnapshots = (history.map FileReport.obSnapshots).sum
  trades_eq : st.cumulative.trades = (history.map FileReport.tradeRows).sum

namespace ValidateState

variable {st : ValidateState}

theorem holds_start (hasher : RandomState String) : (start hasher).Holds hasher [] := by
  have hkeys : (HashMap.empty hasher : HashMap String ℕ).keys = [] :=
    List.Perm.eq_nil (HashMap.keys_perm _)
  refine ⟨rfl, rfl, ?_, ?_, rfl, rfl⟩
  · show 0 = (HashMap.empty hasher : HashMap String ℕ).keys.length
    rw [hkeys]
    rfl
  · show 0 = (HashMap.empty hasher : HashMap String ℕ).values.sum
    unfold HashMap.values
    rw [HashMap.iter_empty]
    rfl

/-- **One run**: its reports join those there have been. -/
theorem Holds.run (h : st.Holds hasher history) (v : ValidateLake) :
    (st.run v).Holds hasher (history ++ (st.walk v).fileReports) := by
  have hwalk := st.holds_walk v
  refine ⟨?_, ?_, rfl, rfl, ?_, ?_⟩
  · rw [List.foldl_append, ← h.known_eq]
    exact hwalk.known_eq
  · rw [List.foldl_append, ← h.perExchange_eq]
    rfl
  · rw [List.map_append, List.sum_append, ← h.snapshots_eq, ← hwalk.obSnapshots_eq]
    rfl
  · rw [List.map_append, List.sum_append, ← h.trades_eq, ← hwalk.trades_eq]
    rfl

/-- Any number of runs. -/
theorem Holds.runAll (h : st.Holds hasher history) (runs : List ValidateLake) :
    (st.runAll runs).Holds hasher (history ++ st.reports runs) := by
  induction runs generalizing st history with
  | nil =>
    show st.Holds hasher (history ++ [])
    rwa [List.append_nil]
  | cons v rest ih =>
    have hrest := ih (h.run v)
    rwa [List.append_assoc] at hrest

/-- What the venues count together is what the reports count. -/
theorem Holds.total_eq (h : st.Holds hasher history) {count : ExchangeStats → ℕ}
    {amount : FileReport → ℕ} (hzero : count {} = 0)
    (hadd : ∀ stats fr, count (ExchangeStats.add stats fr) = count stats + amount fr) :
    st.cumulative.total count = (history.map amount).sum := by
  unfold Cumulative.total
  rw [h.perExchange_eq]
  exact OrdMap.sum_foldl_upsert count amount (fun _ => hzero) hadd history

/-- Known are the paths that were reported on. -/
theorem Holds.mem_keys_iff (h : st.Holds hasher history) (path : String) :
    path ∈ st.knownFiles.keys ↔ path ∈ history.map FileReport.path := by
  rw [h.known_eq]
  exact FileReport.mem_keys_foldl_note

/-- Without a second report on a path, the known paths are those of the
reports. -/
theorem Holds.keys_perm (h : st.Holds hasher history)
    (hnodup : (history.map FileReport.path).Nodup) :
    st.knownFiles.keys.Perm (history.map FileReport.path) :=
  (List.perm_ext_iff_of_nodup st.knownFiles.keys_nodup hnodup).mpr h.mem_keys_iff

/-- Without a second report on a path, the known files have what is reported. -/
theorem Holds.sumKnown_eq (h : st.Holds hasher history)
    (hnodup : (history.map FileReport.path).Nodup) (count : FileReport → ℕ) :
    st.sumKnown history count = (history.map count).sum := by
  unfold sumKnown
  rw [((h.keys_perm hnodup).map _).sum_eq, List.map_map]
  refine congrArg List.sum (List.map_congr_left (fun r hr => ?_))
  show ((FileReport.lastOn history r.path).map count).getD 0 = count r
  rw [FileReport.lastOn_of_nodup hnodup hr]
  rfl

/-- **Each file is counted once exactly if none is reported twice.** -/
theorem Holds.countedOnce_iff_nodup (h : st.Holds hasher history) :
    st.CountedOnce history ↔ (history.map FileReport.path).Nodup := by
  have hfiles : st.cumulative.total ExchangeStats.files
      = (history.map FileReport.path).length := by
    have hones : st.cumulative.total ExchangeStats.files = (history.map (fun _ => 1)).sum :=
      h.total_eq rfl (fun _ _ => rfl)
    rw [hones, List.length_map]
    simp
  constructor
  · intro hcounted
    have hlength := hcounted.files
    rw [hfiles, h.distinctFiles_eq] at hlength
    have hsub : st.knownFiles.keys.Subperm (history.map FileReport.path) :=
      List.subperm_of_subset st.knownFiles.keys_nodup
        (fun path hpath => (h.mem_keys_iff path).mp hpath)
    exact (hsub.perm_of_length_le hlength.le).nodup_iff.mp st.knownFiles.keys_nodup
  · intro hnodup
    refine ⟨?_, ?_, fun path hpath => ?_, ?_, ?_⟩
    · rw [hfiles, h.distinctFiles_eq, (h.keys_perm hnodup).length_eq]
    · have hbytes : st.cumulative.total ExchangeStats.bytes
          = (history.map FileReport.sizeBytes).sum := h.total_eq rfl (fun _ _ => rfl)
      rw [hbytes, h.bytes_eq, HashMap.values_eq_map_keys _ 0, ← h.sumKnown_eq hnodup]
      unfold sumKnown
      rw [h.known_eq]
      simp only [FileReport.get?_foldl_note]
    · obtain ⟨r, hr, rfl⟩ := List.mem_map.mp ((h.mem_keys_iff path).mp hpath)
      rw [FileReport.filter_path_of_nodup hnodup hr]
      rfl
    · rw [h.snapshots_eq, h.sumKnown_eq hnodup]
    · rw [h.trades_eq, h.sumKnown_eq hnodup]

end ValidateState

end History

/-! ## Runs -/

namespace ValidateState

variable {hasher : RandomState String} {history : List FileReport} {st : ValidateState}

/-- **A run reports nothing again exactly if it finds nothing to report again.** -/
theorem Holds.nodup_run_iff (h : st.Holds hasher history) (v : ValidateLake) :
    ((history ++ (st.walk v).fileReports).map FileReport.path).Nodup
      ↔ (history.map FileReport.path).Nodup ∧ st.Fresh v := by
  have hpaths : (st.walk v).fileReports.map FileReport.path
      = (v.walked.filter (fun f => !v.skips st.knownFiles.get? f)).map
        (LakeFile.path v.dataDir) := by
    rw [st.fileReports_walk v, List.map_map]
    exact List.map_congr_left (fun f _ => (v.fields_fileReport f).1)
  have hown : ((st.walk v).fileReports.map FileReport.path).Nodup := by
    rw [hpaths]
    exact v.nodup_paths_walked.sublist (List.filter_sublist.map _)
  have hfresh : st.Fresh v ↔
      (history.map FileReport.path).Disjoint ((st.walk v).fileReports.map FileReport.path) := by
    rw [hpaths]
    constructor
    · intro hfresh path hpath hagain
      obtain ⟨f, hf, rfl⟩ := List.mem_map.mp hagain
      obtain ⟨hwalked, hskip⟩ := List.mem_filter.mp hf
      obtain ⟨hflag, hsize⟩ := hfresh f hwalked ((h.mem_keys_iff _).mpr hpath)
      unfold ValidateLake.skips at hskip
      rw [hflag, hsize] at hskip
      simp at hskip
    · intro hdisjoint f hwalked hknown
      by_contra hno
      refine hdisjoint ((h.mem_keys_iff _).mp hknown) (List.mem_map_of_mem (List.mem_filter.mpr
        ⟨hwalked, ?_⟩))
      unfold ValidateLake.skips
      cases hflag : v.skipSeen with
      | false => rfl
      | true =>
        have hsize : ¬ st.knownFiles.get? (f.path v.dataDir) = some f.sizeBytes :=
          fun hsize => hno ⟨hflag, hsize⟩
        rw [decide_eq_false hsize]
        rfl
  rw [List.map_append, List.nodup_append', hfresh]
  exact ⟨fun hall => ⟨hall.1, hall.2.2⟩, fun hall => ⟨hall.1, hown, hall.2⟩⟩

theorem Holds.nodup_runAll_iff (h : st.Holds hasher history) (runs : List ValidateLake) :
    ((history ++ st.reports runs).map FileReport.path).Nodup
      ↔ (history.map FileReport.path).Nodup ∧ st.AllFresh runs := by
  induction runs generalizing st history with
  | nil =>
    show ((history ++ []).map FileReport.path).Nodup ↔ _ ∧ True
    rw [List.append_nil, and_true]
  | cons v rest ih =>
    have hrest := ih (h.run v)
    rw [List.append_assoc, h.nodup_run_iff v, and_assoc] at hrest
    exact hrest

/-- What holds of all runs holds of the first ones. -/
theorem AllFresh.of_append {before after : List ValidateLake}
    (h : st.AllFresh (before ++ after)) : st.AllFresh before := by
  induction before generalizing st with
  | nil => trivial
  | cons v before ih => exact ⟨h.1, ih h.2⟩

/-- **The statistics count each file once after every run exactly if no run finds
a file to report again**: each file that it walks and that is known is skipped,
since `--skip-seen` is given and the file has its size still. -/
theorem countedOnce_iff (hasher : RandomState String) (runs : List ValidateLake) :
    (∀ before after, runs = before ++ after →
        ((start hasher).runAll before).CountedOnce ((start hasher).reports before))
      ↔ (start hasher).AllFresh runs := by
  have hiff : ∀ before, ((start hasher).runAll before).CountedOnce ((start hasher).reports before)
      ↔ (start hasher).AllFresh before := by
    intro before
    have hholds := (holds_start hasher).runAll before
    have hnodup := (holds_start hasher).nodup_runAll_iff before
    rw [List.nil_append] at hholds hnodup
    rw [hholds.countedOnce_iff_nodup, hnodup]
    exact and_iff_right List.nodup_nil
  constructor
  · intro hall
    exact (hiff runs).mp (hall runs [] (List.append_nil runs).symm)
  · rintro hfresh before after rfl
    exact (hiff before).mpr hfresh.of_append

/-- A directory with one file of trades, and no `--skip-seen`. -/
def oneFileLake : ValidateLake :=
  { ValidateLake.seenLake with
    skipSeen := false
    files := [ValidateLake.sampleTrades "BTC-USDT_trades_sync_1.parquet" 100 300]
    paths_nodup := List.nodup_singleton _ }

/-- **A directory validated twice counts its file twice.** -/
theorem not_countedOnce :
    ¬ ∀ (hasher : RandomState String) (runs before after : List ValidateLake),
      runs = before ++ after →
        ((start hasher).runAll before).CountedOnce ((start hasher).reports before) := by
  intro hall
  have hfile : ValidateLake.sampleTrades "BTC-USDT_trades_sync_1.parquet" 100 300
      ∈ oneFileLake.walked :=
    oneFileLake.mem_walked_iff.mpr ⟨by decide, List.mem_singleton.mpr rfl, by decide⟩
  have hholds := (holds_start .table).runAll [oneFileLake, oneFileLake]
  have hnodup := (holds_start .table).nodup_runAll_iff [oneFileLake, oneFileLake]
  rw [List.nil_append] at hholds hnodup
  have hcounted := hall .table _ [oneFileLake, oneFileLake] [] rfl
  rw [hholds.countedOnce_iff_nodup, hnodup] at hcounted
  obtain ⟨-, -, hagain, -⟩ := hcounted
  -- the first run has made the file known, and the second does not skip it
  have hknown := ((holds_start .table).run oneFileLake).known_eq
  refine absurd (hagain _ hfile ?_).1 (by decide)
  rw [hknown, FileReport.mem_keys_foldl_note, List.nil_append, fileReports_walk, List.map_map]
  have hskip : (fun f => !oneFileLake.skips (start .table).knownFiles.get? f)
      (ValidateLake.sampleTrades "BTC-USDT_trades_sync_1.parquet" 100 300) = true := rfl
  refine List.mem_map.mpr ⟨_, List.mem_filter.mpr ⟨hfile, hskip⟩, ?_⟩
  exact (oneFileLake.fields_fileReport _).1

end ValidateState
