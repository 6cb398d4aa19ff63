import Aetelier.LeafInvariant

/-!
# A leaf through crashes

One writer calls `persist_leaf` again and again; a crash may come at any step
of any call and takes with it whatever was not fsynced, after which a new
process goes on with the leaf as it finds it. What has to hold then is that
every file in the leaf is complete and accounted for, in the index or among
the pending files, and that every file in the index is there.

It does, but for one place. A file that has been renamed into the leaf and is
not in the index yet is pending – if there is an index. The first file of a
leaf is renamed before its entry creates the index, and a leaf without an
index is taken for one of the time before there were indexes, where nothing is
pending: a crash there leaves a file that neither list knows of.
-/

/-- What becomes of an index that was written to since it was last fsynced. -/
inductive IndexLoss where
  /-- It is there as it was written. -/
  | kept
  /-- The file is there, without what was written. -/
  | created
  /-- It is as it was last fsynced. -/
  | lost
deriving DecidableEq, Repr

/-- **What a crash takes**, of what was not fsynced. -/
structure CrashLoss where
  /-- The contents of the files that were not. -/
  garbled : ℕ → List UInt8
  /-- What is left in `.staging`. -/
  staging : Dir
  /-- The names of the leaf that survive without an fsync of it. -/
  keeps : String → Bool
  /-- The fate of the index. -/
  index : IndexLoss

/-- The index after a crash. -/
def CrashLoss.indexAfter {τ : Type} (loss : CrashLoss) (leaf : Leaf τ) : Option (List UInt8) :=
  match loss.index with
  | .kept => leaf.index
  | .created => leaf.index.map (fun _ => leaf.indexSynced.getD [])
  | .lost => leaf.indexSynced

/-- The name survives a crash. -/
def CrashLoss.keepsName {τ : Type} (loss : CrashLoss) (leaf : Leaf τ) (name : String) : Bool :=
  (leaf.durable.get? name).isSome || loss.keeps name

namespace Leaf

variable {τ : Type}

/-- **The leaf after a crash.** -/
def crash (loss : CrashLoss) (leaf : Leaf τ) : Leaf τ where
  inodes := leaf.inodes.mapIdx (fun i f =>
    if f.synced then f else { f with bytes := loss.garbled i, synced := true })
  staging := loss.staging
  files := leaf.files.retain (loss.keepsName leaf)
  durable := leaf.files.retain (loss.keepsName leaf)
  index := loss.indexAfter leaf
  indexSynced := loss.indexAfter leaf
  lock := .free

/-- **The leaf is accounted for**: every file in it is complete, and listed
with its rows and its hash or pending; every file listed is in it. -/
def Accounted (c : EntryCodec) (sha : List UInt8 → String) (leaf : Leaf τ) : Prop :=
  ∃ entries torn pending, LeafIndex.readIndex c leaf.index = .ok (entries, torn)
    ∧ leaf.pendingFiles c = .ok pending
    ∧ (∀ name, (leaf.files.get? name).isSome →
        ∃ f, leaf.fileAt name = some f ∧ f.bytes = f.author.bytes
          ∧ ((∃ e ∈ entries, e.filename = name ∧ e.rows = f.author.rows ∧ e.sha256 = sha f.bytes)
            ∨ name ∈ pending))
    ∧ ∀ e ∈ entries, (leaf.files.get? e.filename).isSome

end Leaf

/-- **The writer of a leaf**: the leaf, and the call that is running. -/
structure LeafWriter (τ : Type) where
  /-- The leaf. -/
  leaf : Leaf τ
  /-- The call, and where it is. -/
  call : Option (PersistCall τ × PersistPc)

/-- What happens to a writer. -/
inductive LeafInput (τ : Type) where
  /-- `persist_leaf` is called. -/
  | call (call : PersistCall τ)
  /-- The call that is running makes a step. -/
  | tick
  /-- A crash, and a new process. -/
  | crash (loss : CrashLoss)

namespace LeafWriter

variable {τ : Type}

/-- A writer on an empty leaf. -/
def start : LeafWriter τ := ⟨.empty, none⟩

/-- The writer as a machine; it writes the names a step overwrites. -/
def machine (c : EntryCodec) (sha : List UInt8 → String) (path : String) :
    Machine (LeafWriter τ) (LeafInput τ) String where
  step s
    | .call call => (if s.call.isSome then s else { s with call := some (call, .createLeaf) }, [])
    | .tick =>
      match s.call with
      | none => (s, [])
      | some (call, pc) =>
        let r := s.leaf.step c sha path call pc
        (⟨r.1, r.2.pc?.map (fun pc' => (call, pc'))⟩, s.leaf.overwritten r.1)
    | .crash loss => (⟨s.leaf.crash loss, none⟩, [])

/-- **The crash cuts the first file of the leaf**: it comes between the
rename and the entry, the name survives it, and no index does. -/
def CutsFirstFile (s : LeafWriter τ) (loss : CrashLoss) : Prop :=
  ∃ call pc target, s.call = some (call, pc) ∧ pc.target? = some target
    ∧ loss.keepsName s.leaf target = true ∧ loss.indexAfter s.leaf = none

/-- No crash cuts the first file of the leaf. -/
def SparesFirstFile (s : LeafWriter τ) : LeafInput τ → Prop
  | .crash loss => ¬ s.CutsFirstFile loss
  | _ => True

end LeafWriter

namespace Leaf

variable {τ : Type} {c : EntryCodec} {sha : List UInt8 → String}
variable {call : PersistCall τ} {leaf : Leaf τ}

/-! ## The leaf after a crash -/

theorem get?_files_crash (loss : CrashLoss) (leaf : Leaf τ) (name : String) :
    (leaf.crash loss).files.get? name
      = if loss.keepsName leaf name then leaf.files.get? name else none :=
  OrdMap.get?_retain _ _ _

/-- A file that was fsynced is as it was. -/
theorem getElem?_inodes_crash {file : ℕ} {f : Inode τ} (h : leaf.inodes[file]? = some f)
    (hsynced : f.synced = true) (loss : CrashLoss) : (leaf.crash loss).inodes[file]? = some f := by
  show (leaf.inodes.mapIdx _)[file]? = _
  rw [List.getElem?_mapIdx, h, Option.map_some, if_pos hsynced]

/-- A crash leaves the leaf in order. -/
theorem Sound.crash (h : Sound c sha leaf) (loss : CrashLoss) :
    Sound c sha (leaf.crash loss) := by
  have hstay : ∀ name file f, leaf.durable.get? name = some file → leaf.inodes[file]? = some f →
      (leaf.crash loss).files.get? name = some file
        ∧ (leaf.crash loss).inodes[file]? = some f := by
    intro name file f hname hfile
    obtain ⟨-, f', hfile', hsynced, -⟩ := h.complete name file (h.durable name file hname)
    cases hfile.symm.trans hfile'
    refine ⟨?_, getElem?_inodes_crash hfile hsynced loss⟩
    have hkeeps : loss.keepsName leaf name = true := by
      unfold CrashLoss.keepsName
      rw [hname]
      rfl
    rw [get?_files_crash, if_pos hkeeps, h.durable name file hname]
  have hindex : Indexes c sha (leaf.crash loss) ((loss.indexAfter leaf).getD []) := by
    unfold CrashLoss.indexAfter
    cases loss.index with
    | kept => exact h.index.mono hstay
    | lost => exact h.indexSynced.mono hstay
    | created =>
      cases hi : leaf.index with
      | none => exact indexes_nil c sha _
      | some text => exact h.indexSynced.mono hstay
  refine ⟨fun _ _ hname => hname, fun name file hname => ?_, hindex, hindex, id⟩
  rw [get?_files_crash] at hname
  split at hname
  · obtain ⟨hparquet, f, hfile, hsynced, hbytes⟩ := h.complete name file hname
    exact ⟨hparquet, f, getElem?_inodes_crash hfile hsynced loss, hsynced, hbytes⟩
  · cases hname

/-- An index that was fsynced survives. -/
theorem isSome_indexAfter (h : Sound c sha leaf) (hs : leaf.indexSynced.isSome) (loss : CrashLoss) :
    (loss.indexAfter leaf).isSome := by
  unfold CrashLoss.indexAfter
  cases loss.index with
  | kept => exact h.created hs
  | lost => exact hs
  | created =>
    show (Option.map _ leaf.index).isSome
    rw [Option.isSome_map]
    exact h.created hs

/-! ## Files and the index -/

/-- Every file but the one a call is about to list is in a leaf whose index
has been fsynced. -/
def IndexedBut (leaf : Leaf τ) (target : Option String) : Prop :=
  ∀ name, (leaf.files.get? name).isSome → leaf.indexSynced.isSome ∨ target = some name

/-- A step keeps it so: the file it renames is the one to be listed, and the
call ends with an fsync of the index. -/
theorem indexedBut_step (path : String) (hsound : Sound c sha leaf) {pc : PersistPc}
    (hat : At sha call leaf pc) (h : leaf.IndexedBut pc.target?) :
    (leaf.step c sha path call pc).1.IndexedBut
      ((leaf.step c sha path call pc).2.pc?.bind PersistPc.target?) := by
  cases pc with
  | acquireLock =>
    simp only [Leaf.step]
    split <;> exact h
  | sweep names => cases names <;> exact h
  | probeStaged n =>
    simp only [Leaf.step]
    split <;> exact h
  | createStaged staged =>
    have hfree : leaf.staging.get? staged = none := hat.2
    simp only [Leaf.step, hfree]
    exact h
  | syncStaged staged file =>
    obtain ⟨⟨f, hs, -⟩, -⟩ := hat
    simp only [Leaf.step, hs.named]
    exact h
  | probeTarget staged file n =>
    simp only [Leaf.step]
    split <;> exact h
  | rename staged file target =>
    obtain ⟨⟨⟨f, hs, -⟩, -⟩, -⟩ := hat
    simp only [Leaf.step, hs.named]
    intro name hname
    by_cases heq : target = name
    · exact Or.inr (congrArg some heq)
    · have hold : (leaf.files.get? name).isSome := by
        have hname : ((leaf.files.insert target file).get? name).isSome := hname
        rw [Dir.get?_insert, if_neg (Ne.symm heq)] at hname
        exact hname
      exact Or.inl ((h name hold).resolve_right (by simp [PersistPc.target?]))
  | hash target file =>
    obtain ⟨⟨hname, f, hfile, -⟩, -⟩ := hat
    simp only [Leaf.step, hsound.durable target file hname, Option.bind_some, hfile]
    exact h
  | stat target file sha256 =>
    obtain ⟨⟨⟨hname, f, hfile, -⟩, -⟩, -⟩ := hat
    simp only [Leaf.step, hsound.durable target file hname, Option.bind_some, hfile]
    exact h
  | syncIndex target file size => exact fun name _ => Or.inl hat.1
  | _ => exact h

/-- The pending files, where there is an index. -/
theorem pendingFiles_of_isSome {entries : List IndexEntry} {torn : ℕ} (hi : leaf.index.isSome)
    (hread : LeafIndex.readIndex c leaf.index = .ok (entries, torn)) :
    leaf.pendingFiles c = .ok ((leaf.files.entries.map Prod.fst).filter (fun name =>
      parquetSuffix.toList.isSuffixOf name.toList
        && !(entries.map IndexEntry.filename).contains name)) := by
  unfold pendingFiles
  rw [if_neg (by simpa [Option.isSome_iff_ne_none] using hi), hread]
  rfl

/-- A file under a name that is not listed is pending. -/
theorem mem_filter_pending {entries : List IndexEntry} {name : String} {file : ℕ}
    (hname : leaf.files.get? name = some file) (hparquet : IsParquet name)
    (hnot : ∀ e ∈ entries, e.filename ≠ name) :
    name ∈ (leaf.files.entries.map Prod.fst).filter (fun name =>
      parquetSuffix.toList.isSuffixOf name.toList
        && !(entries.map IndexEntry.filename).contains name) := by
  obtain ⟨k, hk, hmem⟩ := OrdMap.get?_eq_some_iff.mp hname
  cases hk
  refine List.mem_filter.mpr ⟨List.mem_map.mpr ⟨_, hmem, rfl⟩, ?_⟩
  have hsuffix : parquetSuffix.toList.isSuffixOf k.toList = true :=
    List.isSuffixOf_iff_suffix.mpr hparquet
  have hlist : (entries.map IndexEntry.filename).contains k = false := by
    rw [List.contains_eq_any_beq, List.any_eq_false]
    intro x hx
    obtain ⟨e, he, rfl⟩ := List.mem_map.mp hx
    simpa using (hnot e he).symm
  show (parquetSuffix.toList.isSuffixOf k.toList && !_) = true
  rw [hsuffix]
  exact congrArg not hlist

/-- **A leaf in order, between calls, is accounted for.** -/
theorem Sound.accounted (h : Sound c sha leaf) (hindexed : leaf.IndexedBut none) :
    leaf.Accounted c sha := by
  obtain ⟨-, es, torn, hread, hes⟩ := h.index
  have hread : LeafIndex.readIndex c leaf.index = .ok (es, torn) :=
    (LeafIndex.readIndex_eq leaf.index).trans hread
  have hlisted : ∀ e ∈ es, (leaf.files.get? e.filename).isSome := by
    intro e he
    obtain ⟨file, f, hname, -⟩ := hes e he
    rw [h.durable _ _ hname]
    rfl
  by_cases hi : leaf.index.isSome
  · refine ⟨es, torn, _, hread, pendingFiles_of_isSome hi hread, fun name hname => ?_, hlisted⟩
    obtain ⟨file, hname⟩ := Option.isSome_iff_exists.mp hname
    obtain ⟨hparquet, f, hfile, -, hbytes⟩ := h.complete name file hname
    have hat : leaf.fileAt name = some f := by
      unfold fileAt
      rw [hname, Option.bind_some, hfile]
    refine ⟨f, hat, hbytes, ?_⟩
    by_cases hmem : ∃ e ∈ es, e.filename = name
    · -- the entry of the name is that of the file under it
      obtain ⟨e, he, rfl⟩ := hmem
      obtain ⟨file', f', hname', hfile', heq⟩ := hes e he
      cases hname.symm.trans (h.durable _ _ hname')
      cases hfile.symm.trans hfile'
      exact Or.inl ⟨e, he, rfl, by rw [heq]; rfl, by rw [heq]; rfl⟩
    · exact Or.inr (mem_filter_pending hname hparquet (fun e he heq => hmem ⟨e, he, heq⟩))
  · -- without an index there is no file
    refine ⟨es, torn, [], hread, ?_, fun name hname => ?_, hlisted⟩
    · unfold pendingFiles
      rw [if_pos (by simpa using hi)]
    · exact absurd (h.created ((hindexed name hname).resolve_right (by simp))) hi

/-- **A leaf with a file and no index is not accounted for.** -/
theorem not_accounted (name : String) (hfile : (leaf.files.get? name).isSome)
    (hindex : leaf.index = none) : ¬ leaf.Accounted c sha := by
  rintro ⟨entries, torn, pending, hread, hpending, hall, -⟩
  rw [hindex] at hread
  unfold pendingFiles at hpending
  rw [hindex] at hpending
  cases hread
  cases hpending
  obtain ⟨f, -, -, hor⟩ := hall name hfile
  rcases hor with ⟨e, he, -⟩ | hmem
  · exact absurd he List.not_mem_nil
  · exact absurd hmem List.not_mem_nil

end Leaf

namespace LeafWriter

variable {τ : Type} {c : EntryCodec} {sha : List UInt8 → String} {path : String}

/-- **What holds of a writer at every step.** -/
structure Inv (c : EntryCodec) (sha : List UInt8 → String) (s : LeafWriter τ) : Prop where
  /-- The leaf is in order. -/
  sound : s.leaf.Sound c sha
  /-- The call finds what it relies on. -/
  at' : ∀ call pc, s.call = some (call, pc) → Leaf.At sha call s.leaf pc
  /-- There is an index, but for the first file. -/
  indexed : s.leaf.IndexedBut (s.call.bind (fun p => p.2.target?))

theorem inv_start : (start : LeafWriter τ).Inv c sha where
  sound := by
    exact ⟨fun _ _ h => (by cases h), fun _ _ h => (by cases h), Leaf.indexes_nil c sha _,
      Leaf.indexes_nil c sha _, id⟩
  at' := fun _ _ h => by cases h
  indexed := fun _ h => by cases h

/-- The step lemma of the writer. -/
theorem inv_step (s : LeafWriter τ) (i : LeafInput τ) (h : s.Inv c sha) (hi : s.SparesFirstFile i) :
    ((machine c sha path).step s i).1.Inv c sha
      ∧ ∀ e ∈ ((machine c sha path).step s i).2, False := by
  cases i with
  | call call =>
    refine ⟨?_, fun e he => absurd he List.not_mem_nil⟩
    show Inv c sha (if s.call.isSome then s else { s with call := some (call, .createLeaf) })
    split
    · exact h
    · next hnone =>
      have hcall : s.call = none := by simpa using hnone
      refine ⟨h.sound, fun _ _ hc => ?_, ?_⟩
      · cases hc
        exact ⟨trivial, trivial⟩
      · have := h.indexed
        rw [hcall] at this
        exact this
  | tick =>
    cases hcall : s.call with
    | none =>
      simp only [machine, hcall]
      exact ⟨h, fun e he => absurd he List.not_mem_nil⟩
    | some p =>
      obtain ⟨call, pc⟩ := p
      have hat := h.at' call pc hcall
      have hindexed : s.leaf.IndexedBut pc.target? := by
        have := h.indexed
        rw [hcall] at this
        exact this
      have hafter := h.sound.step path hat
      have hkeeps := h.sound.keeps_step path hat
      have hindexed' := Leaf.indexedBut_step path h.sound hat hindexed
      simp only [machine, hcall]
      refine ⟨⟨hafter.1, fun call' pc' hc => ?_, ?_⟩, fun e he => ?_⟩
      · obtain ⟨pc'', hpc, heq⟩ := Option.map_eq_some_iff.mp hc
        cases heq
        exact hafter.2 pc' (Progress.eq_at_of_pc? hpc)
      · show Leaf.IndexedBut _ ((Option.map _ _).bind _)
        rw [Option.bind_map]
        exact hindexed'
      · rw [h.sound.overwritten_eq_nil hkeeps] at he
        exact absurd he List.not_mem_nil
  | crash loss =>
    refine ⟨⟨h.sound.crash loss, fun _ _ hc => (by cases hc), fun name hname => Or.inl ?_⟩,
      fun e he => absurd he List.not_mem_nil⟩
    have hget : ((s.leaf.crash loss).files.get? name).isSome := hname
    rw [Leaf.get?_files_crash] at hget
    split at hget
    · next hkeeps =>
      rcases h.indexed name hget with hsynced | htarget
      · exact Leaf.isSome_indexAfter h.sound hsynced loss
      · -- the file the call was about to list: the crash left an index
        obtain ⟨⟨call, pc⟩, hcall, hpc⟩ := Option.bind_eq_some_iff.mp htarget
        refine Option.isSome_iff_ne_none.mpr (fun hnone => hi ?_)
        exact ⟨call, pc, name, hcall, hpc, hkeeps, hnone⟩
    · cases hget

/-- **Every leaf of one writer is accounted for, unless a crash cuts its first
file.** Over every run of calls, each cut by a crash at any step or not at all:
if no crash falls between the rename of the first file and its entry and
leaves the file without an index, then between calls and after every crash
each file in the leaf is complete and either listed with its rows and hash or
pending, each listed file is in the leaf, and no step overwrites a file. -/
theorem accounted_of_sparesFirstFile (c : EntryCodec) (sha : List UInt8 → String) (path : String)
    (is : List (LeafInput τ)) (h : (machine c sha path).Meets SparesFirstFile start is) :
    (((machine c sha path).run start is).1.call = none →
        ((machine c sha path).run start is).1.leaf.Accounted c sha)
      ∧ ((machine c sha path).run start is).2 = [] := by
  obtain ⟨hinv, hout⟩ := (machine c sha path).forall_of_invariant (I := Inv c sha)
    (Q := fun _ => False) inv_step inv_start h
  refine ⟨fun hidle => ?_, List.eq_nil_iff_forall_not_mem.mpr hout⟩
  have hindexed := hinv.indexed
  rw [hidle] at hindexed
  exact hinv.sound.accounted hindexed

/-! ## A crash on the first file, and one on the second -/

/-- A call of two rows. The file is the magic number of its format. -/
def sampleCall : PersistCall Unit where
  datatype := "trades"
  rows := 2
  tMinUs := 1700000000000000
  tMaxUs := 1700000000250000
  stem := "kraken_BTC-USDT_trades_sync_20231114_221320.000"
  bytes := [80, 65, 82, 49]
  tag := ()

/-- The hash of its file. -/
def sampleSha (bytes : List UInt8) : String :=
  if bytes = [80, 65, 82, 49] then
    "fbc62d3b511368ee275ddc74117d8689b430e1427220e25d30816201d89ca7b6"
  else ""

/-- The crash of a disk that had everything written. -/
def sampleLoss : CrashLoss := ⟨fun _ => [], .empty, fun _ => true, .kept⟩

/-- A call that is on its way to hash its file. -/
def hashing : List (LeafInput Unit) := .call sampleCall :: List.replicate 12 .tick

/-- The writer of the sample runs. -/
abbrev sampleMachine : Machine (LeafWriter Unit) (LeafInput Unit) String :=
  machine IndexEntry.json sampleSha "out/trades"

/-- **A crash between the rename of the first file and its entry leaves it in
neither list.** -/
theorem not_accounted_after_first_rename :
    (sampleMachine.run start (hashing ++ [.crash sampleLoss])).1.call = none
      ∧ ¬ (sampleMachine.run start (hashing ++ [.crash sampleLoss])).1.leaf.Accounted
          IndexEntry.json sampleSha :=
  ⟨by decide,
    Leaf.not_accounted sampleCall.filename (by decide) (by decide)⟩

/-- A call that goes through, and a second one cut at the same place. -/
theorem accounted_after_second_rename :
    (sampleMachine.run start (hashing ++ List.replicate 5 .tick ++ hashing
        ++ [.crash sampleLoss])).1.leaf.Accounted IndexEntry.json sampleSha := by
  refine (accounted_of_sparesFirstFile IndexEntry.json sampleSha "out/trades" _
    (Machine.meets_append_singleton (Machine.along_of_forall ?_ () start) ?_)).1
      (by decide)
  · intro i hi g s
    simp only [hashing, List.mem_append, List.mem_cons, List.mem_replicate] at hi
    rcases hi with ((rfl | ⟨-, rfl⟩) | ⟨-, rfl⟩) | rfl | ⟨-, rfl⟩ <;> trivial
  · rintro ⟨call, pc, target, -, -, -, hnone⟩
    exact absurd hnone (by decide)

end LeafWriter
