import Aetelier.TornAppend
import Aetelier.OrdMap
import Aetelier.Trace
import Mathlib.Data.String.Basic

/-!
# A file into a leaf, step by step

`persist_leaf` writes a parquet file beside its siblings and lists it in the
index of the leaf: it takes the lock, sweeps what an earlier call left in
`.staging`, writes the file there under a name that is free, fsyncs it,
renames it into the leaf under a name that is free there, fsyncs the
directory, hashes the file, and appends the entry. Each of these is a step of
its own here, since a crash, an error or another caller may come between any
two of them.

A directory maps names to files and a file is known by a number, as on a file
system: a handle stays on its file when the name goes to another one. A file
remembers the call that created it; nothing reads that, it is there to say
what a complete file is.

What survives a crash is what has been fsynced. The rest is up to the crash:
the contents of a file that was not, the name of a file renamed since the
directory was, the line appended since the index was – whole or not at all.
-/

/-! ## Calls and leaves -/

/-- The suffix of a parquet file. -/
def parquetSuffix : String := ".parquet"

/-- **A call of `persist_leaf`**: what the caller says of the batch, and what
its writer writes. -/
structure PersistCall (τ : Type) where
  /-- The data type. -/
  datatype : String
  /-- The rows of the batch. -/
  rows : UInt64
  /-- The least time of the batch. -/
  tMinUs : UInt64
  /-- The greatest time of the batch. -/
  tMaxUs : UInt64
  /-- The name the writer asks for, without its suffix. -/
  stem : String
  /-- The parquet file. -/
  bytes : List UInt8
  /-- What the caller knows the batch by; the call does not use it. -/
  tag : τ
deriving DecidableEq

/-- The name the writer asks for. -/
def PersistCall.filename {τ : Type} (call : PersistCall τ) : String := call.stem ++ parquetSuffix

/-- A file: its contents, whether they have been fsynced, and the call that
created it. -/
structure Inode (τ : Type) where
  /-- The contents. -/
  bytes : List UInt8
  /-- They have been fsynced. -/
  synced : Bool
  /-- The call that created the file. -/
  author : PersistCall τ
deriving DecidableEq

/-- A directory: the names in it and the numbers of the files they name. -/
abbrev Dir := OrdMap String ℕ id

@[simp] theorem Dir.get?_insert (dir : Dir) (name : String) (file : ℕ) (name' : String) :
    (dir.insert name file).get? name' = if name' = name then some file else dir.get? name' :=
  OrdMap.get?_insert name file dir name'

@[simp] theorem Dir.get?_erase (dir : Dir) (name name' : String) :
    (dir.erase name).get? name' = if name' = name then none else dir.get? name' :=
  OrdMap.get?_erase name dir name'

/-- Who holds the lock of a leaf. -/
inductive LeafLock where
  | free
  | here
  | elsewhere
deriving DecidableEq, Repr

/-- **A leaf on disk.** -/
structure Leaf (τ : Type) where
  /-- The files, by number. -/
  inodes : List (Inode τ)
  /-- The names in `.staging`. -/
  staging : Dir
  /-- The names of the parquet files. -/
  files : Dir
  /-- The names as they were when the directory was last fsynced. -/
  durable : Dir
  /-- `index.jsonl`, if it exists. -/
  index : Option (List UInt8)
  /-- The index as it was when it was last fsynced. -/
  indexSynced : Option (List UInt8)
  /-- The lock. -/
  lock : LeafLock
deriving DecidableEq

/-! ## The steps of a call -/

/-- **Where a call is.** From its creation on, the staged file is carried
along by its number; the code carries the name. -/
inductive PersistPc where
  | createLeaf
  | acquireLock
  | readStaging
  | sweep (names : List String)
  | createStaging
  | probeStaged (n : ℕ)
  | createStaged (staged : String)
  | writeStaged (staged : String) (file : ℕ)
  | syncStaged (staged : String) (file : ℕ)
  | probeTarget (staged : String) (file n : ℕ)
  | rename (staged : String) (file : ℕ) (target : String)
  | syncLeaf (target : String) (file : ℕ)
  | hash (target : String) (file : ℕ)
  | stat (target : String) (file : ℕ) (sha256 : String)
  | openIndex (target : String) (file : ℕ) (sha256 : String) (size : ℕ)
  | append (target : String) (file : ℕ) (sha256 : String) (size : ℕ)
  | syncIndex (target : String) (file size : ℕ)
deriving DecidableEq

/-- What a step comes to. -/
inductive Progress where
  /-- The call is at its next step. -/
  | at (pc : PersistPc)
  /-- The call returns. -/
  | returned (result : Except PersistError ℕ)

namespace Leaf

variable {τ : Type}

/-- The leaf before anything is written to it. -/
def empty : Leaf τ := ⟨[], .empty, .empty, .empty, none, none, .free⟩

/-- The names `unique_path` tries: the one asked for, then numbered ones. -/
def candidate (filename : String) (n : ℕ) : String :=
  if n = 0 then filename
  else (Str.stripSuffix parquetSuffix filename).getD filename ++ "-" ++ toString n ++ parquetSuffix

/-- The error of a file that is not there. -/
def notFound : PersistError := .io "No such file or directory (os error 2)"

/-- The error of a lock held by another process. -/
def alreadyLocked (path : String) : PersistError :=
  .parse ("leaf " ++ path ++ " already has a writer (flock on .index.lock held elsewhere)")

/-- The entry of a file in the index. -/
def entryOf (call : PersistCall τ) (target sha256 : String) : IndexEntry where
  filename := target
  sha256 := sha256
  rows := call.rows
  tMinUs := call.tMinUs
  tMaxUs := call.tMaxUs
  schemaId := call.datatype ++ ".v1"

/-- Change the contents of a file. -/
def modify (leaf : Leaf τ) (file : ℕ) (f : Inode τ → Inode τ) : Leaf τ :=
  { leaf with inodes := leaf.inodes.modify file f }

/-- **One step of `persist_leaf`.** The name of a file is looked up at each
step that opens it. -/
def step (c : EntryCodec) (sha : List UInt8 → String) (path : String) (call : PersistCall τ)
    (leaf : Leaf τ) : PersistPc → Leaf τ × Progress
  | .createLeaf => (leaf, .at .acquireLock)
  | .acquireLock =>
    if leaf.lock = .elsewhere then (leaf, .returned (.error (alreadyLocked path)))
    else ({ leaf with lock := .here }, .at .readStaging)
  | .readStaging => (leaf, .at (.sweep (leaf.staging.entries.map Prod.fst)))
  | .sweep [] => (leaf, .at .createStaging)
  | .sweep (name :: names) =>
    ({ leaf with staging := leaf.staging.erase name }, .at (.sweep names))
  | .createStaging => (leaf, .at (.probeStaged 0))
  | .probeStaged n =>
    if (leaf.staging.get? (candidate call.filename n)).isSome then
      (leaf, .at (.probeStaged (n + 1)))
    else (leaf, .at (.createStaged (candidate call.filename n)))
  | .createStaged staged =>
    match leaf.staging.get? staged with
    | none =>
      ({ leaf with
          inodes := leaf.inodes ++ [⟨[], false, call⟩]
          staging := leaf.staging.insert staged leaf.inodes.length },
        .at (.writeStaged staged leaf.inodes.length))
    -- creating a file that exists truncates it
    | some file =>
      (leaf.modify file (fun f => { f with bytes := [], synced := false }),
        .at (.writeStaged staged file))
  | .writeStaged staged file =>
    (leaf.modify file (fun f =>
        { f with bytes := call.bytes ++ f.bytes.drop call.bytes.length, synced := false }),
      .at (.syncStaged staged file))
  | .syncStaged staged file =>
    match leaf.staging.get? staged with
    | none => (leaf, .returned (.error notFound))
    | some found =>
      (leaf.modify found (fun f => { f with synced := true }), .at (.probeTarget staged file 0))
  | .probeTarget staged file n =>
    if (leaf.files.get? (candidate staged n)).isSome then
      (leaf, .at (.probeTarget staged file (n + 1)))
    else (leaf, .at (.rename staged file (candidate staged n)))
  | .rename staged file target =>
    match leaf.staging.get? staged with
    | none => (leaf, .returned (.error notFound))
    | some found =>
      ({ leaf with
          files := leaf.files.insert target found
          staging := leaf.staging.erase staged },
        .at (.syncLeaf target file))
  | .syncLeaf target file => ({ leaf with durable := leaf.files }, .at (.hash target file))
  | .hash target file =>
    match (leaf.files.get? target).bind (fun found => leaf.inodes[found]?) with
    | none => (leaf, .returned (.error notFound))
    | some f => (leaf, .at (.stat target file (sha f.bytes)))
  | .stat target file sha256 =>
    match (leaf.files.get? target).bind (fun found => leaf.inodes[found]?) with
    | none => (leaf, .returned (.error notFound))
    | some f => (leaf, .at (.openIndex target file sha256 f.bytes.length))
  | .openIndex target file sha256 size =>
    ({ leaf with index := some (leaf.index.getD []) }, .at (.append target file sha256 size))
  | .append target file sha256 size =>
    ({ leaf with index := LeafIndex.appendEntry c leaf.index (entryOf call target sha256) },
      .at (.syncIndex target file size))
  | .syncIndex _ _ size => ({ leaf with indexSynced := leaf.index }, .returned (.ok size))

/-! ## What is read of a leaf -/

/-- `pending_files`: the parquet files that are in the leaf and not in its
index. Without an index there are none. -/
def pendingFiles (c : EntryCodec) (leaf : Leaf τ) : Except PersistError (List String) :=
  if leaf.index.isNone then .ok []
  else (LeafIndex.readIndex c leaf.index).map (fun r =>
    (leaf.files.entries.map Prod.fst).filter (fun name =>
      parquetSuffix.toList.isSuffixOf name.toList && !(r.1.map IndexEntry.filename).contains name))

/-- The file under a name. -/
def fileAt (leaf : Leaf τ) (name : String) : Option (Inode τ) :=
  (leaf.files.get? name).bind (fun file => leaf.inodes[file]?)

/-- The names under which there is another file now, or other contents. -/
def overwritten (before after : Leaf τ) : List String :=
  (before.files.entries.map Prod.fst).filter (fun name =>
    (before.fileAt name).map Inode.bytes ≠ (after.fileAt name).map Inode.bytes)

end Leaf

/-- The name a call has renamed its file to. -/
def PersistPc.target? : PersistPc → Option String
  | .syncLeaf target _ => some target
  | .hash target _ => some target
  | .stat target _ _ => some target
  | .openIndex target _ _ _ => some target
  | .append target _ _ _ => some target
  | .syncIndex target _ _ => some target
  | _ => none

/-- Where a call is after a step. -/
def Progress.pc? : Progress → Option PersistPc
  | .at pc => some pc
  | .returned _ => none

theorem Progress.eq_at_of_pc? {p : Progress} {pc : PersistPc} (h : p.pc? = some pc) :
    p = .at pc := by
  cases p with
  | «at» pc' => exact congrArg _ (Option.some.inj h)
  | returned r => cases h
