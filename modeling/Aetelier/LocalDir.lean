import Aetelier.Entrepot
import Aetelier.UnixPath

/-!
# The local directory as a source

A directory stands in for a bucket: `list` walks it and makes a key of each
file's path below the root, `get` joins a key to the root and reads. Before
it joins, a guard refuses a key with a segment `..`.

The guard is not all a key can do: joined to a root, an absolute key drops
it, so `/etc/passwd` is read where it stands. And a key is a text where a
name is bytes: a file whose name is no text is listed under another name,
which `get` does not find, or finds to be another file.
`staysUnderRoot_iff` says that nothing else goes wrong.
-/

/-- `ObjectMeta`. -/
structure ObjectMeta where
  key : String
  size : ℕ
  etag : Option String
  lastModified : Option String
deriving DecidableEq, Repr

/-- What the operating system says when it fails: whether there is no such
file, and its text. -/
structure OsError where
  notFound : Bool
  text : String
deriving DecidableEq, Repr

/-- An I/O error at a path. -/
def OsError.at (e : OsError) (p : UnixPath) : EntrepotError :=
  .io (Str.toStringLossy p) e.notFound e.text

/-! ## A tree of files -/

/-- The name of an entry, as `read_dir` gives it. -/
abbrev FileName := {name : UnixPath // UnixPath.Proper name}

mutual

/-- What an entry of a directory is. -/
inductive FsNode where
  | file (bytes : List UInt8)
  /-- A file that has no metadata by the time it is asked for it. -/
  | lost (e : OsError)
  | dir (entries : FsDir)
  /-- Neither a file nor a directory. -/
  | special

/-- The entries of a directory in the order they are read; the reading may
fail before the first or behind any of them. -/
inductive FsDir where
  | nil
  | failed (e : OsError)
  | cons (name : FileName) (node : FsNode) (rest : FsDir)

end

mutual

/-- Whether a walk through the entry meets no error. -/
def FsNode.readable : FsNode → Bool
  | .file _ => true
  | .lost _ => false
  | .dir entries => entries.readable
  | .special => true

/-- Whether a walk through the directory meets no error. -/
def FsDir.readable : FsDir → Bool
  | .nil => true
  | .failed _ => false
  | .cons _ node rest => node.readable && rest.readable

end

mutual

/-- The files at an entry, each by the names that lead to it. -/
def FsNode.files (names : List FileName) : FsNode → List (List FileName)
  | .file _ => [names]
  | .lost _ => []
  | .dir entries => entries.files names
  | .special => []

/-- The files in a directory, each by the names that lead to it. -/
def FsDir.files (names : List FileName) : FsDir → List (List FileName)
  | .nil => []
  | .failed _ => []
  | .cons name node rest => node.files (names ++ [name]) ++ rest.files names

end

/-! ## The source -/

/-- An object that the walk has found, and where. -/
structure FoundObject where
  path : UnixPath
  entry : ObjectMeta

/-- `strip_prefix` of the root and its components, joined by slashes. That
the path goes on behind the root is `FoundObject.LiesAt`. -/
def relKey (root path : UnixPath) : String :=
  "/".intercalate
    (((UnixPath.segments path).drop (UnixPath.segments root).length).map Str.toStringLossy)

mutual

/-- The body of the loop of `walk`. -/
def FsNode.walk (root path : UnixPath) : FsNode → Except EntrepotError (List FoundObject)
  | .file bytes => .ok [⟨path, relKey root path, bytes.length, none, none⟩]
  | .lost e => .error (e.at path)
  | .dir entries => entries.walk root path
  | .special => .ok []

/-- `walk`. -/
def FsDir.walk (root dir : UnixPath) : FsDir → Except EntrepotError (List FoundObject)
  | .nil => .ok []
  | .failed e => .error (e.at dir)
  | .cons name node rest => do
    let below ← node.walk root (UnixPath.join dir name)
    let out ← rest.walk root dir
    return below ++ out

end

/-- `LocalDirSource`. -/
structure LocalDirSource where
  root : UnixPath

namespace LocalDirSource

/-- `guard_key`. -/
def guardKey (key : String) : Except EntrepotError Unit :=
  if (Str.split '/' key).any (· == "..") then
    .error (.io key false "parent traversal rejected")
  else .ok ()

/-- The path that `get` reads. -/
def openKey (s : LocalDirSource) (key : String) : Except EntrepotError UnixPath := do
  guardKey key
  return UnixPath.join s.root (Str.asBytes key)

/-- `get`. -/
def get (read : UnixPath → Except OsError (List UInt8)) (s : LocalDirSource) (key : String) :
    Except EntrepotError (List UInt8) := do
  let path ← s.openKey key
  match read path with
  | .ok bytes => .ok bytes
  | .error e => .error (e.at path)

/-- The objects of `list`, each with the file it stands for. -/
def listFound (s : LocalDirSource) (tree : FsDir) (start : String) :
    Except EntrepotError (List FoundObject) := do
  let out ← tree.walk s.root s.root
  return (out.filter (fun f => Str.startsWith start f.entry.key)).mergeSort
    (fun a b => a.entry.key ≤ b.entry.key)

/-- `list`. -/
def list (s : LocalDirSource) (tree : FsDir) (start : String) :
    Except EntrepotError (List ObjectMeta) :=
  (s.listFound tree start).map (List.map FoundObject.entry)

end LocalDirSource

/-! ## What a walk finds -/

/-- A place that names lead to, from the root. -/
def LeadTo (root : UnixPath) (names : List FileName) (path : UnixPath) : Prop :=
  UnixPath.isAbsolute path = UnixPath.isAbsolute root ∧
    UnixPath.segments path = UnixPath.segments root ++ names.map Subtype.val

theorem leadTo_nil (root : UnixPath) : LeadTo root [] root := by
  unfold LeadTo
  simp

theorem LeadTo.join {root path : UnixPath} {names : List FileName} (h : LeadTo root names path)
    (name : FileName) : LeadTo root (names ++ [name]) (UnixPath.join path name) := by
  have hrel := name.property.isAbsolute_eq
  refine ⟨(UnixPath.isAbsolute_join hrel path).trans h.1, ?_⟩
  rw [UnixPath.segments_join hrel, h.2, name.property.segments_eq]
  simp

/-- The key of a file, by its names. -/
def keyOf (names : List FileName) : String :=
  "/".intercalate (names.map (fun name => Str.toStringLossy name.val))

theorem LeadTo.relKey_eq {root path : UnixPath} {names : List FileName}
    (h : LeadTo root names path) : relKey root path = keyOf names := by
  unfold relKey keyOf
  rw [h.2, List.drop_left, List.map_map]
  rfl

section Related

variable {α β : Type*} {R : α → β → Prop} {l : List α} {m : List β}

theorem exists_of_mem_left (h : List.Forall₂ R l m) {a : α} (ha : a ∈ l) : ∃ b ∈ m, R a b := by
  obtain ⟨i, hi, rfl⟩ := List.getElem_of_mem ha
  have hi' : i < m.length := h.length_eq ▸ hi
  exact ⟨m[i], List.getElem_mem hi', h.get hi hi'⟩

theorem exists_of_mem_right (h : List.Forall₂ R l m) {b : β} (hb : b ∈ m) : ∃ a ∈ l, R a b :=
  exists_of_mem_left h.flip hb

end Related

/-- An object stands for the file that the names lead to. -/
def FoundObject.LiesAt (root : UnixPath) (f : FoundObject) (names : List FileName) : Prop :=
  LeadTo root names f.path ∧ f.entry.key = keyOf names

mutual

/-- A walk that meets no error finds each file, in order. -/
theorem FsNode.walk_of_readable {root path : UnixPath} {names : List FileName}
    (h : LeadTo root names path) : ∀ node : FsNode, node.readable = true →
      ∃ found, node.walk root path = .ok found ∧
        List.Forall₂ (FoundObject.LiesAt root) found (node.files names)
  | .file _, _ => ⟨_, rfl, .cons ⟨h, h.relKey_eq⟩ .nil⟩
  | .lost _, hr => nomatch hr
  | .dir entries, hr => FsDir.walk_of_readable h entries hr
  | .special, _ => ⟨[], rfl, .nil⟩

theorem FsDir.walk_of_readable {root dir : UnixPath} {names : List FileName}
    (h : LeadTo root names dir) : ∀ tree : FsDir, tree.readable = true →
      ∃ found, tree.walk root dir = .ok found ∧
        List.Forall₂ (FoundObject.LiesAt root) found (tree.files names)
  | .nil, _ => ⟨[], rfl, .nil⟩
  | .failed _, hr => nomatch hr
  | .cons name node rest, hr => by
    obtain ⟨hnode, hrest⟩ := (Bool.and_eq_true _ _).mp hr
    obtain ⟨below, hbelow, hlies⟩ := FsNode.walk_of_readable (h.join name) node hnode
    obtain ⟨out, hout, hlies'⟩ := FsDir.walk_of_readable h rest hrest
    refine ⟨below ++ out, ?_, List.rel_append hlies hlies'⟩
    simp only [FsDir.walk, hbelow, hout]
    rfl

end

mutual

theorem FsNode.walk_of_not_readable (root path : UnixPath) :
    ∀ node : FsNode, node.readable = false → ∃ e, node.walk root path = .error e
  | .file _, hr => nomatch hr
  | .lost e, _ => ⟨e.at path, rfl⟩
  | .dir entries, hr => FsDir.walk_of_not_readable root path entries hr
  | .special, hr => nomatch hr

theorem FsDir.walk_of_not_readable (root dir : UnixPath) :
    ∀ tree : FsDir, tree.readable = false → ∃ e, tree.walk root dir = .error e
  | .nil, hr => nomatch hr
  | .failed e, _ => ⟨e.at dir, rfl⟩
  | .cons name node rest, hr => by
    cases hnode : node.readable with
    | false =>
      obtain ⟨e, he⟩ := FsNode.walk_of_not_readable root (UnixPath.join dir name) node hnode
      exact ⟨e, by simp only [FsDir.walk, he]; rfl⟩
    | true =>
      have hrest : rest.readable = false := by
        rw [FsDir.readable, hnode] at hr
        exact hr
      obtain ⟨e, he⟩ := FsDir.walk_of_not_readable root dir rest hrest
      cases hwalk : node.walk root (UnixPath.join dir name) with
      | error e' => exact ⟨e', by simp only [FsDir.walk, hwalk]; rfl⟩
      | ok below => exact ⟨e, by simp only [FsDir.walk, hwalk, he]; rfl⟩

end

namespace LocalDirSource

/-! ## What a get reads -/

theorem guardKey_eq_ok_iff {key : String} :
    guardKey key = .ok () ↔ ".." ∉ Str.split '/' key := by
  unfold guardKey
  rw [ite_eq_right_iff]
  simp [List.any_eq_true]

theorem openKey_eq_ok_iff {s : LocalDirSource} {key : String} {path : UnixPath} :
    s.openKey key = .ok path ↔
      ".." ∉ Str.split '/' key ∧ UnixPath.join s.root (Str.asBytes key) = path := by
  rw [← guardKey_eq_ok_iff]
  unfold openKey
  cases guardKey key with
  | error e => simp [bind, Except.bind]
  | ok u => simp [bind, Except.bind, pure, Except.pure]

/-- The guard looks at the segments of the path that the key is. -/
theorem dotdot_mem_split_iff (key : String) :
    ".." ∈ Str.split '/' key ↔ [46, 46] ∈ UnixPath.segments (Str.asBytes key) := by
  rw [show ([46, 46] : UnixPath) = Str.asBytes ".." from rfl,
    UnixPath.asBytes_mem_segments_iff (by decide) (by decide)]
  unfold Str.split
  rw [List.mem_map]
  constructor
  · rintro ⟨cs, hcs, heq⟩
    rwa [← heq, String.toList_ofList]
  · intro h
    exact ⟨_, h, String.ofList_toList⟩

/-- **The file of a listed key is the one listed exactly if its names are
texts.** -/
theorem readBack_iff {s : LocalDirSource} {f : FoundObject} {names : List FileName}
    (h : f.LiesAt s.root names) :
    (∃ p, s.openKey f.entry.key = .ok p ∧ UnixPath.SamePlace p f.path) ↔
      ∀ name ∈ names, ∃ t, Str.asBytes t = name.val := by
  rw [h.2]
  constructor
  · rintro ⟨p, hp, -, hsegs⟩ name hname
    obtain ⟨-, rfl⟩ := openKey_eq_ok_iff.mp hp
    -- joined or alone, the key's segments are all that can follow the root's
    refine UnixPath.exists_asBytes_of_mem_segments (s := keyOf names) ?_
    have hval : name.val ∈ names.map Subtype.val := List.mem_map_of_mem hname
    rw [h.1.2] at hsegs
    cases habs : UnixPath.isAbsolute (Str.asBytes (keyOf names)) with
    | false =>
      rw [UnixPath.segments_join habs, List.append_cancel_left_eq] at hsegs
      rwa [hsegs]
    | true =>
      rw [UnixPath.join_of_isAbsolute habs] at hsegs
      rw [hsegs]
      exact List.mem_append_right _ hval
  · intro htext
    have hkey : Str.asBytes (keyOf names) = [47].intercalate (names.map Subtype.val) := by
      unfold keyOf
      rw [Str.asBytes_intercalate, List.map_map]
      refine congrArg _ (List.map_congr_left (fun name hname => ?_))
      obtain ⟨t, ht⟩ := htext name hname
      rw [Function.comp_apply, ← ht, Str.toStringLossy_asBytes]
    have hproper : ∀ name ∈ names.map Subtype.val, UnixPath.Proper name := by
      intro name hname
      obtain ⟨n, -, rfl⟩ := List.mem_map.mp hname
      exact n.property
    have hrel := UnixPath.isAbsolute_intercalate hproper
    refine ⟨_, openKey_eq_ok_iff.mpr ⟨?_, rfl⟩, ?_⟩
    · rw [dotdot_mem_split_iff, hkey, UnixPath.segments_intercalate hproper]
      exact fun hmem => (hproper _ hmem).2.2.2 rfl
    · rw [hkey]
      refine ⟨(UnixPath.isAbsolute_join hrel _).trans h.1.1.symm, ?_⟩
      rw [UnixPath.segments_join hrel, UnixPath.segments_intercalate hproper, h.1.2]

theorem get_eq_ok_iff {read : UnixPath → Except OsError (List UInt8)} {s : LocalDirSource}
    {key : String} {bytes : List UInt8} :
    s.get read key = .ok bytes ↔ ∃ p, s.openKey key = .ok p ∧ read p = .ok bytes := by
  unfold get
  cases s.openKey key with
  | error e => simp [bind, Except.bind]
  | ok p => cases hread : read p <;> simp [bind, Except.bind, hread]

theorem mem_listFound_iff {s : LocalDirSource} {tree : FsDir} {start : String}
    {found out : List FoundObject} (hwalk : tree.walk s.root s.root = .ok out)
    (h : s.listFound tree start = .ok found) {f : FoundObject} :
    f ∈ found ↔ f ∈ out ∧ Str.startsWith start f.entry.key = true := by
  unfold listFound at h
  rw [hwalk] at h
  cases h
  rw [(List.mergeSort_perm _ _).mem_iff, List.mem_filter]

/-! ## The root and what is outside it -/

/-- **What a get returns was read under the root.** -/
def ReadsUnderRoot (s : LocalDirSource) (read : UnixPath → Except OsError (List UInt8))
    (key : String) : Prop :=
  ∀ bytes, s.get read key = .ok bytes →
    ∃ p, s.openKey key = .ok p ∧ UnixPath.Under s.root p

/-- **A get of a listed key reads the file that was listed.** -/
def ReadsListed (s : LocalDirSource) (tree : FsDir) : Prop :=
  ∀ start found, s.listFound tree start = .ok found → ∀ f ∈ found,
    ∃ p, s.openKey f.entry.key = .ok p ∧ UnixPath.SamePlace p f.path

theorem readsUnderRoot_iff (s : LocalDirSource) (read : UnixPath → Except OsError (List UInt8))
    (key : String) :
    s.ReadsUnderRoot read key ↔
      ".." ∈ Str.split '/' key ∨
      (∃ e, read (UnixPath.join s.root (Str.asBytes key)) = .error e) ∨
      (UnixPath.isAbsolute (Str.asBytes key) = true → UnixPath.isAbsolute s.root = true ∧
        UnixPath.segments s.root <+: UnixPath.segments (Str.asBytes key)) := by
  unfold ReadsUnderRoot
  by_cases hdots : ".." ∈ Str.split '/' key
  · refine iff_of_true (fun bytes hget => ?_) (Or.inl hdots)
    obtain ⟨p, hp, -⟩ := get_eq_ok_iff.mp hget
    exact absurd hdots (openKey_eq_ok_iff.mp hp).1
  · have hopen : s.openKey key = .ok (UnixPath.join s.root (Str.asBytes key)) :=
      openKey_eq_ok_iff.mpr ⟨hdots, rfl⟩
    have hunder := UnixPath.under_join_iff (mt (dotdot_mem_split_iff key).mpr hdots) s.root
    simp only [get_eq_ok_iff, hopen, Except.ok.injEq, exists_eq_left', hdots, false_or, ← hunder]
    cases read (UnixPath.join s.root (Str.asBytes key)) <;> simp

theorem readsListed_iff (s : LocalDirSource) (tree : FsDir) :
    s.ReadsListed tree ↔
      (tree.readable = true →
        ∀ names ∈ tree.files [], ∀ name ∈ names, ∃ t, Str.asBytes t = name.val) := by
  cases hr : tree.readable with
  | false =>
    refine iff_of_true (fun start found hfound => ?_) (fun h => nomatch h)
    obtain ⟨e, he⟩ := tree.walk_of_not_readable s.root s.root hr
    unfold listFound at hfound
    rw [he] at hfound
    cases hfound
  | true =>
    obtain ⟨out, hwalk, hlies⟩ := FsDir.walk_of_readable (leadTo_nil s.root) tree hr
    constructor
    · intro h _ names hnames
      obtain ⟨f, hf, hat⟩ : ∃ f ∈ out, f.LiesAt s.root names :=
        exists_of_mem_right hlies hnames
      obtain ⟨found, hlist⟩ : ∃ found, s.listFound tree "" = .ok found := by
        unfold listFound
        rw [hwalk]
        exact ⟨_, rfl⟩
      have hmem : f ∈ found :=
        (mem_listFound_iff hwalk hlist).mpr ⟨hf, by simp [Str.startsWith]⟩
      exact (readBack_iff hat).mp (h "" found hlist f hmem)
    · intro h start found hfound f hf
      obtain ⟨hmem, -⟩ := (mem_listFound_iff hwalk hfound).mp hf
      obtain ⟨names, hnames, hat⟩ : ∃ names ∈ tree.files [], f.LiesAt s.root names :=
        exists_of_mem_left hlies hmem
      exact (readBack_iff hat).mpr (h rfl names hnames)

/-- **When a source stays in its root**: whatever there is to read, a get
leaves it for an absolute key only, and does not find back what it listed
for a name only that is no text. -/
theorem staysUnderRoot_iff (s : LocalDirSource)
    (read : UnixPath → Except OsError (List UInt8)) (tree : FsDir) (key : String) :
    (s.ReadsUnderRoot read key ∧ s.ReadsListed tree) ↔
      (".." ∈ Str.split '/' key ∨
        (∃ e, read (UnixPath.join s.root (Str.asBytes key)) = .error e) ∨
        (UnixPath.isAbsolute (Str.asBytes key) = true → UnixPath.isAbsolute s.root = true ∧
          UnixPath.segments s.root <+: UnixPath.segments (Str.asBytes key))) ∧
      (tree.readable = true →
        ∀ names ∈ tree.files [], ∀ name ∈ names, ∃ t, Str.asBytes t = name.val) :=
  and_congr (s.readsUnderRoot_iff read key) (s.readsListed_iff tree)

/-- The guard lets an absolute key through. -/
theorem not_staysUnderRoot_passwd :
    ¬ ∀ (s : LocalDirSource) (read : UnixPath → Except OsError (List UInt8)) (tree : FsDir)
      (key : String), s.ReadsUnderRoot read key ∧ s.ReadsListed tree := by
  intro h
  obtain ⟨p, hp, habs, below, hbelow, -⟩ := (h ⟨Str.asBytes "/data"⟩ (fun _ => .ok []) .nil
    "/etc/passwd").1 [] (by decide)
  obtain ⟨-, rfl⟩ := openKey_eq_ok_iff.mp hp
  revert hbelow
  rw [show UnixPath.segments (UnixPath.join (Str.asBytes "/data") (Str.asBytes "/etc/passwd"))
      = [Str.asBytes "etc", Str.asBytes "passwd"] from by decide,
    show UnixPath.segments (Str.asBytes "/data") = [Str.asBytes "data"] from by decide]
  intro hbelow
  exact absurd (List.cons.inj hbelow).1 (by decide)

end LocalDirSource
