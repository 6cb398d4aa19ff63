import Aetelier.PersistLeaf

/-!
# What one writer keeps of a leaf

As long as one call at a time works on a leaf, three things stay true of it at
every step: a file under a name in the leaf is complete and has been fsynced;
the index ends with a whole line and every entry in it is of such a file; and
a call finds the names it probed for as it left them. `Sound` says the first two, `At` the
third; `sound_step` is the step lemma, and the rules for errors and crashes
build on the same parts.
-/

namespace Leaf

variable {τ : Type} {c : EntryCodec} {sha : List UInt8 → String}
variable {call : PersistCall τ} {leaf leaf' : Leaf τ}

/-- The name of a parquet file. -/
def IsParquet (name : String) : Prop := parquetSuffix.toList <:+ name.toList

theorem isParquet_append (s : String) : IsParquet (s ++ parquetSuffix) := by
  unfold IsParquet
  rw [String.toList_append]
  exact List.suffix_append _ _

/-- Every name `unique_path` tries is the name of a parquet file if the first
is. -/
theorem isParquet_candidate {name : String} (h : IsParquet name) (n : ℕ) :
    IsParquet (candidate name n) := by
  unfold candidate
  split
  · exact h
  · exact isParquet_append _

/-- The text of an index with the given entries. -/
def indexText (c : EntryCodec) (es : List IndexEntry) : List UInt8 :=
  es.flatMap (LeafIndex.entryLine c)

@[simp] theorem indexText_nil (c : EntryCodec) : indexText c [] = [] := rfl

/-- **Entries appended behind whole lines are read behind them.** -/
theorem readLines_append_indexText (es : List IndexEntry) {text : List UInt8}
    (hend : text = [] ∨ text.getLast? = some 10) {r : List IndexEntry × ℕ}
    (h : LeafIndex.readLines c (LineLog.lines text) = .ok r) :
    LeafIndex.readLines c (LineLog.lines (text ++ indexText c es)) = .ok (r.1 ++ es, r.2) := by
  rw [LineLog.lines_append hend, LeafIndex.readLines_append h]
  have hlines : LeafIndex.readLines c (LineLog.lines (indexText c es)) = .ok (es, 0) := by
    induction es with
    | nil => rfl
    | cons e es ih =>
      have hline : indexText c (e :: es) = Str.asBytes (c.render e) ++ 10 :: indexText c es := by
        show (Str.asBytes (c.render e) ++ [10]) ++ indexText c es = _
        rw [List.append_assoc, List.singleton_append]
      have hfirst : LineLog.lines (Str.asBytes (c.render e) ++ 10 :: indexText c es)
          = Str.asBytes (c.render e) :: LineLog.lines (indexText c es) :=
        LineLog.lines_line_append ((LineWrite.whole c e).lf_notMem_text c)
          ((LineWrite.whole c e).cr_notMem_text c) _
      rw [hline, hfirst, LeafIndex.readLines_render, ih]
      rfl
  rw [hlines]
  rfl

theorem getLast?_append_indexText (es : List IndexEntry) {text : List UInt8}
    (hend : text = [] ∨ text.getLast? = some 10) :
    text ++ indexText c es = [] ∨ (text ++ indexText c es).getLast? = some 10 := by
  induction es generalizing text with
  | nil =>
    rw [indexText_nil, List.append_nil]
    exact hend
  | cons e es ih =>
    rw [show indexText c (e :: es) = LeafIndex.entryLine c e ++ indexText c es from rfl,
      ← List.append_assoc]
    refine ih (Or.inr ?_)
    unfold LeafIndex.entryLine
    rw [← List.append_assoc, List.getLast?_concat]

/-- The entry is that of a file the leaf is sure to hold. -/
def Lists (sha : List UInt8 → String) (leaf : Leaf τ) (e : IndexEntry) : Prop :=
  ∃ file f, leaf.durable.get? e.filename = some file ∧ leaf.inodes[file]? = some f
    ∧ e = entryOf f.author e.filename (sha f.bytes)

/-- **The text of an index in order**: it ends with a line feed, it can be
read, and every entry read is of a file the leaf is sure to hold. A line that
was torn before the line feed may be among its lines. -/
def Indexes (c : EntryCodec) (sha : List UInt8 → String) (leaf : Leaf τ) (text : List UInt8) :
    Prop :=
  (text = [] ∨ text.getLast? = some 10) ∧ ∃ es torn,
    LeafIndex.readLines c (LineLog.lines text) = .ok (es, torn) ∧ ∀ e ∈ es, Lists sha leaf e

/-- Nothing is listed. -/
theorem indexes_nil (c : EntryCodec) (sha : List UInt8 → String) (leaf : Leaf τ) :
    Indexes c sha leaf [] :=
  ⟨Or.inl rfl, [], 0, rfl, fun _ h => absurd h List.not_mem_nil⟩

/-- An index of whole lines is in order. -/
theorem indexes_indexText {es : List IndexEntry} (h : ∀ e ∈ es, Lists sha leaf e) :
    Indexes c sha leaf (indexText c es) := by
  have hend := getLast?_append_indexText (c := c) es (Or.inl (rfl : ([] : List UInt8) = []))
  have hread := readLines_append_indexText (c := c) es (Or.inl (rfl : ([] : List UInt8) = []))
    (rfl : LeafIndex.readLines c (LineLog.lines []) = .ok ([], 0))
  exact ⟨hend, es, 0, hread, h⟩

/-- **A leaf in order.** -/
structure Sound (c : EntryCodec) (sha : List UInt8 → String) (leaf : Leaf τ) : Prop where
  /-- A name that was fsynced is still there. -/
  durable : ∀ name file, leaf.durable.get? name = some file → leaf.files.get? name = some file
  /-- A file in the leaf is complete. -/
  complete : ∀ name file, leaf.files.get? name = some file → IsParquet name
    ∧ ∃ f, leaf.inodes[file]? = some f ∧ f.synced = true ∧ f.bytes = f.author.bytes
  /-- The index lists files of the leaf. -/
  index : Indexes c sha leaf (leaf.index.getD [])
  /-- So does the index as it was last fsynced. -/
  indexSynced : Indexes c sha leaf (leaf.indexSynced.getD [])
  /-- An index that was fsynced is still there. -/
  created : leaf.indexSynced.isSome → leaf.index.isSome

/-- The call's staged file, under its name and under no other. -/
structure Staged (call : PersistCall τ) (leaf : Leaf τ) (staged : String) (file : ℕ)
    (f : Inode τ) : Prop where
  isParquet : IsParquet staged
  named : leaf.staging.get? staged = some file
  unlinked : ∀ name, leaf.files.get? name ≠ some file
  found : leaf.inodes[file]? = some f
  author : f.author = call

/-- The call's file in the leaf, of which a directory knows the name. -/
def Finalized (call : PersistCall τ) (leaf : Leaf τ) (dir : Dir) (target : String) (file : ℕ) :
    Prop :=
  dir.get? target = some file ∧ ∃ f, leaf.inodes[file]? = some f ∧ f.author = call

/-- **What a call relies on** at each of its steps, other than the freedom of
the names it found free. -/
def Relies (sha : List UInt8 → String) (call : PersistCall τ) (leaf : Leaf τ) : PersistPc → Prop
  | .createStaged staged => IsParquet staged
  | .writeStaged staged file => ∃ f, Staged call leaf staged file f ∧ f.bytes = []
  | .syncStaged staged file => ∃ f, Staged call leaf staged file f ∧ f.bytes = call.bytes
  | .probeTarget staged file _ =>
    ∃ f, Staged call leaf staged file f ∧ f.bytes = call.bytes ∧ f.synced = true
  | .rename staged file target =>
    (∃ f, Staged call leaf staged file f ∧ f.bytes = call.bytes ∧ f.synced = true)
      ∧ IsParquet target
  | .syncLeaf target file => Finalized call leaf leaf.files target file
  | .hash target file => Finalized call leaf leaf.durable target file
  | .stat target file sha256 =>
    Finalized call leaf leaf.durable target file ∧ sha256 = sha call.bytes
  | .openIndex target file sha256 _ =>
    Finalized call leaf leaf.durable target file ∧ sha256 = sha call.bytes
  | .append target file sha256 _ =>
    Finalized call leaf leaf.durable target file ∧ sha256 = sha call.bytes ∧ leaf.index.isSome
  | .syncIndex _ _ _ => leaf.index.isSome
  | _ => True

/-- **The name a call is about to take is free.** -/
def Free (leaf : Leaf τ) : PersistPc → Prop
  | .createStaged staged => leaf.staging.get? staged = none
  | .rename _ _ target => leaf.files.get? target = none
  | _ => True

instance (leaf : Leaf τ) (pc : PersistPc) : Decidable (leaf.Free pc) := by
  cases pc <;> unfold Free <;> infer_instance

/-- What the only call on a leaf finds at each of its steps. -/
def At (sha : List UInt8 → String) (call : PersistCall τ) (leaf : Leaf τ) (pc : PersistPc) :
    Prop :=
  Relies sha call leaf pc ∧ Free leaf pc

/-! ## Parts of a step -/

/-- An entry stays good when the fsynced names and their files stay. -/
theorem Lists.mono {e : IndexEntry} (h : Lists sha leaf e)
    (hstay : ∀ name file f, leaf.durable.get? name = some file → leaf.inodes[file]? = some f →
      leaf'.durable.get? name = some file ∧ leaf'.inodes[file]? = some f) :
    Lists sha leaf' e := by
  obtain ⟨file, f, hname, hfile, he⟩ := h
  obtain ⟨hname', hfile'⟩ := hstay _ _ _ hname hfile
  exact ⟨file, f, hname', hfile', he⟩

theorem Indexes.mono {text : List UInt8} (h : Indexes c sha leaf text)
    (hstay : ∀ name file f, leaf.durable.get? name = some file → leaf.inodes[file]? = some f →
      leaf'.durable.get? name = some file ∧ leaf'.inodes[file]? = some f) :
    Indexes c sha leaf' text := by
  obtain ⟨hend, es, torn, hread, hes⟩ := h
  exact ⟨hend, es, torn, hread, fun e he => (hes e he).mono hstay⟩

/-- An entry of a file the leaf holds may be appended. -/
theorem Indexes.append {text : List UInt8} (h : Indexes c sha leaf text) {e : IndexEntry}
    (he : Lists sha leaf e) : Indexes c sha leaf (text ++ LeafIndex.entryLine c e) := by
  obtain ⟨hend, es, torn, hread, hes⟩ := h
  have hline : LeafIndex.entryLine c e = indexText c [e] := (List.append_nil _).symm
  rw [hline]
  refine ⟨getLast?_append_indexText [e] hend, es ++ [e], torn,
    readLines_append_indexText [e] hend hread, fun e' he' => ?_⟩
  rcases List.mem_append.mp he' with he' | he'
  · exact hes e' he'
  · rw [List.mem_singleton.mp he']
    exact he

/-- **A file under no name in the leaf may change.** -/
theorem Sound.of_inodes {inodes : List (Inode τ)} {staging : Dir} (h : Sound c sha leaf)
    (hkeep : ∀ name file f, leaf.files.get? name = some file → leaf.inodes[file]? = some f →
      inodes[file]? = some f) :
    Sound c sha { leaf with inodes := inodes, staging := staging } := by
  have hstay : ∀ name file f, leaf.durable.get? name = some file → leaf.inodes[file]? = some f →
      leaf.durable.get? name = some file ∧ inodes[file]? = some f := fun name file f hname hfile =>
    ⟨hname, hkeep name file f (h.durable name file hname) hfile⟩
  refine ⟨h.durable, fun name file hname => ?_, h.index.mono hstay, h.indexSynced.mono hstay,
    h.created⟩
  obtain ⟨hparquet, f, hfile, hf⟩ := h.complete name file hname
  exact ⟨hparquet, f, hkeep name file f hname hfile, hf⟩

theorem Sound.modify (h : Sound c sha leaf) {file : ℕ}
    (hfree : ∀ name, leaf.files.get? name ≠ some file) (g : Inode τ → Inode τ) :
    Sound c sha (leaf.modify file g) := by
  refine h.of_inodes (fun name file' f hname hfile => ?_)
  have hne : file ≠ file' := fun heq => hfree name (heq ▸ hname)
  rw [List.getElem?_modify_ne g _ hne, hfile]

theorem Staged.modify {staged : String} {file : ℕ} {f : Inode τ}
    (h : Staged call leaf staged file f) {g : Inode τ → Inode τ} (hg : (g f).author = f.author) :
    Staged call (leaf.modify file g) staged file (g f) := by
  refine ⟨h.isParquet, h.named, h.unlinked, ?_, hg.trans h.author⟩
  show (leaf.inodes.modify file g)[file]? = _
  rw [List.getElem?_modify_eq, h.found]
  rfl

/-- The names after a rename. -/
theorem Sound.rename (h : Sound c sha leaf) {staged target : String} {file : ℕ} {f : Inode τ}
    (hs : Staged call leaf staged file f) (hbytes : f.bytes = call.bytes)
    (hsynced : f.synced = true) (hparquet : IsParquet target)
    (hfree : leaf.files.get? target = none) :
    Sound c sha
      { leaf with
        files := leaf.files.insert target file, staging := leaf.staging.erase staged } := by
  refine ⟨fun name file' hname => ?_, fun name file' hname => ?_, h.index, h.indexSynced, h.created⟩
  · have hold := h.durable name file' hname
    have hne : name ≠ target := by
      rintro rfl
      rw [hfree] at hold
      cases hold
    show (leaf.files.insert target file).get? name = _
    rw [Dir.get?_insert, if_neg hne, hold]
  · rw [Dir.get?_insert] at hname
    split at hname
    · next heq =>
      cases hname
      exact ⟨heq ▸ hparquet, f, hs.found, hsynced, hbytes.trans (congrArg _ hs.author.symm)⟩
    · exact h.complete name file' hname

/-- The names after an fsync of the directory. -/
theorem Sound.syncLeaf (h : Sound c sha leaf) :
    Sound c sha { leaf with durable := leaf.files } := by
  have hstay : ∀ name file f, leaf.durable.get? name = some file → leaf.inodes[file]? = some f →
      leaf.files.get? name = some file ∧ leaf.inodes[file]? = some f :=
    fun name file f hname hfile => ⟨h.durable name file hname, hfile⟩
  exact ⟨fun _ _ hname => hname, h.complete, h.index.mono hstay, h.indexSynced.mono hstay,
    h.created⟩

/-- The index after an append. -/
theorem Sound.append (h : Sound c sha leaf) {target : String} {file : ℕ}
    (hf : Finalized call leaf leaf.durable target file) :
    Sound c sha { leaf with
      index := LeafIndex.appendEntry c leaf.index (entryOf call target (sha call.bytes)) } := by
  obtain ⟨hname, f, hfile, hauthor⟩ := hf
  obtain ⟨-, f', hfile', -, hbytes⟩ := h.complete target file (h.durable target file hname)
  cases hfile.symm.trans hfile'
  have hlists : Lists sha leaf (entryOf call target (sha call.bytes)) :=
    ⟨file, f, hname, hfile, by rw [hbytes, hauthor]; rfl⟩
  exact ⟨h.durable, h.complete, h.index.append hlists, h.indexSynced, fun _ => rfl⟩

/-! ## The step lemma -/

/-- The leaf and the call after a step. -/
def After (c : EntryCodec) (sha : List UInt8 → String) (call : PersistCall τ)
    (r : Leaf τ × Progress) : Prop :=
  Sound c sha r.1 ∧ ∀ pc, r.2 = .at pc → At sha call r.1 pc

theorem After.at {leaf : Leaf τ} {pc : PersistPc} (h : Sound c sha leaf)
    (hat : At sha call leaf pc) : After c sha call (leaf, .at pc) := by
  refine ⟨h, fun pc' hpc => ?_⟩
  cases hpc
  exact hat

theorem After.returned {leaf : Leaf τ} {r : Except PersistError ℕ} (h : Sound c sha leaf) :
    After c sha call (leaf, .returned r) := ⟨h, fun _ hpc => by cases hpc⟩

/-- **The step lemma.** A step of the only call on a leaf keeps the leaf in
order, and the next step finds what it relies on and its name free. -/
theorem Sound.step (h : Sound c sha leaf) (path : String) {pc : PersistPc}
    (hat : At sha call leaf pc) :
    After c sha call (leaf.step c sha path call pc) := by
  cases pc with
  | createLeaf => exact .at h ⟨trivial, trivial⟩
  | acquireLock =>
    simp only [Leaf.step]
    split
    · exact .returned h
    · exact .at ⟨h.durable, h.complete, h.index, h.indexSynced, h.created⟩ ⟨trivial, trivial⟩
  | readStaging => exact .at h ⟨trivial, trivial⟩
  | sweep names =>
    cases names with
    | nil => exact .at h ⟨trivial, trivial⟩
    | cons name names =>
      exact .at ⟨h.durable, h.complete, h.index, h.indexSynced, h.created⟩ ⟨trivial, trivial⟩
  | createStaging => exact .at h ⟨trivial, trivial⟩
  | probeStaged n =>
    simp only [Leaf.step]
    split
    · exact .at h ⟨trivial, trivial⟩
    · next hfree =>
      exact .at h ⟨isParquet_candidate (isParquet_append _) n,
        Option.not_isSome_iff_eq_none.mp hfree⟩
  | createStaged staged =>
    obtain ⟨hparquet, hfree⟩ := hat
    -- the name is free, so the file is a new one, of a number no other has
    have hnew : ∀ name file f, leaf.files.get? name = some file → leaf.inodes[file]? = some f →
        (leaf.inodes ++ [⟨[], false, call⟩])[file]? = some f := fun name file f _ hfile => by
      rw [List.getElem?_append_left (List.getElem?_eq_some_iff.mp hfile).1, hfile]
    have hfree : leaf.staging.get? staged = none := hfree
    simp only [Leaf.step, hfree]
    refine .at (h.of_inodes hnew) (And.intro ?_ trivial)
    refine ⟨⟨[], false, call⟩, ⟨hparquet, ?_, ?_, ?_, rfl⟩, rfl⟩
    · show (leaf.staging.insert staged leaf.inodes.length).get? staged = _
      rw [Dir.get?_insert, if_pos rfl]
    · intro name hname
      obtain ⟨-, f, hfile, -⟩ := h.complete name _ hname
      rw [List.getElem?_eq_none (Nat.le_refl _)] at hfile
      cases hfile
    · show (leaf.inodes ++ [_])[leaf.inodes.length]? = _
      rw [List.getElem?_concat_length]
  | writeStaged staged file =>
    obtain ⟨⟨f, hs, hbytes⟩, -⟩ := hat
    refine .at (h.modify hs.unlinked _) ⟨⟨_, hs.modify rfl, ?_⟩, trivial⟩
    show call.bytes ++ f.bytes.drop _ = _
    rw [hbytes, List.drop_nil, List.append_nil]
  | syncStaged staged file =>
    obtain ⟨⟨f, hs, hbytes⟩, -⟩ := hat
    simp only [Leaf.step, hs.named]
    exact .at (h.modify hs.unlinked _) ⟨⟨_, hs.modify rfl, hbytes, rfl⟩, trivial⟩
  | probeTarget staged file n =>
    obtain ⟨⟨f, hs, hf⟩, -⟩ := hat
    simp only [Leaf.step]
    split
    · exact .at h ⟨⟨f, hs, hf⟩, trivial⟩
    · next hfree =>
      exact .at h ⟨⟨⟨f, hs, hf⟩, isParquet_candidate hs.isParquet n⟩,
        Option.not_isSome_iff_eq_none.mp hfree⟩
  | rename staged file target =>
    obtain ⟨⟨⟨f, hs, hbytes, hsynced⟩, hparquet⟩, hfree⟩ := hat
    simp only [Leaf.step, hs.named]
    refine .at (h.rename hs hbytes hsynced hparquet hfree) ⟨⟨?_, f, hs.found, hs.author⟩, trivial⟩
    show (leaf.files.insert target file).get? target = _
    rw [Dir.get?_insert, if_pos rfl]
  | syncLeaf target file => exact .at h.syncLeaf hat
  | hash target file =>
    obtain ⟨⟨hname, f, hfile, hauthor⟩, -⟩ := hat
    obtain ⟨-, f', hfile', -, hbytes⟩ := h.complete target file (h.durable target file hname)
    cases hfile.symm.trans hfile'
    simp only [Leaf.step, h.durable target file hname, Option.bind_some, hfile]
    exact .at h ⟨⟨⟨hname, f, hfile, hauthor⟩, by rw [hbytes, hauthor]⟩, trivial⟩
  | stat target file sha256 =>
    obtain ⟨⟨⟨hname, f, hfile, hauthor⟩, hsha⟩, -⟩ := hat
    simp only [Leaf.step, h.durable target file hname, Option.bind_some, hfile]
    exact .at h ⟨⟨⟨hname, f, hfile, hauthor⟩, hsha⟩, trivial⟩
  | openIndex target file sha256 size =>
    obtain ⟨⟨hf, hsha⟩, -⟩ := hat
    exact .at ⟨h.durable, h.complete, h.index, h.indexSynced, fun _ => rfl⟩
      ⟨⟨hf, hsha, rfl⟩, trivial⟩
  | append target file sha256 size =>
    obtain ⟨⟨hf, rfl, -⟩, -⟩ := hat
    exact .at (h.append hf) ⟨rfl, trivial⟩
  | syncIndex target file size =>
    exact .returned ⟨h.durable, h.complete, h.index, h.index, id⟩

end Leaf

/-- The staged file of a call, once it is created and until it is renamed. -/
def PersistPc.staged? : PersistPc → Option ℕ
  | .writeStaged _ file => some file
  | .syncStaged _ file => some file
  | .probeTarget _ file _ => some file
  | .rename _ file _ => some file
  | _ => none

/-- The name the step sweeps from staging. -/
def PersistPc.swept? : PersistPc → Option String
  | .sweep names => names.head?
  | _ => none

namespace Leaf

variable {τ : Type} {c : EntryCodec} {sha : List UInt8 → String}
variable {call : PersistCall τ} {leaf leaf' : Leaf τ}

/-- **All a step of a call may do to the rest of a leaf.** Names in the leaf
stay with their files and a new one is of the call's own file; no other file
changes; and no other name leaves staging than the one the step sweeps. -/
structure Moves (pc : PersistPc) (leaf leaf' : Leaf τ) : Prop where
  files : ∀ name file, leaf.files.get? name = some file → leaf'.files.get? name = some file
  linked : ∀ name file, leaf'.files.get? name = some file →
    leaf.files.get? name = some file ∨ pc.staged? = some file
  inodes : ∀ file f, pc.staged? ≠ some file → leaf.inodes[file]? = some f →
    leaf'.inodes[file]? = some f
  staging : ∀ name file, pc.staged? ≠ some file → pc.swept? ≠ some name →
    leaf.staging.get? name = some file → leaf'.staging.get? name = some file
  durable : ∀ name file, leaf.durable.get? name = some file → leaf'.durable.get? name = some file
  index : leaf.index.isSome → leaf'.index.isSome

theorem Moves.refl (pc : PersistPc) (leaf : Leaf τ) : Moves pc leaf leaf :=
  ⟨fun _ _ h => h, fun _ _ h => Or.inl h, fun _ _ _ h => h, fun _ _ _ _ h => h, fun _ _ h => h, id⟩

/-- The call's own file may change. -/
theorem Moves.modify {pc : PersistPc} {file : ℕ} (hpc : pc.staged? = some file)
    (g : Inode τ → Inode τ) : Moves pc leaf (leaf.modify file g) := by
  refine ⟨fun _ _ h => h, fun _ _ h => Or.inl h, fun file' f hne h => ?_, fun _ _ _ _ h => h,
    fun _ _ h => h, id⟩
  have hne' : file ≠ file' := fun heq => hne (heq ▸ hpc)
  show (leaf.inodes.modify file g)[file']? = _
  rw [List.getElem?_modify_ne g _ hne', h]

/-- **A step does no more than it may.** -/
theorem Sound.moves (h : Sound c sha leaf) (path : String) {pc : PersistPc}
    (hat : At sha call leaf pc) :
    Moves pc leaf (leaf.step c sha path call pc).1 := by
  have hsame := Moves.refl pc leaf
  cases pc with
  | acquireLock =>
    simp only [Leaf.step]
    split
    · exact hsame
    · exact ⟨hsame.files, hsame.linked, hsame.inodes, hsame.staging, hsame.durable, id⟩
  | sweep names =>
    cases names with
    | nil => exact hsame
    | cons name names =>
      refine ⟨hsame.files, hsame.linked, hsame.inodes, fun name' file _ hne hname => ?_,
        hsame.durable, id⟩
      show (leaf.staging.erase name).get? name' = _
      rw [Dir.get?_erase, if_neg (fun heq => hne (congrArg some heq.symm)), hname]
  | probeStaged n =>
    simp only [Leaf.step]
    split <;> exact hsame
  | createStaged staged =>
    have hfree : leaf.staging.get? staged = none := hat.2
    simp only [Leaf.step, hfree]
    refine ⟨hsame.files, hsame.linked, fun file f _ hfile => ?_, fun name file _ _ hname => ?_,
      hsame.durable, id⟩
    · rw [List.getElem?_append_left (List.getElem?_eq_some_iff.mp hfile).1, hfile]
    · have hne : name ≠ staged := by
        rintro rfl
        rw [hfree] at hname
        cases hname
      show (leaf.staging.insert staged _).get? name = _
      rw [Dir.get?_insert, if_neg hne, hname]
  | writeStaged staged file => exact .modify rfl _
  | syncStaged staged file =>
    obtain ⟨⟨f, hs, -⟩, -⟩ := hat
    simp only [Leaf.step, hs.named]
    exact .modify rfl _
  | probeTarget staged file n =>
    simp only [Leaf.step]
    split <;> exact hsame
  | rename staged file target =>
    obtain ⟨⟨⟨f, hs, -⟩, -⟩, hfree⟩ := hat
    have hfree : leaf.files.get? target = none := hfree
    simp only [Leaf.step, hs.named]
    refine ⟨fun name file' hname => ?_, fun name file' hname => ?_, hsame.inodes,
      fun name file' hne _ hname => ?_, hsame.durable, id⟩
    · have hne : name ≠ target := by
        rintro rfl
        rw [hfree] at hname
        cases hname
      show (leaf.files.insert target file).get? name = _
      rw [Dir.get?_insert, if_neg hne, hname]
    · have hname : (leaf.files.insert target file).get? name = some file' := hname
      rw [Dir.get?_insert] at hname
      split at hname
      · exact Or.inr hname
      · exact Or.inl hname
    · have hne' : name ≠ staged := by
        rintro rfl
        rw [hs.named] at hname
        exact hne hname
      show (leaf.staging.erase staged).get? name = _
      rw [Dir.get?_erase, if_neg hne', hname]
  | syncLeaf target file =>
    exact ⟨hsame.files, hsame.linked, hsame.inodes, hsame.staging, h.durable, id⟩
  | hash target file =>
    simp only [Leaf.step]
    split <;> exact hsame
  | stat target file sha256 =>
    simp only [Leaf.step]
    split <;> exact hsame
  | openIndex target file sha256 size =>
    exact ⟨hsame.files, hsame.linked, hsame.inodes, hsame.staging, hsame.durable, fun _ => rfl⟩
  | append target file sha256 size =>
    exact ⟨hsame.files, hsame.linked, hsame.inodes, hsame.staging, hsame.durable, fun _ => rfl⟩
  | syncIndex target file size =>
    exact ⟨hsame.files, hsame.linked, hsame.inodes, hsame.staging, hsame.durable, id⟩
  | createLeaf => exact hsame
  | readStaging => exact hsame
  | createStaging => exact hsame

/-- The staged file of a call is there as long as the call has one. -/
theorem Relies.staged {pc : PersistPc} (h : Relies sha call leaf pc) {file : ℕ}
    (hpc : pc.staged? = some file) : ∃ staged f, Staged call leaf staged file f := by
  cases pc <;> cases hpc
  case writeStaged staged => exact ⟨staged, h.imp (fun _ hf => hf.1)⟩
  case syncStaged staged => exact ⟨staged, h.imp (fun _ hf => hf.1)⟩
  case probeTarget staged n => exact ⟨staged, h.imp (fun _ hf => hf.1)⟩
  case rename staged target => exact ⟨staged, h.1.imp (fun _ hf => hf.1)⟩

/-- The files of a leaf are still there, under their names and as they
were. -/
def Keeps (leaf leaf' : Leaf τ) : Prop :=
  ∀ name file f, leaf.files.get? name = some file → leaf.inodes[file]? = some f →
    leaf'.files.get? name = some file ∧ leaf'.inodes[file]? = some f

/-- **A step overwrites nothing.** -/
theorem Sound.keeps_step (h : Sound c sha leaf) (path : String) {pc : PersistPc}
    (hat : At sha call leaf pc) :
    Keeps leaf (leaf.step c sha path call pc).1 := by
  have hmoves := h.moves path hat
  intro name file f hname hfile
  have hne : pc.staged? ≠ some file := fun hpc => by
    obtain ⟨staged, f', hs⟩ := hat.1.staged hpc
    exact hs.unlinked name hname
  exact ⟨hmoves.files name file hname, hmoves.inodes file f hne hfile⟩

/-- A step that keeps the files overwrites none. -/
theorem Sound.overwritten_eq_nil (hsound : Sound c sha leaf) (h : Keeps leaf leaf') :
    leaf.overwritten leaf' = [] := by
  unfold overwritten
  rw [List.filter_eq_nil_iff]
  intro name hname
  obtain ⟨⟨k, file⟩, hmem, rfl⟩ := List.mem_map.mp hname
  have hget : leaf.files.get? k = some file := leaf.files.get?_of_mem hmem
  obtain ⟨-, f, hfile, -⟩ := hsound.complete k file hget
  obtain ⟨hget', hfile'⟩ := h k file f hget hfile
  simp [fileAt, hget, hget', hfile, hfile']

/-! ## A leaf an earlier process left -/

/-- **The leaf of one call**: its file, complete, and its entry. -/
def single (c : EntryCodec) (sha : List UInt8 → String) (call : PersistCall τ) : Leaf τ where
  inodes := [⟨call.bytes, true, call⟩]
  staging := .empty
  files := OrdMap.empty.insert call.filename 0
  durable := OrdMap.empty.insert call.filename 0
  index := some (indexText c [entryOf call call.filename (sha call.bytes)])
  indexSynced := some (indexText c [entryOf call call.filename (sha call.bytes)])
  lock := .free

theorem sound_single (c : EntryCodec) (sha : List UInt8 → String) (call : PersistCall τ) :
    (single c sha call).Sound c sha := by
  have hindex : Indexes c sha (single c sha call)
      (indexText c [entryOf call call.filename (sha call.bytes)]) := by
    refine indexes_indexText (fun e he => ?_)
    rw [List.mem_singleton.mp he]
    refine ⟨0, ⟨call.bytes, true, call⟩, ?_, rfl, rfl⟩
    show (OrdMap.empty.insert call.filename 0 : Dir).get? call.filename = some 0
    rw [Dir.get?_insert, if_pos rfl]
  refine ⟨fun _ _ h => h, fun name file hname => ?_, hindex, hindex, fun _ => rfl⟩
  have hname : (OrdMap.empty.insert call.filename 0 : Dir).get? name = some file := hname
  rw [Dir.get?_insert] at hname
  split at hname
  · next heq =>
    cases hname
    exact ⟨heq ▸ isParquet_append _, ⟨call.bytes, true, call⟩, rfl, rfl, rfl⟩
  · cases hname

end Leaf
