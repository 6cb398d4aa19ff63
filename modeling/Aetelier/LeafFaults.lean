import Aetelier.LeafEntries

/-!
# A step that fails

Any step of `persist_leaf` may fail, and the call then returns. A failed step
has no effect, with two exceptions: the writes. A write to the staged file
leaves some of its bytes there, which nobody reads; an append to the index
leaves some of its line, behind which the next append writes.

`Grows` is what a leaf keeps through every step, failed or not: its files, and
the entries of its index. The one step that breaks it is an append that fails
in the middle of its line.
-/

/-- **What a step that fails leaves behind.** -/
def Leaf.fault {τ : Type} (c : EntryCodec) (call : PersistCall τ) (leaf : Leaf τ) (written : ℕ) :
    PersistPc → Leaf τ
  | .writeStaged _ file =>
    leaf.modify file (fun f => { f with bytes := call.bytes.take written, synced := false })
  | .append target _ sha256 _ =>
    { leaf with index := some (leaf.index.getD []
        ++ (LeafIndex.entryLine c (Leaf.entryOf call target sha256)).take written) }
  | _ => leaf

namespace Leaf

variable {τ : Type} {c : EntryCodec} {sha : List UInt8 → String}
variable {call : PersistCall τ} {leaf leaf' : Leaf τ}

/-! ## What a step leaves alone, failed or not -/

/-- The files are still there, and the entries still listed. -/
structure Grows (c : EntryCodec) (leaf leaf' : Leaf τ) : Prop where
  keeps : Keeps leaf leaf'
  entries : leaf.entries c <+: leaf'.entries c

theorem Grows.refl (c : EntryCodec) (leaf : Leaf τ) : Grows c leaf leaf :=
  ⟨fun _ _ _ hname hfile => ⟨hname, hfile⟩, List.prefix_refl _⟩

theorem Owns.grow {d : Finished τ} (h : Owns c sha leaf d) (hg : Grows c leaf leaf') :
    Owns c sha leaf' d := by
  obtain ⟨⟨f, hname, hfile, hauthor⟩, hentry⟩ := h
  obtain ⟨hname', hfile'⟩ := hg.keeps _ _ f hname hfile
  exact ⟨⟨f, hname', hfile', hauthor⟩, hg.entries.subset hentry⟩

theorem Sound.grows_step (h : Sound c sha leaf) (path : String) {pc : PersistPc}
    (hat : At sha call leaf pc) : Grows c leaf (leaf.step c sha path call pc).1 := by
  refine ⟨h.keeps_step path hat, ?_⟩
  rw [h.entries_step]
  exact List.prefix_append _ _

/-- **A line of the index is written whole or not at all**, should the append
fail. -/
def Whole (c : EntryCodec) (call : PersistCall τ) (written : ℕ) : PersistPc → Prop
  | .append target _ sha256 _ =>
    written = 0 ∨ (LeafIndex.entryLine c (entryOf call target sha256)).length ≤ written
  | _ => True

instance (c : EntryCodec) (call : PersistCall τ) (written : ℕ) (pc : PersistPc) :
    Decidable (Whole c call written pc) :=
  match pc with
  | .append _ _ _ _ => inferInstanceAs (Decidable (_ ∨ _))
  | .createLeaf | .acquireLock | .readStaging | .sweep _ | .createStaging | .probeStaged _
  | .createStaged _ | .writeStaged _ _ | .syncStaged _ _ | .probeTarget _ _ _ | .rename _ _ _
  | .syncLeaf _ _ | .hash _ _ | .stat _ _ _ | .openIndex _ _ _ _ | .syncIndex _ _ _ =>
    inferInstanceAs (Decidable True)

theorem files_fault (leaf : Leaf τ) (written : ℕ) (pc : PersistPc) :
    (leaf.fault c call written pc).files = leaf.files := by
  cases pc <;> rfl

/-- **A step that fails harms nothing**, unless it tears a line. -/
theorem Sound.fault (h : Sound c sha leaf) {pc : PersistPc} (hat : At sha call leaf pc)
    {written : ℕ} (hwhole : Whole c call written pc) :
    Sound c sha (leaf.fault c call written pc) ∧ Grows c leaf (leaf.fault c call written pc) := by
  cases pc with
  | writeStaged staged file =>
    obtain ⟨⟨f, hs, -⟩, -⟩ := hat
    refine ⟨h.modify hs.unlinked _, fun name file' f' hname hfile => ⟨hname, ?_⟩,
      List.prefix_refl _⟩
    have hne : file ≠ file' := fun heq => hs.unlinked name (heq ▸ hname)
    show (leaf.inodes.modify file _)[file']? = _
    rw [List.getElem?_modify_ne _ _ hne, hfile]
  | append target file sha256 size =>
    rcases hwhole with rfl | hle
    · have hindex : (leaf.fault c call 0 (.append target file sha256 size)).index.getD []
          = leaf.index.getD [] := List.append_nil _
      refine ⟨⟨h.durable, h.complete, ?_, h.indexSynced, fun _ => rfl⟩,
        fun _ _ _ hname hfile => ⟨hname, hfile⟩, ?_⟩
      · rw [hindex]
        exact h.index
      · obtain ⟨-, es, torn, hread, -⟩ := h.index
        have hread' := hread
        rw [← hindex] at hread'
        have hsame := (entries_eq hread).trans (entries_eq hread').symm
        exact hsame ▸ List.prefix_refl _
    · -- the whole line: the append as if it had not failed
      have hfault : leaf.fault c call written (.append target file sha256 size)
          = (leaf.step c sha "" call (.append target file sha256 size)).1 := by
        show { leaf with index := some (_ ++ List.take _ _) } = _
        rw [List.take_of_length_le hle]
        rfl
      rw [hfault]
      exact ⟨(h.step "" hat).1, h.grows_step "" hat⟩
  | _ => exact ⟨h, Grows.refl c leaf⟩

/-! ## The names a call adds -/

/-- A step leaves the names alone, or renames. -/
theorem files_step (c : EntryCodec) (sha : List UInt8 → String) (call : PersistCall τ)
    (leaf : Leaf τ) (path : String) (pc : PersistPc) :
    (leaf.step c sha path call pc).1.files = leaf.files
      ∨ ∃ staged file target found, pc = .rename staged file target
        ∧ leaf.step c sha path call pc
          = ({ leaf with
                files := leaf.files.insert target found
                staging := leaf.staging.erase staged }, .at (.syncLeaf target file)) := by
  cases pc with
  | rename staged file target =>
    simp only [Leaf.step]
    split
    · exact Or.inl rfl
    · next found _ => exact Or.inr ⟨staged, file, target, found, rfl, rfl⟩
  | sweep names =>
    cases names <;> exact Or.inl rfl
  | _ =>
    refine Or.inl ?_
    simp only [Leaf.step] <;> (repeat' split) <;> rfl

/-- **A new name in the leaf is the call's own**, which it has from then on. -/
theorem Sound.fileAt_step (h : Sound c sha leaf) (path : String) {pc : PersistPc}
    (hat : At sha call leaf pc) {name : String} {file : ℕ} {f : Inode τ}
    (hname : (leaf.step c sha path call pc).1.files.get? name = some file)
    (hfile : (leaf.step c sha path call pc).1.inodes[file]? = some f) :
    (leaf.files.get? name = some file ∧ leaf.inodes[file]? = some f)
      ∨ pc.target? = none ∧ f.author = call
        ∧ ∃ pc', (leaf.step c sha path call pc).2 = .at pc' ∧ pc'.target? = some name := by
  have hold : leaf.files.get? name = some file →
      leaf.files.get? name = some file ∧ leaf.inodes[file]? = some f := fun hname => by
    obtain ⟨-, f', hfile', -⟩ := h.complete name file hname
    cases hfile.symm.trans (h.keeps_step path hat name file f' hname hfile').2
    exact ⟨hname, hfile'⟩
  rcases files_step c sha call leaf path pc with
    hfiles | ⟨staged, file', target, found, rfl, hstep⟩
  · rw [hfiles] at hname
    exact Or.inl (hold hname)
  · have hat' := (h.step path hat).2 (.syncLeaf target file') (by rw [hstep])
    rw [hstep] at hname hfile hat' ⊢
    by_cases heq : name = target
    · subst heq
      obtain ⟨⟨hname', f', hfile', hauthor⟩, -⟩ := hat'
      cases hname.symm.trans hname'
      cases hfile.symm.trans hfile'
      exact Or.inr ⟨rfl, hauthor, _, rfl, rfl⟩
    · have hname : (leaf.files.insert target found).get? name = some file := hname
      rw [Dir.get?_insert, if_neg heq] at hname
      exact Or.inl (hold hname)

/-- The name stays the call's. -/
theorem target_step (path : String) {pc pc' : PersistPc} {name : String}
    (h : (leaf.step c sha path call pc).2 = .at pc') (hpc : pc.target? = some name) :
    pc'.target? = some name := by
  cases pc <;> cases hpc <;> simp only [Leaf.step] at h <;> (repeat' split at h) <;> cases h <;> rfl

/-- A call returns `Ok` after it has appended its entry. -/
theorem syncIndex_of_returned_ok (path : String) {pc : PersistPc} {bytes : ℕ}
    (h : (leaf.step c sha path call pc).2 = .returned (.ok bytes)) :
    ∃ target file, pc = .syncIndex target file bytes := by
  cases pc with
  | syncIndex target file size =>
    cases h
    exact ⟨target, file, rfl⟩
  | sweep names => cases names <;> cases h
  | _ =>
    simp only [Leaf.step] at h
    (repeat' split at h) <;> cases h

end Leaf
