import Aetelier.LeafInvariant

/-!
# What a call adds to the index

The entries of a leaf's index, as `read_index` returns them, change at one
step of a call only: the append adds the entry of the call's own file. From
then on the call has its file in the leaf and its entry in the index, and
whatever steps other calls make, it keeps both.
-/

/-- The name a call has renamed its file to and has not listed yet. -/
def PersistPc.unlisted? : PersistPc → Option String
  | .syncLeaf target _ => some target
  | .hash target _ => some target
  | .stat target _ _ => some target
  | .openIndex target _ _ _ => some target
  | .append target _ _ _ => some target
  | _ => none

/-- A call that has returned: the call, its name in the leaf, its file. -/
structure Finished (τ : Type) where
  /-- The call. -/
  call : PersistCall τ
  /-- The name. -/
  target : String
  /-- The file. -/
  file : ℕ

/-- The entries `read_index` returns, none if it fails. -/
def Leaf.entries {τ : Type} (c : EntryCodec) (leaf : Leaf τ) : List IndexEntry :=
  match LeafIndex.readIndex c leaf.index with
  | .ok r => r.1
  | .error _ => []

/-- The call that returns `Ok` with the step. -/
def PersistPc.finished {τ : Type} (call : PersistCall τ) : PersistPc → List (Finished τ)
  | .syncIndex target file _ => [⟨call, target, file⟩]
  | _ => []

namespace Leaf

variable {τ : Type} {c : EntryCodec} {sha : List UInt8 → String}
variable {call : PersistCall τ} {leaf leaf' : Leaf τ}

/-! ## The entries -/

theorem entries_eq {es : List IndexEntry} {torn : ℕ}
    (h : LeafIndex.readLines c (LineLog.lines (leaf.index.getD [])) = .ok (es, torn)) :
    leaf.entries c = es := by
  unfold entries
  rw [LeafIndex.readIndex_eq, h]

theorem entries_single (c : EntryCodec) (sha : List UInt8 → String) (call : PersistCall τ) :
    (single c sha call).entries c = [entryOf call call.filename (sha call.bytes)] :=
  entries_eq (readLines_append_indexText [entryOf call call.filename (sha call.bytes)]
    (Or.inl (rfl : ([] : List UInt8) = []))
    (rfl : LeafIndex.readLines c (LineLog.lines []) = .ok ([], 0)))

/-- The entry a step appends. -/
def appended (call : PersistCall τ) : PersistPc → List IndexEntry
  | .append target _ sha256 _ => [entryOf call target sha256]
  | _ => []

/-- A step appends the name it was about to list, or nothing. -/
theorem appended_cases (call : PersistCall τ) (pc : PersistPc) :
    appended call pc = []
      ∨ ∃ target, pc.unlisted? = some target
        ∧ (appended call pc).map IndexEntry.filename = [target] := by
  cases pc with
  | append target file sha256 size => exact Or.inr ⟨target, rfl, rfl⟩
  | _ => exact Or.inl rfl

theorem index_step (leaf : Leaf τ) (path : String) (pc : PersistPc) :
    (leaf.step c sha path call pc).1.index.getD []
      = leaf.index.getD [] ++ indexText c (appended call pc) := by
  have hnil : leaf.index.getD [] = leaf.index.getD [] ++ indexText c [] :=
    (List.append_nil _).symm
  cases pc with
  | acquireLock =>
    simp only [Leaf.step]
    split <;> exact hnil
  | sweep names => cases names <;> exact hnil
  | probeStaged n =>
    simp only [Leaf.step]
    split <;> exact hnil
  | createStaged staged =>
    simp only [Leaf.step]
    split <;> exact hnil
  | syncStaged staged file =>
    simp only [Leaf.step]
    split <;> exact hnil
  | probeTarget staged file n =>
    simp only [Leaf.step]
    split <;> exact hnil
  | rename staged file target =>
    simp only [Leaf.step]
    split <;> exact hnil
  | hash target file =>
    simp only [Leaf.step]
    split <;> exact hnil
  | stat target file sha256 =>
    simp only [Leaf.step]
    split <;> exact hnil
  | append target file sha256 size =>
    show leaf.index.getD [] ++ LeafIndex.entryLine c _ = _
    simp [indexText, appended]
  | _ => exact hnil

/-- The entries after a step. -/
theorem Sound.entries_step (h : Sound c sha leaf) (path : String) (call : PersistCall τ)
    (pc : PersistPc) :
    (leaf.step c sha path call pc).1.entries c = leaf.entries c ++ appended call pc := by
  obtain ⟨hend, es, torn, hread, -⟩ := h.index
  rw [entries_eq hread]
  have hread' := readLines_append_indexText (appended call pc) hend hread
  rw [← index_step leaf path pc] at hread'
  exact entries_eq hread'

/-- An entry is of a file of the leaf. -/
theorem Sound.lists_of_mem_entries (h : Sound c sha leaf) {e : IndexEntry}
    (he : e ∈ leaf.entries c) : Lists sha leaf e := by
  obtain ⟨-, es, torn, hread, hes⟩ := h.index
  rw [entries_eq hread] at he
  exact hes e he

/-- The file of a call that has renamed it is in the leaf. -/
theorem Relies.target {pc : PersistPc} (h : Relies sha call leaf pc) (hsound : Sound c sha leaf)
    {target : String} (hpc : pc.unlisted? = some target) : (leaf.files.get? target).isSome := by
  have hfinal : ∀ {file : ℕ}, Finalized call leaf leaf.durable target file →
      (leaf.files.get? target).isSome := fun hf => by
    rw [hsound.durable _ _ hf.1]
    rfl
  cases pc <;> cases hpc
  case syncLeaf file =>
    rw [h.1]
    rfl
  case hash file => exact hfinal h
  case stat file sha256 => exact hfinal h.1
  case openIndex file sha256 size => exact hfinal h.1
  case append file sha256 size => exact hfinal h.1

/-- **What a call takes on with a step**: a staged file is a new one, a name
to list was free, and a call about to return has appended its entry. -/
theorem progress_step (path : String) {pc pc' : PersistPc} (hat : At sha call leaf pc)
    (h : (leaf.step c sha path call pc).2 = .at pc') :
    (∀ file, pc'.staged? = some file → pc.staged? = some file ∨ file = leaf.inodes.length)
      ∧ (∀ target, pc'.unlisted? = some target →
          appended call pc = [] ∧ (pc.unlisted? = some target ∨ leaf.files.get? target = none))
      ∧ ∀ d ∈ pc'.finished call,
          ∃ sha256 size, pc = .append d.target d.file sha256 size ∧ d.call = call := by
  have hfree := hat.2
  cases pc with
  | createStaged staged =>
    have hfree : leaf.staging.get? staged = none := hfree
    simp only [Leaf.step, hfree] at h
    cases h
    exact ⟨fun file hf => Or.inr (Option.some.inj hf).symm, fun _ h => (by cases h),
      fun _ h => (by cases h)⟩
  | rename staged file target =>
    have hfree : leaf.files.get? target = none := hfree
    simp only [Leaf.step] at h
    split at h
    · cases h
    · cases h
      refine ⟨fun _ h => (by cases h), fun target' ht => ?_, fun _ h => (by cases h)⟩
      cases ht
      exact ⟨rfl, Or.inr hfree⟩
  | append target file sha256 size =>
    simp only [Leaf.step] at h
    cases h
    refine ⟨fun _ h => (by cases h), fun _ h => (by cases h), fun d hd => ?_⟩
    cases List.mem_singleton.mp hd
    exact ⟨sha256, size, rfl, rfl⟩
  | sweep names =>
    cases names <;> simp only [Leaf.step] at h <;> cases h <;>
      exact ⟨fun _ h => (by cases h), fun _ h => (by cases h), fun _ h => (by cases h)⟩
  | _ =>
    -- elsewhere the call keeps what it has
    simp only [Leaf.step] at h
    (repeat' split at h) <;> cases h <;>
      exact ⟨fun _ h => Or.inl h, fun _ h => ⟨rfl, Or.inl h⟩, fun _ h => (by cases h)⟩

/-- The call's file is in the leaf, and its entry in the index. -/
def Owns (c : EntryCodec) (sha : List UInt8 → String) (leaf : Leaf τ) (d : Finished τ) : Prop :=
  (∃ f, leaf.files.get? d.target = some d.file ∧ leaf.inodes[d.file]? = some f
    ∧ f.author = d.call) ∧ entryOf d.call d.target (sha d.call.bytes) ∈ leaf.entries c

/-- A finished call keeps its file and its entry. -/
theorem Owns.of_moves {pc : PersistPc} {d : Finished τ}
    (h : Owns c sha leaf d) (hm : Moves pc leaf leaf')
    (hlinked : ∀ name file, leaf.files.get? name = some file → pc.staged? ≠ some file)
    (hentries : leaf.entries c <+: leaf'.entries c) : Owns c sha leaf' d := by
  obtain ⟨⟨f, hname, hfile, hauthor⟩, hentry⟩ := h
  exact ⟨⟨f, hm.files _ _ hname, hm.inodes _ f (hlinked _ _ hname) hfile, hauthor⟩,
    hentries.subset hentry⟩

/-- **A call that has appended its entry owns its file.** -/
theorem Sound.owns_of_append (h : Sound c sha leaf) (path : String) {target sha256 : String}
    {file size : ℕ} (hat : At sha call leaf (.append target file sha256 size)) :
    Owns c sha (leaf.step c sha path call (.append target file sha256 size)).1
      ⟨call, target, file⟩ := by
  have hentries := h.entries_step path call (.append target file sha256 size)
  obtain ⟨⟨⟨hname, f, hfile, hauthor⟩, hsha, -⟩, -⟩ := hat
  refine ⟨⟨f, h.durable _ _ hname, hfile, hauthor⟩, ?_⟩
  rw [hentries]
  refine List.mem_append_right _ ?_
  show _ ∈ [entryOf call target sha256]
  rw [hsha]
  exact List.mem_singleton_self _

end Leaf
