import Aetelier.LeafCrash
import Aetelier.LeafFaults
import Mathlib.Data.List.Nodup

/-!
# Two sinks on one leaf

The lock of a leaf is taken once per process and kept, so it keeps other
processes out and lets every sink of the same process in. Two sinks that write
to one leaf then take turns in any order of their steps, and three of the
steps rest on the leaf having one writer. The sweep removes whatever is in
staging, the other sink's file included; and both names a call takes, one in
staging and one in the leaf, are names it found free some steps earlier.

Whether they go wrong is a matter of where the two calls are. A sweep is safe
while the other call has no file in staging, and a name that was found free
stays free while the other call is not about to take it. Where every step is
taken so (`SharedLeaf.Apart`), neither call harms the other, and a call that
returns has its own file in the leaf, listed once. `Moves` is what one sink's
steps may do to the leaf, and `Relies.of_moves` that the other sink does not
mind.
-/

/-- The name a call is about to give its file in the leaf. -/
def PersistPc.renames? : PersistPc → Option String
  | .rename _ _ target => some target
  | _ => none

/-- **A call may make its step where the other call is**: it does not sweep
while the other has a staged file, and takes no name that the other is about to
take. -/
def PersistPc.Apart : PersistPc → PersistPc → Prop
  | .sweep (_ :: _), other => other.staged? = none
  | .createStaged staged, other => other ≠ .createStaged staged
  | .rename _ _ target, other => other.renames? ≠ some target
  | _, _ => True

instance PersistPc.decidableApart : (pc other : PersistPc) → Decidable (pc.Apart other)
  | .sweep (_ :: _), other => inferInstanceAs (Decidable (other.staged? = none))
  | .createStaged staged, other => inferInstanceAs (Decidable (other ≠ .createStaged staged))
  | .rename _ _ target, other => inferInstanceAs (Decidable (other.renames? ≠ some target))
  | .sweep [], _ | .createLeaf, _ | .acquireLock, _ | .readStaging, _ | .createStaging, _
  | .probeStaged _, _ | .writeStaged _ _, _ | .syncStaged _ _, _ | .probeTarget _ _ _, _
  | .syncLeaf _ _, _ | .hash _ _, _ | .stat _ _ _, _ | .openIndex _ _ _ _, _
  | .append _ _ _ _, _ | .syncIndex _ _ _, _ => isTrue trivial

/-- **A leaf and the two sinks that write to it.** -/
structure SharedLeaf (τ : Type) where
  /-- The leaf. -/
  leaf : Leaf τ
  /-- The call each sink is in. -/
  calls : Bool → Option (PersistCall τ × PersistPc)
  /-- The calls that have returned `Ok`. -/
  done : List (Finished τ)

/-- What happens. -/
inductive SharedInput (τ : Type) where
  /-- A sink calls `persist_leaf`. -/
  | call (sink : Bool) (call : PersistCall τ)
  /-- The call of a sink makes a step. -/
  | tick (sink : Bool)

/-- What one sink does to the other. -/
inductive Harm where
  /-- It removes the other's staged file. -/
  | swept (name : String)
  /-- It overwrites a file of the leaf. -/
  | overwrote (name : String)
deriving DecidableEq, Repr

namespace SharedLeaf

variable {τ : Type}

/-- Both sinks before their first call, and the leaf they find. -/
def start (leaf : Leaf τ) : SharedLeaf τ := ⟨leaf, fun _ => none, []⟩

/-- The staged file of a sink. -/
def staged? (s : SharedLeaf τ) (sink : Bool) : Option ℕ :=
  (s.calls sink).bind (fun p => p.2.staged?)

/-- The name a sink is about to list. -/
def unlisted? (s : SharedLeaf τ) (sink : Bool) : Option String :=
  (s.calls sink).bind (fun p => p.2.unlisted?)

/-- The step sweeps the staged file of the other sink. -/
def SweepsOther (s : SharedLeaf τ) (sink : Bool) (pc : PersistPc) (name : String) : Prop :=
  pc.swept? = some name ∧ (s.leaf.staging.get? name).isSome
    ∧ s.leaf.staging.get? name = s.staged? (!sink)

instance (s : SharedLeaf τ) (sink : Bool) (pc : PersistPc) (name : String) :
    Decidable (s.SweepsOther sink pc name) := inferInstanceAs (Decidable (_ ∧ _ ∧ _))

/-- The sinks as a machine; it writes the harm a step does. -/
def machine (c : EntryCodec) (sha : List UInt8 → String) (path : String) :
    Machine (SharedLeaf τ) (SharedInput τ) Harm where
  step s
    | .call sink call =>
      (if (s.calls sink).isSome then s
        else { s with calls := Function.update s.calls sink (some (call, .createLeaf)) }, [])
    | .tick sink =>
      match s.calls sink with
      | none => (s, [])
      | some (call, pc) =>
        let r := s.leaf.step c sha path call pc
        (⟨r.1, Function.update s.calls sink (r.2.pc?.map (fun pc' => (call, pc'))),
            s.done ++ pc.finished call⟩,
          (pc.swept?.toList.filter (fun name => s.SweepsOther sink pc name)).map .swept
            ++ (s.leaf.overwritten r.1).map .overwrote)

/-- **The two calls are apart at the step.** -/
def Apart (s : SharedLeaf τ) : SharedInput τ → Prop
  | .call _ _ => True
  | .tick sink => ∀ p ∈ s.calls sink, ∀ q ∈ s.calls (!sink), p.2.Apart q.2

instance (s : SharedLeaf τ) (i : SharedInput τ) : Decidable (s.Apart i) :=
  match i with
  | .call _ _ => isTrue trivial
  | .tick _ => inferInstanceAs (Decidable (∀ _ ∈ _, ∀ _ ∈ _, PersistPc.Apart _ _))

/-- **The call has its file in the leaf, listed once.** -/
def HasItsFile (c : EntryCodec) (sha : List UInt8 → String) (leaf : Leaf τ) (d : Finished τ) :
    Prop :=
  ∃ f, leaf.files.get? d.target = some d.file ∧ leaf.inodes[d.file]? = some f
    ∧ f.bytes = d.call.bytes
    ∧ (leaf.entries c).filter (fun e => e.filename = d.target)
      = [Leaf.entryOf d.call d.target (sha f.bytes)]

end SharedLeaf

namespace Leaf

variable {τ : Type} {c : EntryCodec} {sha : List UInt8 → String}
variable {call : PersistCall τ} {leaf leaf' : Leaf τ}

/-! ## The other sink's step -/

/-- A name free in staging is taken by a call that creates it. -/
theorem staging_step (path : String) {pc : PersistPc} {name : String}
    (hfree : leaf.staging.get? name = none) (hpc : pc ≠ .createStaged name) :
    (leaf.step c sha path call pc).1.staging.get? name = none := by
  have herase : ∀ name', (leaf.staging.erase name').get? name = none := by
    intro name'
    rw [Dir.get?_erase, hfree]
    split <;> rfl
  cases pc with
  | sweep names =>
    cases names with
    | nil => exact hfree
    | cons name' names => exact herase name'
  | createStaged staged =>
    simp only [Leaf.step]
    split
    · show (leaf.staging.insert staged _).get? name = none
      rw [Dir.get?_insert, if_neg (fun heq : name = staged => hpc (by rw [heq])), hfree]
    · exact hfree
  | rename staged file target =>
    simp only [Leaf.step]
    split
    · exact hfree
    · exact herase staged
  | _ =>
    simp only [Leaf.step]
    (repeat' split) <;> exact hfree

/-- **The name a call found free stays free** over the steps of the other. -/
theorem Free.of_step (path : String) {pc pc' : PersistPc} (h : leaf.Free pc')
    (hapart : pc.Apart pc') : (leaf.step c sha path call pc).1.Free pc' := by
  cases pc' with
  | createStaged staged =>
    exact staging_step path h (fun heq => by subst heq; exact hapart rfl)
  | rename staged file target =>
    rcases files_step c sha call leaf path pc with hfiles | ⟨_, _, target', found, rfl, hstep⟩
    · show (leaf.step c sha path call pc).1.files.get? target = none
      rw [hfiles]
      exact h
    · rw [hstep]
      show (leaf.files.insert target' found).get? target = none
      rw [Dir.get?_insert, if_neg (fun heq => hapart (congrArg some heq))]
      exact h
  | _ => trivial

theorem Staged.of_moves {staged : String} {file : ℕ} {f : Inode τ} {pc' : PersistPc}
    (h : Staged call leaf staged file f) (hm : Moves pc' leaf leaf')
    (hfile : pc'.staged? ≠ some file) (hname : pc'.swept? ≠ some staged) :
    Staged call leaf' staged file f := by
  refine ⟨h.isParquet, hm.staging staged file hfile hname h.named, fun name hlink => ?_,
    hm.inodes file f hfile h.found, h.author⟩
  rcases hm.linked name file hlink with hold | hmine
  · exact h.unlinked name hold
  · exact hfile hmine

/-- **What a call relies on survives the steps of the other.** -/
theorem Relies.of_moves {pc pc' : PersistPc} (h : Relies sha call leaf pc)
    (hsound : Sound c sha leaf) (hm : Moves pc' leaf leaf')
    (hother : ∀ name file, leaf.files.get? name = some file → pc'.staged? ≠ some file)
    (hstaged : ∀ name file, pc.staged? = some file → leaf.staging.get? name = some file →
      pc'.staged? ≠ some file ∧ pc'.swept? ≠ some name) :
    Relies sha call leaf' pc := by
  have hfinal : ∀ {target : String} {file : ℕ}, Finalized call leaf leaf.durable target file →
      Finalized call leaf' leaf'.durable target file := by
    rintro target file ⟨hname, f, hfile, hauthor⟩
    exact ⟨hm.durable target file hname, f,
      hm.inodes file f (hother target file (hsound.durable target file hname)) hfile, hauthor⟩
  cases pc with
  | createStaged staged => exact h
  | writeStaged staged file =>
    obtain ⟨f, hs, hf⟩ := h
    obtain ⟨hne, hname⟩ := hstaged staged file rfl hs.named
    exact ⟨f, hs.of_moves hm hne hname, hf⟩
  | syncStaged staged file =>
    obtain ⟨f, hs, hf⟩ := h
    obtain ⟨hne, hname⟩ := hstaged staged file rfl hs.named
    exact ⟨f, hs.of_moves hm hne hname, hf⟩
  | probeTarget staged file n =>
    obtain ⟨f, hs, hf⟩ := h
    obtain ⟨hne, hname⟩ := hstaged staged file rfl hs.named
    exact ⟨f, hs.of_moves hm hne hname, hf⟩
  | rename staged file target =>
    obtain ⟨⟨f, hs, hf⟩, hparquet⟩ := h
    obtain ⟨hne, hname⟩ := hstaged staged file rfl hs.named
    exact ⟨⟨f, hs.of_moves hm hne hname, hf⟩, hparquet⟩
  | syncLeaf target file =>
    obtain ⟨hname, f, hfile, hauthor⟩ := h
    exact ⟨hm.files target file hname, f, hm.inodes file f (hother target file hname) hfile,
      hauthor⟩
  | hash target file => exact hfinal h
  | stat target file sha256 => exact ⟨hfinal h.1, h.2⟩
  | openIndex target file sha256 size => exact ⟨hfinal h.1, h.2⟩
  | append target file sha256 size => exact ⟨hfinal h.1, h.2.1, hm.index h.2.2⟩
  | syncIndex target file size => exact hm.index h
  | _ => trivial

end Leaf

/-- Where the name of a list of entries stands once, it is found once. -/
theorem IndexEntry.filter_eq_singleton {es : List IndexEntry} {e : IndexEntry}
    (hnodup : (es.map IndexEntry.filename).Nodup) (he : e ∈ es) :
    es.filter (fun x => x.filename = e.filename) = [e] := by
  obtain ⟨before, after, rfl⟩ := List.append_of_mem he
  rw [List.map_append, List.map_cons, List.nodup_append] at hnodup
  obtain ⟨-, hafter, hapart⟩ := hnodup
  have hnone : ∀ x ∈ before ++ after, x.filename ≠ e.filename := by
    intro x hx heq
    rcases List.mem_append.mp hx with hx | hx
    · exact hapart _ (List.mem_map_of_mem hx) _ List.mem_cons_self heq
    · exact (List.nodup_cons.mp hafter).1 (heq ▸ List.mem_map_of_mem hx)
  rw [List.filter_append, List.filter_cons_of_pos (by simp),
    List.filter_eq_nil_iff.mpr (fun x hx => by simpa using hnone x (List.mem_append_left _ hx)),
    List.filter_eq_nil_iff.mpr (fun x hx => by simpa using hnone x (List.mem_append_right _ hx))]
  rfl

namespace SharedLeaf

variable {τ : Type} {c : EntryCodec} {sha : List UInt8 → String} {path : String}

/-- **What holds at every step of two sinks that are kept apart.** -/
structure Inv (c : EntryCodec) (sha : List UInt8 → String) (s : SharedLeaf τ) : Prop where
  /-- The leaf is in order. -/
  sound : s.leaf.Sound c sha
  /-- Each call finds what it relies on. -/
  relies : ∀ sink call pc, s.calls sink = some (call, pc) → Leaf.Relies sha call s.leaf pc
  /-- The name it is about to take is free. -/
  free : ∀ sink call pc, s.calls sink = some (call, pc) → s.leaf.Free pc
  /-- The staged files are two. -/
  apart : ∀ sink file, s.staged? sink = some file → s.staged? (!sink) ≠ some file
  /-- A name is listed once. -/
  nodup : ((s.leaf.entries c).map IndexEntry.filename).Nodup
  /-- What is about to be listed is not. -/
  unlisted : ∀ sink target, s.unlisted? sink = some target →
    target ∉ (s.leaf.entries c).map IndexEntry.filename
  /-- What is about to be listed are two names. -/
  names : ∀ sink target, s.unlisted? sink = some target → s.unlisted? (!sink) ≠ some target
  /-- What is listed is there, also when its call is about to return. -/
  owns : ∀ d, (d ∈ s.done ∨ ∃ sink call pc, s.calls sink = some (call, pc) ∧ d ∈ pc.finished call) →
    Leaf.Owns c sha s.leaf d

/-- A file that is listed once is what a finished call has. -/
theorem Inv.hasItsFile {s : SharedLeaf τ} (h : s.Inv c sha) {d : Finished τ} (hd : d ∈ s.done) :
    HasItsFile c sha s.leaf d := by
  obtain ⟨⟨f, hname, hfile, hauthor⟩, hentry⟩ := h.owns d (Or.inl hd)
  obtain ⟨-, f', hfile', -, hbytes⟩ := h.sound.complete d.target d.file hname
  cases hfile.symm.trans hfile'
  rw [hauthor] at hbytes
  refine ⟨f, hname, hfile, hbytes, ?_⟩
  rw [hbytes]
  exact IndexEntry.filter_eq_singleton h.nodup hentry

theorem inv_start {leaf : Leaf τ} (hsound : leaf.Sound c sha)
    (hnodup : ((leaf.entries c).map IndexEntry.filename).Nodup) : (start leaf).Inv c sha where
  sound := hsound
  relies := fun _ _ _ h => by cases h
  free := fun _ _ _ h => by cases h
  apart := fun _ _ h => by cases h
  nodup := hnodup
  unlisted := fun _ _ h => by cases h
  names := fun _ _ h => by cases h
  owns := by
    rintro d (hd | ⟨sink, call, pc, hc, -⟩)
    · cases hd
    · cases hc

/-- Both sinks' calls after a step of one of them. -/
theorem calls_update {s : SharedLeaf τ} {sink sink' : Bool} {call call' : PersistCall τ}
    {pc' : PersistPc} {next : Option PersistPc}
    (h : Function.update s.calls sink (next.map (fun pc => (call, pc))) sink' = some (call', pc')) :
    (sink' = sink ∧ call' = call ∧ next = some pc')
      ∨ (sink' = !sink ∧ s.calls (!sink) = some (call', pc')) := by
  by_cases heq : sink' = sink
  · subst heq
    rw [Function.update_self] at h
    obtain ⟨pc, hpc, hp⟩ := Option.map_eq_some_iff.mp h
    cases hp
    exact Or.inl ⟨rfl, rfl, hpc⟩
  · rw [Function.update_of_ne heq] at h
    have hnot : sink' = !sink := Bool.eq_not_iff.mpr heq
    exact Or.inr ⟨hnot, hnot ▸ h⟩

/-- What the sink that makes a step has afterwards. -/
theorem bind_update_self {α : Type} (g : PersistPc → Option α) (s : SharedLeaf τ) (sink : Bool)
    (call : PersistCall τ) (next : Option PersistPc) :
    (Function.update s.calls sink (next.map (fun pc => (call, pc))) sink).bind (fun p => g p.2)
      = next.bind g := by
  rw [Function.update_self, Option.bind_map]
  rfl

/-- What the other sink has is what it had. -/
theorem bind_update_not {α : Type} (g : PersistPc → Option α) (s : SharedLeaf τ) (sink : Bool)
    (next : Option (PersistCall τ × PersistPc)) :
    (Function.update s.calls sink next (!sink)).bind (fun p => g p.2)
      = (s.calls (!sink)).bind (fun p => g p.2) := by
  rw [Function.update_of_ne (Bool.not_ne_self sink)]

/-- What the two sinks have differs if what the one has is not the other's. -/
theorem ne_of_ne {α : Type} {f : Bool → Option α} {k : Bool}
    (h : ∀ a, f k = some a → f (!k) ≠ some a) :
    ∀ sink a, f sink = some a → f (!sink) ≠ some a := by
  intro sink a ha hb
  by_cases heq : sink = k
  · subst heq
    exact h a ha hb
  · have hnot : sink = !k := Bool.eq_not_iff.mpr heq
    rw [hnot] at ha hb
    rw [Bool.not_not] at hb
    exact h a hb ha

/-- A call that is apart sweeps nothing of the other's. -/
theorem not_sweepsOther {s : SharedLeaf τ} {sink : Bool} {pc : PersistPc}
    (hapart : ∀ q ∈ s.calls (!sink), pc.Apart q.2) (name : String) :
    ¬ s.SweepsOther sink pc name := by
  rintro ⟨hswept, hsome, hother⟩
  rw [hother] at hsome
  obtain ⟨file, hfile⟩ := Option.isSome_iff_exists.mp hsome
  obtain ⟨q, hq, hstaged⟩ := Option.bind_eq_some_iff.mp hfile
  cases pc with
  | sweep names =>
    obtain ⟨rest, rfl⟩ := List.head?_eq_some_iff.mp hswept
    have hnone : q.2.staged? = none := hapart q hq
    rw [hnone] at hstaged
    cases hstaged
  | _ => cases hswept

/-! ## A step of one sink -/

section Tick

variable {s : SharedLeaf τ} {sink : Bool} {call : PersistCall τ} {pc : PersistPc}

theorem Inv.at (h : s.Inv c sha) (hcall : s.calls sink = some (call, pc)) :
    Leaf.At sha call s.leaf pc :=
  ⟨h.relies sink call pc hcall, h.free sink call pc hcall⟩

theorem staged_of_calls (hcall : s.calls sink = some (call, pc)) : s.staged? sink = pc.staged? := by
  unfold staged?
  rw [hcall]
  rfl

theorem unlisted_of_calls (hcall : s.calls sink = some (call, pc)) :
    s.unlisted? sink = pc.unlisted? := by
  unfold unlisted?
  rw [hcall]
  rfl

/-- A staged file has no name in the leaf. -/
theorem Inv.staged_unlinked (h : s.Inv c sha) (hcall : s.calls sink = some (call, pc)) :
    ∀ name file, s.leaf.files.get? name = some file → pc.staged? ≠ some file := by
  intro name file hname hpc
  obtain ⟨staged, f, hs⟩ := (h.at hcall).1.staged hpc
  exact hs.unlinked name hname

/-- What is listed is in the leaf. -/
theorem Inv.isSome_of_listed (h : s.Inv c sha) {target : String}
    (htarget : target ∈ (s.leaf.entries c).map IndexEntry.filename) :
    (s.leaf.files.get? target).isSome := by
  obtain ⟨e, he, rfl⟩ := List.mem_map.mp htarget
  obtain ⟨file, -, hname, -⟩ := h.sound.lists_of_mem_entries he
  rw [h.sound.durable _ _ hname]
  rfl

/-- The other sink's call finds what it relies on: its staged file and its name
are as they were. -/
theorem Inv.relies_other (h : s.Inv c sha) (hcall : s.calls sink = some (call, pc))
    (hapart : ∀ q ∈ s.calls (!sink), pc.Apart q.2) (path : String)
    {p : PersistCall τ × PersistPc} (hp : s.calls (!sink) = some p) :
    Leaf.Relies sha p.1 (s.leaf.step c sha path call pc).1 p.2 := by
  refine (h.relies _ p.1 p.2 hp).of_moves h.sound (h.sound.moves path (h.at hcall))
    (h.staged_unlinked hcall) (fun name file hpc hname => ?_)
  have hof : s.staged? (!sink) = some file := (staged_of_calls hp).trans hpc
  refine ⟨fun hmine => h.apart sink file ((staged_of_calls hcall).trans hmine) hof,
    fun hswept => ?_⟩
  exact not_sweepsOther hapart name ⟨hswept, by rw [hname]; rfl, hname.trans hof.symm⟩

/-- The file the sink stages is not the other's: it was there before, or has a
number no other has. -/
theorem Inv.apart_tick (h : s.Inv c sha) (hcall : s.calls sink = some (call, pc)) {path : String}
    {pc' : PersistPc} (hpc : (s.leaf.step c sha path call pc).2.pc? = some pc') {file : ℕ}
    (hf : pc'.staged? = some file) : s.staged? (!sink) ≠ some file := by
  intro ho
  rcases (Leaf.progress_step path (h.at hcall) (Progress.eq_at_of_pc? hpc)).1 file hf with
    hold | hnew
  · exact h.apart sink file ((staged_of_calls hcall).trans hold) ho
  · obtain ⟨p, hp, hpf⟩ := Option.bind_eq_some_iff.mp ho
    obtain ⟨staged, f, hs⟩ := (h.relies _ p.1 p.2 hp).staged hpf
    have hfound := hs.found
    rw [hnew, List.getElem?_eq_none (Nat.le_refl _)] at hfound
    cases hfound

/-- The name the sink is about to list is not the other's: it was its own
before, or is free. -/
theorem Inv.names_tick (h : s.Inv c sha) (hcall : s.calls sink = some (call, pc)) {path : String}
    {pc' : PersistPc} (hpc : (s.leaf.step c sha path call pc).2.pc? = some pc') {target : String}
    (ht : pc'.unlisted? = some target) : s.unlisted? (!sink) ≠ some target := by
  intro ho
  obtain ⟨-, hold | hfree⟩ :=
    (Leaf.progress_step path (h.at hcall) (Progress.eq_at_of_pc? hpc)).2.1 target ht
  · exact h.names sink target ((unlisted_of_calls hcall).trans hold) ho
  · obtain ⟨p, hp, hpt⟩ := Option.bind_eq_some_iff.mp ho
    have hsome := (h.relies _ p.1 p.2 hp).target h.sound hpt
    rw [hfree] at hsome
    cases hsome

/-- A step lists no name twice. -/
theorem Inv.nodup_tick (h : s.Inv c sha) (hcall : s.calls sink = some (call, pc)) (path : String) :
    (((s.leaf.step c sha path call pc).1.entries c).map IndexEntry.filename).Nodup := by
  rw [h.sound.entries_step path call pc, List.map_append]
  rcases Leaf.appended_cases call pc with hnil | ⟨target, hpc, htarget⟩
  · rw [hnil, List.map_nil, List.append_nil]
    exact h.nodup
  · rw [htarget, ← List.concat_eq_append]
    exact List.Nodup.concat (h.unlisted sink target ((unlisted_of_calls hcall).trans hpc)) h.nodup

/-- What the sink is about to list is not listed yet. -/
theorem Inv.unlisted_tick (h : s.Inv c sha) (hcall : s.calls sink = some (call, pc))
    {path : String} {pc' : PersistPc}
    (hpc : (s.leaf.step c sha path call pc).2.pc? = some pc') {target : String}
    (ht : pc'.unlisted? = some target) :
    target ∉ ((s.leaf.step c sha path call pc).1.entries c).map IndexEntry.filename := by
  obtain ⟨hnil, hor⟩ :=
    (Leaf.progress_step path (h.at hcall) (Progress.eq_at_of_pc? hpc)).2.1 target ht
  rw [h.sound.entries_step path call pc, List.map_append, List.mem_append, not_or, hnil]
  refine ⟨fun hmem => ?_, List.not_mem_nil⟩
  rcases hor with hold | hfree
  · exact h.unlisted sink target ((unlisted_of_calls hcall).trans hold) hmem
  · have hsome := h.isSome_of_listed hmem
    rw [hfree] at hsome
    cases hsome

/-- What the other sink is about to list is not what the step lists. -/
theorem Inv.unlisted_other (h : s.Inv c sha) (hcall : s.calls sink = some (call, pc))
    (path : String) {target : String} (ht : s.unlisted? (!sink) = some target) :
    target ∉ ((s.leaf.step c sha path call pc).1.entries c).map IndexEntry.filename := by
  rw [h.sound.entries_step path call pc, List.map_append, List.mem_append, not_or]
  refine ⟨h.unlisted _ target ht, fun hmem => ?_⟩
  rcases Leaf.appended_cases call pc with hnil | ⟨target', hpc, htarget⟩
  · rw [hnil] at hmem
    cases hmem
  · rw [htarget, List.mem_singleton] at hmem
    exact h.names sink target ((unlisted_of_calls hcall).trans (hmem ▸ hpc)) ht

/-- **The step lemma of the sinks.** -/
theorem inv_tick (h : s.Inv c sha) (hcall : s.calls sink = some (call, pc))
    (hapart : ∀ q ∈ s.calls (!sink), pc.Apart q.2) (path : String) :
    Inv c sha ⟨(s.leaf.step c sha path call pc).1,
      Function.update s.calls sink
        ((s.leaf.step c sha path call pc).2.pc?.map (fun pc' => (call, pc'))),
      s.done ++ pc.finished call⟩ := by
  have hat := h.at hcall
  have hafter := h.sound.step path hat
  refine ⟨hafter.1, fun sink' call' pc' hc => ?_, fun sink' call' pc' hc => ?_,
    ne_of_ne (k := sink) (fun file hf ho => ?_), h.nodup_tick hcall path,
    fun sink' target ht => ?_, ne_of_ne (k := sink) (fun target ht ho => ?_), ?_⟩
  · rcases calls_update hc with ⟨rfl, rfl, hpc⟩ | ⟨rfl, hc'⟩
    · exact (hafter.2 pc' (Progress.eq_at_of_pc? hpc)).1
    · exact h.relies_other hcall hapart path hc'
  · rcases calls_update hc with ⟨rfl, rfl, hpc⟩ | ⟨rfl, hc'⟩
    · exact (hafter.2 pc' (Progress.eq_at_of_pc? hpc)).2
    · exact (h.free _ call' pc' hc').of_step path (hapart _ hc')
  · obtain ⟨pc', hpc, hf⟩ :=
      Option.bind_eq_some_iff.mp ((bind_update_self _ s _ _ _).symm.trans hf)
    exact h.apart_tick hcall hpc hf ((bind_update_not _ s _ _).symm.trans ho)
  · by_cases heq : sink' = sink
    · subst heq
      obtain ⟨pc', hpc, ht⟩ :=
        Option.bind_eq_some_iff.mp ((bind_update_self _ s _ _ _).symm.trans ht)
      exact h.unlisted_tick hcall hpc ht
    · obtain rfl := Bool.eq_not_iff.mpr heq
      exact h.unlisted_other hcall path ((bind_update_not _ s _ _).symm.trans ht)
  · obtain ⟨pc', hpc, ht⟩ :=
      Option.bind_eq_some_iff.mp ((bind_update_self _ s _ _ _).symm.trans ht)
    exact h.names_tick hcall hpc ht ((bind_update_not _ s _ _).symm.trans ho)
  · have hmoves := h.sound.moves path hat
    have hlinked := h.staged_unlinked hcall
    have hprefix : s.leaf.entries c <+: (s.leaf.step c sha path call pc).1.entries c :=
      h.sound.entries_step path call pc ▸ List.prefix_append _ _
    rintro d (hd | ⟨sink', call', pc', hc, hd⟩)
    · refine (h.owns d ?_).of_moves hmoves hlinked hprefix
      rcases List.mem_append.mp hd with hd | hd
      · exact Or.inl hd
      · exact Or.inr ⟨sink, call, pc, hcall, hd⟩
    · rcases calls_update hc with ⟨rfl, rfl, hpc⟩ | ⟨rfl, hc'⟩
      · -- the entry was appended by this step
        obtain ⟨sha256, size, rfl, hcalls⟩ :=
          (Leaf.progress_step path hat (Progress.eq_at_of_pc? hpc)).2.2 d hd
        cases d
        cases hcalls
        exact h.sound.owns_of_append path hat
      · exact (h.owns d (Or.inr ⟨_, call', pc', hc', hd⟩)).of_moves hmoves hlinked hprefix

end Tick

/-- A call that is begun has done nothing yet. -/
theorem inv_call {s : SharedLeaf τ} (h : s.Inv c sha) (sink : Bool) (call : PersistCall τ) :
    Inv c sha { s with calls := Function.update s.calls sink (some (call, .createLeaf)) } := by
  have hnew : some (call, PersistPc.createLeaf)
      = (some PersistPc.createLeaf).map (fun pc => (call, pc)) := rfl
  rw [hnew]
  refine ⟨h.sound, fun sink' call' pc' hc => ?_, fun sink' call' pc' hc => ?_,
    ne_of_ne (k := sink) (fun file hf _ => ?_),
    h.nodup, fun sink' target ht => ?_, ne_of_ne (k := sink) (fun target ht _ => ?_), ?_⟩
  · rcases calls_update hc with ⟨-, -, hpc⟩ | ⟨rfl, hc'⟩
    · cases hpc
      exact trivial
    · exact h.relies _ _ _ hc'
  · rcases calls_update hc with ⟨-, -, hpc⟩ | ⟨rfl, hc'⟩
    · cases hpc
      exact trivial
    · exact h.free _ _ _ hc'
  · cases (bind_update_self PersistPc.staged? s sink call _).symm.trans hf
  · by_cases heq : sink' = sink
    · subst heq
      cases (bind_update_self PersistPc.unlisted? s sink' call _).symm.trans ht
    · have hnot : sink' = !sink := Bool.eq_not_iff.mpr heq
      subst hnot
      exact h.unlisted _ target ((bind_update_not PersistPc.unlisted? s sink _).symm.trans ht)
  · cases (bind_update_self PersistPc.unlisted? s sink call _).symm.trans ht
  · rintro d (hd | ⟨sink', call', pc', hc, hd⟩)
    · exact h.owns d (Or.inl hd)
    · rcases calls_update hc with ⟨-, -, hpc⟩ | ⟨rfl, hc'⟩
      · cases hpc
        cases hd
      · exact h.owns d (Or.inr ⟨_, call', pc', hc', hd⟩)

theorem inv_step (s : SharedLeaf τ) (i : SharedInput τ) (h : s.Inv c sha) (hi : s.Apart i) :
    ((machine c sha path).step s i).1.Inv c sha
      ∧ ∀ e ∈ ((machine c sha path).step s i).2, False := by
  cases i with
  | call sink call =>
    refine ⟨?_, fun e he => absurd he List.not_mem_nil⟩
    show Inv c sha (if (s.calls sink).isSome then s else _)
    split
    · exact h
    · exact inv_call h sink call
  | tick sink =>
    cases hcall : s.calls sink with
    | none =>
      simp only [machine, hcall]
      exact ⟨h, fun e he => absurd he List.not_mem_nil⟩
    | some p =>
      obtain ⟨call, pc⟩ := p
      have hapart : ∀ q ∈ s.calls (!sink), pc.Apart q.2 := hi (call, pc) hcall
      have hat : Leaf.At sha call s.leaf pc :=
        ⟨h.relies sink call pc hcall, h.free sink call pc hcall⟩
      have hkeeps := h.sound.keeps_step path hat
      have hsweep := not_sweepsOther hapart
      simp only [machine, hcall]
      refine ⟨inv_tick h hcall hapart path, fun e he => ?_⟩
      rw [h.sound.overwritten_eq_nil hkeeps,
        List.filter_eq_nil_iff.mpr (fun name _ => by simpa using hsweep name)] at he
      exact absurd he List.not_mem_nil

/-- **Two sinks that are kept apart do not harm each other.** Over any leaf in
order and in every interleaving of the steps of any calls of the two sinks: if
no call sweeps while the other has a staged file, and no call takes a name the
other has found free and is about to take, then no step removes the other
sink's staged file or overwrites a file of the leaf, and every call that has
returned `Ok` has its own file in the leaf, complete, and listed exactly once,
with the hash of that file. -/
theorem unharmed_of_apart (c : EntryCodec) (sha : List UInt8 → String) (path : String)
    {leaf : Leaf τ} (hsound : leaf.Sound c sha)
    (hnodup : ((leaf.entries c).map IndexEntry.filename).Nodup) (is : List (SharedInput τ))
    (h : (machine c sha path).Meets Apart (start leaf) is) :
    ((machine c sha path).run (start leaf) is).2 = []
      ∧ ∀ d ∈ ((machine c sha path).run (start leaf) is).1.done,
          HasItsFile c sha ((machine c sha path).run (start leaf) is).1.leaf d := by
  obtain ⟨hinv, hout⟩ := (machine c sha path).forall_of_invariant (I := Inv c sha)
    (Q := fun _ => False) inv_step (inv_start hsound hnodup) h
  exact ⟨List.eq_nil_iff_forall_not_mem.mpr hout, fun d hd => hinv.hasItsFile hd⟩

/-! ## A sweep of the other's file, and a run without one -/

/-- The sinks of the sample runs. -/
abbrev sampleMachine : Machine (SharedLeaf Unit) (SharedInput Unit) Harm :=
  machine IndexEntry.json LeafWriter.sampleSha "out/trades"

/-- One sink has staged its file when the other sweeps. -/
def sweptRun : List (SharedInput Unit) :=
  .call false LeafWriter.sampleCall :: List.replicate 8 (.tick false)
    ++ .call true LeafWriter.sampleCall :: List.replicate 4 (.tick true)
    ++ [.tick false]

/-- **The sweep of one sink removes the staged file of the other**, whose
call then fails. -/
theorem swept_mem_sweptRun :
    Harm.swept LeafWriter.sampleCall.filename ∈ (sampleMachine.run (start .empty) sweptRun).2
      ∧ (sampleMachine.run (start .empty) sweptRun).1.calls false = none
      ∧ (sampleMachine.run (start .empty) sweptRun).1.done.length = 0 := by
  decide

/-- Both sinks have swept before either stages its file, the first finds its
name taken in the leaf, and the second finds the name of the first taken, in
staging and in the leaf. -/
def interleavedRun : List (SharedInput Unit) :=
  [.call false LeafWriter.sampleCall, .call true LeafWriter.sampleCall]
    ++ List.replicate 5 (.tick true) ++ List.replicate 8 (.tick false)
    ++ List.replicate 5 (.tick true) ++ List.replicate 10 (.tick false)
    ++ List.replicate 9 (.tick true)

/-- The leaf they find: one file of an earlier process. -/
abbrev foundLeaf : Leaf Unit :=
  .single IndexEntry.json LeafWriter.sampleSha LeafWriter.sampleCall

/-- Both calls return and have their files. -/
theorem hasItsFile_interleavedRun :
    (sampleMachine.run (start foundLeaf) interleavedRun).1.done.length = 2
      ∧ ∀ d ∈ (sampleMachine.run (start foundLeaf) interleavedRun).1.done,
          HasItsFile IndexEntry.json LeafWriter.sampleSha
            (sampleMachine.run (start foundLeaf) interleavedRun).1.leaf d :=
  ⟨by decide, (unharmed_of_apart IndexEntry.json LeafWriter.sampleSha "out/trades"
    (Leaf.sound_single _ _ _) (by rw [Leaf.entries_single]; exact List.nodup_singleton _)
    interleavedRun (by decide)).2⟩

end SharedLeaf
