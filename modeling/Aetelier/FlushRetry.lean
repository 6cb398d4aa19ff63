import Aetelier.ParquetFlusher
import Aetelier.LeafCrash
import Mathlib.Data.List.Nodup

/-!
# A flush that is tried again

A flush that fails leaves behind whatever it had written: the files of the data
types before the one that failed, listed; perhaps the file of that one, not
listed. The next flush writes all of them again, under other names. So no row
is lost, and a row is twice in the leaves only if a flush of it failed.

There is one exception. An append that fails in the middle of its line leaves a
part of it, and the line the retry appends is glued to that part: the retry
returns `Ok`, its file is there, and `read_index` does not list it. A part that
an earlier process left does the same, so the leaves a sink finds are to be in
order (`SinkRun.Found`).
-/

/-! ## What a flush is to come to -/

/-- The data types whose rows are in one snapshot each. The others are carried
forward from row to row, and a batch keeps one record of each. -/
def LeafDatatype.recorded : List LeafDatatype := [.orderbooks, .trades, .liquidations]

/-- The snapshot has rows of the data type. -/
def MarketSnapshot.Has (snapshot : MarketSnapshot) (datatype : LeafDatatype) : Prop :=
  0 < (decomposeSnapshots [snapshot]).rows datatype

instance (snapshot : MarketSnapshot) (datatype : LeafDatatype) :
    Decidable (snapshot.Has datatype) := inferInstanceAs (Decidable (_ < _))

/-- The rows of a batch include those of a snapshot. -/
def DecomposedSnapshots.Includes (d : DecomposedSnapshots) (snapshot : MarketSnapshot) :
    LeafDatatype → Prop
  | .orderbooks => ∀ ob ∈ snapshot.orderbook, ob ∈ d.orderbooks
  | .trades => ∀ t ∈ snapshot.trades, t ∈ d.trades
  | .liquidations => ∀ l ∈ snapshot.liquidations, l ∈ d.liquidations
  | _ => True

theorem includes_of_mem {snapshots : List MarketSnapshot} {snapshot : MarketSnapshot}
    (h : snapshot ∈ snapshots) (datatype : LeafDatatype) :
    (decomposeSnapshots snapshots).Includes snapshot datatype := by
  cases datatype with
  | orderbooks => exact fun ob hob => List.mem_filterMap.mpr ⟨snapshot, h, hob⟩
  | trades => exact fun t ht => List.mem_flatMap.mpr ⟨snapshot, h, ht⟩
  | liquidations => exact fun l hl => List.mem_flatMap.mpr ⟨snapshot, h, hl⟩
  | fundingRates => trivial
  | openInterests => trivial
  | fundingSettlements => trivial

theorem FlushTag.parts_nodup (tag : FlushTag) : tag.parts.Nodup :=
  List.Nodup.filter _ (by decide)

/-- A batch has rows of what its snapshots have. -/
theorem FlushTag.mem_parts {tag : FlushTag} {e : ℕ × MarketSnapshot} (he : e ∈ tag.batch)
    {datatype : LeafDatatype} (hd : datatype ∈ LeafDatatype.recorded) (hhas : e.2.Has datatype) :
    datatype ∈ tag.parts := by
  have hmem : e.2 ∈ tag.snapshots := List.mem_map_of_mem he
  refine List.mem_filter.mpr ⟨datatype.mem_all, decide_eq_true ?_⟩
  have hincl := includes_of_mem hmem datatype
  unfold MarketSnapshot.Has at hhas
  simp only [LeafDatatype.recorded, List.mem_cons, List.not_mem_nil, or_false] at hd
  rcases hd with rfl | rfl | rfl
  · obtain ⟨ob, hob⟩ := List.exists_mem_of_length_pos hhas
    exact List.length_pos_of_mem (hincl ob (by simpa [decomposeSnapshots] using hob))
  · obtain ⟨t, ht⟩ := List.exists_mem_of_length_pos hhas
    exact List.length_pos_of_mem (hincl t (by simpa [decomposeSnapshots] using ht))
  · obtain ⟨l, hl⟩ := List.exists_mem_of_length_pos hhas
    exact List.length_pos_of_mem (hincl l (by simpa [decomposeSnapshots] using hl))

theorem ParquetWriters.callOf_injective (w : ParquetWriters) {tag tag' : FlushTag}
    {datatype datatype' : LeafDatatype} (h : w.callOf tag datatype = w.callOf tag' datatype') :
    tag = tag' ∧ datatype = datatype' :=
  ⟨Option.some.inj (congrArg PersistCall.tag h),
    LeafDatatype.name_injective (congrArg PersistCall.datatype h)⟩

namespace SinkRun

variable (c : EntryCodec) (sha : List UInt8 → String) (w : ParquetWriters)

/-- The file a flush wrote of a data type, under a name in a leaf. -/
def FileOf (s : SinkRun) (path name : String) (tag : FlushTag) (datatype : LeafDatatype) : Prop :=
  ∃ file f, (s.leaves path).files.get? name = some file ∧ (s.leaves path).inodes[file]? = some f
    ∧ f.author = w.callOf tag datatype

/-- **The rows of an emission are in a file of their leaf**: one of a batch the
emission was in, complete, and listed in the index. -/
def Persisted (s : SinkRun) (e : ℕ × MarketSnapshot) (datatype : LeafDatatype) : Prop :=
  ∃ tag name file f, e ∈ tag.batch
    ∧ (decomposeSnapshots tag.snapshots).Includes e.2 datatype
    ∧ (s.leaves (w.leafOf s.sink.outputDir tag datatype)).files.get? name = some file
    ∧ (s.leaves (w.leafOf s.sink.outputDir tag datatype)).inodes[file]? = some f
    ∧ f.author = w.callOf tag datatype ∧ f.bytes = f.author.bytes ∧ f.synced = true
    ∧ Leaf.entryOf f.author name (sha f.bytes)
      ∈ (s.leaves (w.leafOf s.sink.outputDir tag datatype)).entries c

/-- **The leaves a sink finds are in order**: their files are complete, an
index ends with a line feed and lists files that are there; what a crash left
in staging does not matter. No file is one the sink wrote. -/
structure Found (leaves : String → Leaf (Option FlushTag)) : Prop where
  sound : ∀ path, (leaves path).Sound c sha
  earlier : ∀ path, ∀ f ∈ (leaves path).inodes, f.author.tag = none

/-- **The buffer is not full, and no line of an index is torn.** -/
def Spared (s : SinkRun) : SinkInput → Prop
  | .emit _ => s.sink.buffer.length < maxBufferedSnapshots
  | .fail written =>
    ∀ fl ∈ s.flush, Leaf.Whole c (w.callOf s.tag fl.part) written fl.pc
  | _ => True

/-! ## The invariant -/

/-- The flush has its file of the data type in its leaf, and listed. -/
def Owned (s : SinkRun) (datatype : LeafDatatype) : Prop :=
  ∃ name file, (s.leaves (w.leafOf s.sink.outputDir s.tag datatype)).Owns c sha
    ⟨w.callOf s.tag datatype, name, file⟩

/-- An emission has a file of the data type, if it has rows of it. -/
def Stored (s : SinkRun) (e : ℕ × MarketSnapshot) : Prop :=
  ∀ datatype ∈ LeafDatatype.recorded, e.2.Has datatype → ∃ tag name file, e ∈ tag.batch
    ∧ (s.leaves (w.leafOf s.sink.outputDir tag datatype)).Owns c sha
      ⟨w.callOf tag datatype, name, file⟩

/-- **What a sink keeps true of its leaves**, given which names the flush in
progress has written. -/
structure Kept (s : SinkRun) (mine : String → LeafDatatype → Prop) : Prop where
  /-- Every leaf is in order. -/
  sound : ∀ path, (s.leaves path).Sound c sha
  /-- Emissions are numbered. -/
  numbered : s.emitted.map Prod.fst = List.range s.sink.eventsEmitted
  /-- What has left the buffer is stored, with all an `Ok` was returned for. -/
  stored : ∃ done, s.emitted = done ++ s.sink.buffer ∧ s.acked ≤ done.length
    ∧ (∀ e ∈ done, s.Stored c sha w e) ∧ ∀ b, (b, true) ∈ s.attempts → b ⊆ done
  /-- What a flush wrote that returned `Ok` is in no later batch. -/
  settled : s.attempts.Pairwise (fun a a' => a.2 = true → ∀ e ∈ a.1, e ∉ a'.1)
  /-- A file is of a flush that was tried, or of the one in progress. -/
  written : ∀ path name tag datatype, s.FileOf w path name tag datatype →
    (∃ ok, s.attempts[tag.number]? = some (tag.batch, ok)) ∨ tag = s.tag ∧ mine name datatype
  /-- A flush writes one file of a data type. -/
  unique : ∀ path path' name name' tag datatype, s.FileOf w path name tag datatype →
    s.FileOf w path' name' tag datatype → path = path' ∧ name = name'

/-- What a flush in progress relies on. -/
structure Flushing (s : SinkRun) (fl : Flush) : Prop where
  parts : s.tag.parts = fl.written ++ fl.part :: fl.rest
  «at» : (s.leaves (s.path w fl)).At sha (w.callOf s.tag fl.part) fl.pc
  owned : ∀ datatype ∈ fl.written, s.Owned c sha w datatype
  appended : ∀ d ∈ fl.pc.finished (w.callOf s.tag fl.part), (s.leaves (s.path w fl)).Owns c sha d

/-- The names a flush has written. -/
def Mine : Option Flush → String → LeafDatatype → Prop
  | none, _, _ => False
  | some fl, name, datatype =>
    datatype ∈ fl.written ∨ datatype = fl.part ∧ fl.pc.target? = some name

/-- The invariant. -/
def Inv (s : SinkRun) : Prop :=
  s.Kept c sha w (Mine s.flush) ∧ ∀ fl, s.flush = some fl → s.Flushing c sha w fl

variable {c sha w}
variable {s s' : SinkRun} {mine : String → LeafDatatype → Prop}

/-- A leaf that does not exist yet is in order. -/
theorem sound_empty : (Leaf.empty : Leaf (Option FlushTag)).Sound c sha :=
  ⟨fun _ _ h => (by cases h), fun _ _ h => (by cases h), Leaf.indexes_nil c sha _,
    Leaf.indexes_nil c sha _, id⟩

/-- A file a sink finds is of no flush of it. -/
theorem Found.not_fileOf {leaves : String → Leaf (Option FlushTag)} (h : Found c sha leaves)
    (outputDir : String) (declared : List DeclaredDatatype) {path name : String} {tag : FlushTag}
    {datatype : LeafDatatype} :
    ¬ (start outputDir declared leaves).FileOf w path name tag datatype := by
  rintro ⟨file, f, -, hfile, hauthor⟩
  have hearlier := h.earlier path f (List.mem_of_getElem? hfile)
  rw [hauthor] at hearlier
  cases hearlier

theorem inv_start (outputDir : String) (declared : List DeclaredDatatype)
    {leaves : String → Leaf (Option FlushTag)} (h : Found c sha leaves) :
    (start outputDir declared leaves).Inv c sha w := by
  refine ⟨⟨h.sound, rfl, ⟨[], rfl, Nat.le_refl 0, fun _ h => (by cases h), fun _ h =>
    (by cases h)⟩, List.Pairwise.nil, ?_, ?_⟩, fun _ h => (by cases h)⟩
  · exact fun _ _ _ _ hfile => absurd hfile (h.not_fileOf outputDir declared)
  · exact fun _ _ _ _ _ _ hfile => absurd hfile (h.not_fileOf outputDir declared)

/-! ## A flush ends -/

/-- What is stored is not in the buffer. -/
theorem Kept.not_mem_buffer (h : s.Kept c sha w mine) {b : List (ℕ × MarketSnapshot)}
    (hb : (b, true) ∈ s.attempts) {e : ℕ × MarketSnapshot} (he : e ∈ b) : e ∉ s.sink.buffer := by
  obtain ⟨done, hemitted, -, -, hdone⟩ := h.stored
  have hnodup : s.emitted.Nodup := by
    refine List.Nodup.of_map Prod.fst ?_
    rw [h.numbered]
    exact List.nodup_range
  rw [hemitted] at hnodup
  exact fun hbuf => List.disjoint_of_nodup_append hnodup (hdone b hb he) hbuf

/-- What was tried, after a flush has ended. -/
theorem Kept.settled_append (h : s.Kept c sha w mine) (ok : Bool) :
    (s.attempts ++ [(s.sink.buffer, ok)]).Pairwise
      (fun a a' => a.2 = true → ∀ e ∈ a.1, e ∉ a'.1) := by
  refine List.pairwise_append.mpr ⟨h.settled, List.pairwise_singleton _ _, ?_⟩
  rintro ⟨b, _⟩ hb a' ha' rfl e he
  rw [List.mem_singleton.mp ha']
  exact h.not_mem_buffer hb he

/-- The files of a flush that has ended are of a flush that was tried. -/
theorem Kept.written_append (h : s.Kept c sha w mine) (ok : Bool) {path name : String}
    {tag : FlushTag} {datatype : LeafDatatype} (hfile : s.FileOf w path name tag datatype) :
    ∃ ok', (s.attempts ++ [(s.sink.buffer, ok)])[tag.number]? = some (tag.batch, ok') := by
  rcases h.written path name tag datatype hfile with ⟨ok', hok⟩ | ⟨rfl, -⟩
  · exact ⟨ok', by rw [List.getElem?_append_left (List.getElem?_eq_some_iff.mp hok).1, hok]⟩
  · exact ⟨ok, List.getElem?_concat_length⟩

theorem Kept.failed (h : s.Kept c sha w mine) : s.failed.Inv c sha w := by
  refine ⟨⟨h.sound, h.numbered, ?_, h.settled_append false, fun path name tag datatype hfile =>
    Or.inl (h.written_append false hfile), h.unique⟩, fun _ h => (by cases h)⟩
  obtain ⟨done, hemitted, hacked, hstored, hdone⟩ := h.stored
  refine ⟨done, hemitted, hacked, hstored, fun b hb => hdone b ?_⟩
  rcases List.mem_append.mp hb with hb | hb
  · exact hb
  · cases List.mem_singleton.mp hb

theorem Kept.succeed (h : s.Kept c sha w mine)
    (howned : ∀ datatype ∈ s.tag.parts, s.Owned c sha w datatype) (bytes files : ℕ) :
    (s.succeed bytes files).Inv c sha w := by
  refine ⟨⟨h.sound, h.numbered, ?_, h.settled_append true, fun path name tag datatype hfile =>
    Or.inl (h.written_append true hfile), h.unique⟩, fun _ h => (by cases h)⟩
  -- the whole batch is stored now, so all that was emitted is
  obtain ⟨done, hemitted, -, hstored, hdone⟩ := h.stored
  refine ⟨s.emitted, (List.append_nil _).symm, Nat.le_refl _, fun e he => ?_, fun b hb => ?_⟩
  · rw [hemitted] at he
    rcases List.mem_append.mp he with he | he
    · exact hstored e he
    · intro datatype hd hhas
      obtain ⟨name, file, howns⟩ := howned datatype (FlushTag.mem_parts he hd hhas)
      exact ⟨s.tag, name, file, he, howns⟩
  · rw [hemitted]
    rcases List.mem_append.mp hb with hb | hb
    · exact fun e he => List.mem_append_left _ (hdone b hb he)
    · cases List.mem_singleton.mp hb
      exact List.subset_append_right _ _

/-- **The flush goes on.** -/
theorem Kept.next {written todo : List LeafDatatype}
    (h : s.Kept c sha w (fun _ datatype => datatype ∈ written))
    (hparts : s.tag.parts = written ++ todo)
    (howned : ∀ datatype ∈ written, s.Owned c sha w datatype) (bytes : ℕ) :
    (s.next written bytes todo).Inv c sha w := by
  cases todo with
  | nil =>
    refine h.succeed (fun datatype hd => howned datatype ?_) bytes _
    rw [hparts, List.append_nil] at hd
    exact hd
  | cons part rest =>
    refine ⟨⟨h.sound, h.numbered, h.stored, h.settled, fun path name tag datatype hfile => ?_,
      h.unique⟩, fun fl hfl => ?_⟩
    · exact (h.written path name tag datatype hfile).imp id (fun hm => ⟨hm.1, Or.inl hm.2⟩)
    · cases hfl
      exact ⟨hparts, ⟨trivial, trivial⟩, howned, fun _ h => (by cases h)⟩

/-! ## A leaf changes -/

theorem Stored.grow {e : ℕ × MarketSnapshot} (h : s.Stored c sha w e)
    (hdir : s'.sink.outputDir = s.sink.outputDir)
    (hg : ∀ path, (s.leaves path).Grows c (s'.leaves path)) : s'.Stored c sha w e := by
  intro datatype hd hhas
  obtain ⟨tag, name, file, he, howns⟩ := h datatype hd hhas
  rw [← hdir] at howns
  exact ⟨tag, name, file, he, howns.grow (hg _)⟩

section setLeaf

variable {fl : Flush} {leaf : Leaf (Option FlushTag)}

theorem path_setLeaf (pc : PersistPc) :
    (s.setLeaf w fl leaf).path w { fl with pc := pc } = s.path w fl := rfl

theorem leaves_setLeaf_self : (s.setLeaf w fl leaf).leaves (s.path w fl) = leaf :=
  Function.update_self _ _ _

/-- A property of every leaf is one of the changed leaf and of the others. -/
theorem forall_setLeaf {P : String → Leaf (Option FlushTag) → Prop} (hself : P (s.path w fl) leaf)
    (hother : ∀ path, P path (s.leaves path)) (path : String) :
    P path ((s.setLeaf w fl leaf).leaves path) := by
  by_cases heq : path = s.path w fl
  · subst heq
    rw [leaves_setLeaf_self]
    exact hself
  · rw [show (s.setLeaf w fl leaf).leaves path = s.leaves path from
      Function.update_of_ne heq _ _]
    exact hother path

theorem grows_setLeaf (hg : (s.leaves (s.path w fl)).Grows c leaf) (path : String) :
    (s.leaves path).Grows c ((s.setLeaf w fl leaf).leaves path) :=
  forall_setLeaf (P := fun path leaf => (s.leaves path).Grows c leaf) hg
    (fun _ => Leaf.Grows.refl c _) path

theorem Owned.setLeaf {datatype : LeafDatatype} (h : s.Owned c sha w datatype)
    (hg : (s.leaves (s.path w fl)).Grows c leaf) :
    (s.setLeaf w fl leaf).Owned c sha w datatype := by
  obtain ⟨name, file, howns⟩ := h
  exact ⟨name, file, howns.grow (grows_setLeaf hg _)⟩

/-- A file is one that was there, or the new one of the flush. -/
theorem FileOf.of_setLeaf {New : String → Prop}
    (hnew : ∀ name file f, leaf.files.get? name = some file → leaf.inodes[file]? = some f →
      ((s.leaves (s.path w fl)).files.get? name = some file
          ∧ (s.leaves (s.path w fl)).inodes[file]? = some f)
        ∨ f.author = w.callOf s.tag fl.part ∧ New name)
    {path name : String} {tag : FlushTag} {datatype : LeafDatatype}
    (h : (s.setLeaf w fl leaf).FileOf w path name tag datatype) :
    s.FileOf w path name tag datatype
      ∨ path = s.path w fl ∧ tag = s.tag ∧ datatype = fl.part ∧ New name := by
  revert h
  refine forall_setLeaf (P := fun path leaf => (∃ file f, leaf.files.get? name = some file
    ∧ leaf.inodes[file]? = some f ∧ f.author = w.callOf tag datatype) →
      s.FileOf w path name tag datatype
        ∨ path = s.path w fl ∧ tag = s.tag ∧ datatype = fl.part ∧ New name)
    ?_ (fun _ => Or.inl) path
  rintro ⟨file, f, hname, hfile, hauthor⟩
  rcases hnew name file f hname hfile with ⟨hname', hfile'⟩ | ⟨hmine, hn⟩
  · exact Or.inl ⟨file, f, hname', hfile', hauthor⟩
  · obtain ⟨htag, hdatatype⟩ := w.callOf_injective (hauthor.symm.trans hmine)
    exact Or.inr ⟨rfl, htag, hdatatype, hn⟩

/-- **The change keeps what the sink keeps**, if it takes nothing away, and
the one name it may add is of the first file the flush has of the data type. -/
theorem Kept.setLeaf (h : s.Kept c sha w mine) (mine' : String → LeafDatatype → Prop)
    (New : String → Prop) (hsound : leaf.Sound c sha)
    (hg : (s.leaves (s.path w fl)).Grows c leaf)
    (hnew : ∀ name file f, leaf.files.get? name = some file → leaf.inodes[file]? = some f →
      ((s.leaves (s.path w fl)).files.get? name = some file
          ∧ (s.leaves (s.path w fl)).inodes[file]? = some f)
        ∨ f.author = w.callOf s.tag fl.part ∧ New name)
    (hmine : ∀ name datatype, mine name datatype → mine' name datatype)
    (hfirst : ∀ name, New name → mine' name fl.part ∧ ∀ name', ¬ mine name' fl.part)
    (hone : ∀ name name', New name → New name' → name = name') :
    (s.setLeaf w fl leaf).Kept c sha w mine' := by
  -- a file of the flush in progress is not of the data type the new one is of
  have hnone : ∀ path name name', New name → ¬ s.FileOf w path name' s.tag fl.part := by
    intro path name name' hn hfile
    rcases h.written path name' s.tag fl.part hfile with ⟨ok, hok⟩ | ⟨-, hm⟩
    · rw [show s.attempts[s.tag.number]? = none from List.getElem?_eq_none (Nat.le_refl _)] at hok
      cases hok
    · exact (hfirst name hn).2 name' hm
  refine ⟨forall_setLeaf hsound h.sound, h.numbered, ?_, h.settled,
    fun path name tag datatype hfile => ?_, fun path path' name name' tag datatype hf hf' => ?_⟩
  · obtain ⟨done, hemitted, hacked, hstored, hdone⟩ := h.stored
    exact ⟨done, hemitted, hacked, fun e he => (hstored e he).grow rfl (grows_setLeaf hg), hdone⟩
  · rcases hfile.of_setLeaf hnew with hold | ⟨-, htag, rfl, hn⟩
    · exact (h.written path name tag datatype hold).imp id
        (fun hm => ⟨hm.1, hmine name datatype hm.2⟩)
    · exact Or.inr ⟨htag, (hfirst name hn).1⟩
  · rcases hf.of_setLeaf hnew with hold | ⟨rfl, rfl, rfl, hn⟩
    · rcases hf'.of_setLeaf hnew with hold' | ⟨rfl, rfl, rfl, hn'⟩
      · exact h.unique path path' name name' tag datatype hold hold'
      · exact absurd hold (hnone path name' name hn')
    · rcases hf'.of_setLeaf hnew with hold' | ⟨rfl, -, -, hn'⟩
      · exact absurd hold' (hnone path' name name' hn)
      · exact ⟨rfl, hone name name' hn hn'⟩

end setLeaf

/-! ## The steps -/

theorem Kept.withFlush (h : s.Kept c sha w mine) (flush : Option Flush) :
    ({ s with flush := flush } : SinkRun).Kept c sha w mine :=
  ⟨h.sound, h.numbered, h.stored, h.settled, h.written, h.unique⟩

theorem Flushing.part_not_mem_written {fl : Flush} (h : s.Flushing c sha w fl) :
    fl.part ∉ fl.written := by
  have hnodup := s.tag.parts_nodup
  rw [h.parts] at hnodup
  exact fun hmem => List.disjoint_of_nodup_append hnodup hmem List.mem_cons_self

theorem Flushing.withFlush {fl : Flush} (h : s.Flushing c sha w fl) (flush : Option Flush) :
    ({ s with flush := flush } : SinkRun).Flushing c sha w fl :=
  ⟨h.parts, h.at, h.owned, h.appended⟩

/-- The call of a flush makes a step and goes on. -/
theorem inv_tick_at {fl : Flush} {pc : PersistPc} (hkept : s.Kept c sha w (Mine (some fl)))
    (hf : s.Flushing c sha w fl) (hstep : (s.stepOf c sha w fl).2 = .at pc) :
    Inv c sha w
      { s.setLeaf w fl (s.stepOf c sha w fl).1 with flush := some { fl with pc := pc } } := by
  have hsound := hkept.sound (s.path w fl)
  have hafter := hsound.step (s.path w fl) hf.at
  have hgrows := hsound.grows_step (s.path w fl) hf.at
  refine ⟨(hkept.setLeaf (Mine (some { fl with pc := pc }))
    (fun name => fl.pc.target? = none ∧ pc.target? = some name)
    hafter.1 hgrows ?_ ?_ ?_ ?_).withFlush _, fun fl' hfl' => ?_⟩
  · intro name file f hname hfile
    refine (hsound.fileAt_step (s.path w fl) hf.at hname hfile).imp id ?_
    rintro ⟨hnone, hauthor, pc', hpc', htarget⟩
    cases hstep.symm.trans hpc'
    exact ⟨hauthor, hnone, htarget⟩
  · intro name datatype hm
    exact hm.imp id (fun hpart => ⟨hpart.1, Leaf.target_step (s.path w fl) hstep hpart.2⟩)
  · intro name hn
    refine ⟨Or.inr ⟨rfl, hn.2⟩, fun name' hm => ?_⟩
    rcases hm with hm | ⟨-, hm⟩
    · exact hf.part_not_mem_written hm
    · cases hn.1.symm.trans hm
  · intro name name' hn hn'
    exact Option.some.inj (hn.2.symm.trans hn'.2)
  · cases hfl'
    have hleaf : (s.setLeaf w fl (s.stepOf c sha w fl).1).leaves
        ((s.setLeaf w fl (s.stepOf c sha w fl).1).path w { fl with pc := pc })
          = (s.stepOf c sha w fl).1 := by
      rw [path_setLeaf]
      exact leaves_setLeaf_self
    suffices hnext : (s.setLeaf w fl (s.stepOf c sha w fl).1).Flushing c sha w
        { fl with pc := pc } from hnext.withFlush _
    refine ⟨hf.parts, ?_, fun datatype hd => (hf.owned datatype hd).setLeaf hgrows, fun d hd => ?_⟩
    · rw [hleaf]
      exact hafter.2 pc hstep
    · rw [hleaf]
      -- the call is about to return, so the step was its append
      obtain ⟨sha256, size, hpc, hcall⟩ := (Leaf.progress_step (s.path w fl) hf.at hstep).2.2 d hd
      have hat := hf.at
      unfold stepOf
      rw [hpc] at hat ⊢
      have howns := hsound.owns_of_append (s.path w fl) hat
      rw [← hcall] at howns ⊢
      exact howns

/-- The call of a flush returns `Ok`. -/
theorem inv_tick_ok {fl : Flush} {bytes : ℕ} (hkept : s.Kept c sha w (Mine (some fl)))
    (hf : s.Flushing c sha w fl) (hstep : (s.stepOf c sha w fl).2 = .returned (.ok bytes)) :
    Inv c sha w ((s.setLeaf w fl (s.stepOf c sha w fl).1).next (fl.written ++ [fl.part])
      (fl.bytes + bytes) fl.rest) := by
  have hsound := hkept.sound (s.path w fl)
  have hgrows := hsound.grows_step (s.path w fl) hf.at
  obtain ⟨target, file, hpc⟩ := Leaf.syncIndex_of_returned_ok (s.path w fl) hstep
  refine Kept.next (hkept.setLeaf _ (fun _ => False)
    (hsound.step (s.path w fl) hf.at).1 hgrows ?_ ?_ ?_ ?_) ?_ ?_ _
  · intro name file' f hname hfile
    refine (hsound.fileAt_step (s.path w fl) hf.at hname hfile).imp id ?_
    rintro ⟨-, -, pc', hpc', -⟩
    cases hstep.symm.trans hpc'
  · rintro name datatype (hm | ⟨rfl, -⟩)
    · exact List.mem_append_left _ hm
    · exact List.mem_append_right _ (List.mem_singleton_self _)
  · exact fun _ hn => hn.elim
  · exact fun _ _ hn => hn.elim
  · show s.tag.parts = _
    rw [hf.parts, List.append_assoc]
    rfl
  · intro datatype hd
    rcases List.mem_append.mp hd with hd | hd
    · exact (hf.owned datatype hd).setLeaf hgrows
    · rw [List.mem_singleton.mp hd]
      refine Owned.setLeaf ⟨target, file, hf.appended _ ?_⟩ hgrows
      rw [hpc]
      exact List.mem_singleton_self _

/-- The leaf after a step that failed, or returned an error. -/
theorem Kept.setLeaf_files {fl : Flush} {leaf : Leaf (Option FlushTag)}
    (hkept : s.Kept c sha w (Mine (some fl))) (hsound : leaf.Sound c sha)
    (hg : (s.leaves (s.path w fl)).Grows c leaf)
    (hfiles : ∀ name file, leaf.files.get? name = some file →
      (s.leaves (s.path w fl)).files.get? name = some file) :
    (s.setLeaf w fl leaf).Kept c sha w (Mine (some fl)) := by
  refine hkept.setLeaf _ (fun _ => False) hsound hg (fun name file f hname hfile => Or.inl ?_)
    (fun _ _ hm => hm) (fun _ hn => hn.elim) (fun _ _ hn => hn.elim)
  have hname' := hfiles name file hname
  obtain ⟨-, f', hfile', -⟩ := (hkept.sound (s.path w fl)).complete name file hname'
  cases hfile.symm.trans (hg.keeps name file f' hname' hfile').2
  exact ⟨hname', hfile'⟩

/-- **A step of the flush.** -/
theorem inv_tick {fl : Flush} (h : s.Inv c sha w) (hfl : s.flush = some fl) :
    (s.tick c sha w fl).Inv c sha w := by
  obtain ⟨hkept, hflushing⟩ := h
  have hf := hflushing fl hfl
  rw [hfl] at hkept
  have hsound := hkept.sound (s.path w fl)
  unfold tick
  cases hstep : (s.stepOf c sha w fl).2 with
  | «at» pc => exact inv_tick_at hkept hf hstep
  | returned r =>
    cases r with
    | ok bytes => exact inv_tick_ok hkept hf hstep
    | error e =>
      refine Kept.failed (hkept.setLeaf_files (hsound.step (s.path w fl) hf.at).1
        (hsound.grows_step (s.path w fl) hf.at) (fun name file hname => ?_))
      rcases Leaf.files_step c sha (w.callOf s.tag fl.part) (s.leaves (s.path w fl)) (s.path w fl)
        fl.pc with hfiles | ⟨_, _, _, _, -, hrename⟩
      · rw [← hfiles]
        exact hname
      · cases hstep.symm.trans (congrArg Prod.snd hrename)

/-- **A step of the flush that fails.** -/
theorem inv_fault {fl : Flush} {written : ℕ} (h : s.Inv c sha w) (hfl : s.flush = some fl)
    (hwhole : Leaf.Whole c (w.callOf s.tag fl.part) written fl.pc) :
    (s.fault c w fl written).Inv c sha w := by
  obtain ⟨hkept, hflushing⟩ := h
  rw [hfl] at hkept
  obtain ⟨hsound, hgrows⟩ := (hkept.sound (s.path w fl)).fault (hflushing fl hfl).at hwhole
  refine Kept.failed (hkept.setLeaf_files hsound hgrows (fun name file hname => ?_))
  rw [Leaf.files_fault] at hname
  exact hname

/-- **An emission.** -/
theorem inv_emit (h : s.Inv c sha w) (hfl : s.flush = none) (snapshot : MarketSnapshot)
    (hroom : s.sink.buffer.length < maxBufferedSnapshots) : (s.emit snapshot).Inv c sha w := by
  obtain ⟨hkept, -⟩ := h
  rw [hfl] at hkept
  have hbuffer : (s.emit snapshot).sink.buffer
      = s.sink.buffer ++ [(s.sink.eventsEmitted, snapshot.strip s.sink.declared)] := by
    show s.sink.buffer.drop (if maxBufferedSnapshots ≤ _ then _ else 0) ++ _ = _
    rw [if_neg (Nat.not_le.mpr hroom)]
    rfl
  refine ⟨⟨hkept.sound, ?_, ?_, hkept.settled, fun path name tag datatype hfile => ?_,
    hkept.unique⟩, fun fl' hfl' => ?_⟩
  · show (s.emitted ++ [_]).map Prod.fst = List.range (s.sink.eventsEmitted + 1)
    rw [List.map_append, hkept.numbered, List.range_succ]
    rfl
  · obtain ⟨done, hemitted, hacked, hstored, hdone⟩ := hkept.stored
    refine ⟨done, ?_, hacked, hstored, hdone⟩
    rw [hbuffer, ← List.append_assoc, ← hemitted]
    rfl
  · exact (hkept.written path name tag datatype hfile).imp id (fun hm => hm.2.elim)
  · cases hfl.symm.trans hfl'

/-- **A flush begins**, and ends at once if there is nothing to write. -/
theorem inv_beginFlush (h : s.Inv c sha w) (hfl : s.flush = none) : s.beginFlush.Inv c sha w := by
  obtain ⟨hkept, -⟩ := h
  rw [hfl] at hkept
  unfold beginFlush
  split
  · next hempty =>
    refine ⟨⟨hkept.sound, hkept.numbered, ?_, hkept.settled, fun path name tag datatype hfile =>
      (hkept.written path name tag datatype hfile).imp id (fun hm => hm.2.elim), hkept.unique⟩,
      fun fl' hfl' => by cases hfl.symm.trans hfl'⟩
    obtain ⟨done, hemitted, -, hstored, hdone⟩ := hkept.stored
    refine ⟨done, hemitted, ?_, hstored, hdone⟩
    show s.emitted.length ≤ _
    rw [hemitted, List.isEmpty_iff.mp hempty, List.append_nil]
  · refine Kept.next ⟨hkept.sound, hkept.numbered, hkept.stored, hkept.settled,
      fun path name tag datatype hfile =>
        (hkept.written path name tag datatype hfile).imp id (fun hm => hm.2.elim),
      hkept.unique⟩ rfl (fun _ h => (by cases h)) 0

theorem inv_step (s : SinkRun) (i : SinkInput) (h : s.Inv c sha w) (hi : s.Spared c w i) :
    ((machine c sha w).step s i).1.Inv c sha w
      ∧ ∀ name ∈ ((machine c sha w).step s i).2, False := by
  cases hfl : s.flush with
  | none =>
    simp only [machine, hfl]
    cases i with
    | emit snapshot => exact ⟨inv_emit h hfl snapshot hi, fun _ h => (by cases h)⟩
    | flush => exact ⟨inv_beginFlush h hfl, fun _ h => (by cases h)⟩
    | tick => exact ⟨h, fun _ h => (by cases h)⟩
    | fail written => exact ⟨h, fun _ h => (by cases h)⟩
  | some fl =>
    simp only [machine, hfl]
    cases i with
    | emit snapshot => exact ⟨h, fun _ h => (by cases h)⟩
    | flush => exact ⟨h, fun _ h => (by cases h)⟩
    | tick =>
      refine ⟨inv_tick h hfl, fun name hname => ?_⟩
      have hsound := h.1.sound (s.path w fl)
      have hname : name ∈ (s.leaves (s.path w fl)).overwritten (s.stepOf c sha w fl).1 := hname
      rw [show (s.leaves (s.path w fl)).overwritten (s.stepOf c sha w fl).1 = [] from
        hsound.overwritten_eq_nil (hsound.keeps_step _ (h.2 fl hfl).at)] at hname
      cases hname
    | fail written => exact ⟨inv_fault h hfl (hi fl hfl), fun _ h => (by cases h)⟩

/-- **Of two files with rows of one emission, the earlier is of a flush that
returned `Err`.** -/
theorem Kept.failed_of_copies (h : s.Kept c sha w mine) {e : ℕ × MarketSnapshot}
    {path name path' name' : String} {tag tag' : FlushTag} {datatype : LeafDatatype}
    (he : e ∈ tag.batch) (he' : e ∈ tag'.batch) (hfile : s.FileOf w path name tag datatype)
    (hfile' : s.FileOf w path' name' tag' datatype) (hle : tag.number ≤ tag'.number)
    (hne : (path, name) ≠ (path', name')) :
    s.attempts[tag.number]? = some (tag.batch, false) := by
  have hsame : tag ≠ tag' := by
    rintro rfl
    obtain ⟨rfl, rfl⟩ := h.unique path path' name name' tag datatype hfile hfile'
    exact hne rfl
  rcases h.written path name tag datatype hfile with ⟨ok, hok⟩ | ⟨rfl, -⟩
  · cases ok with
    | false => exact hok
    | true =>
      -- what an `Ok` was returned for is in no later batch
      exfalso
      rcases h.written path' name' tag' datatype hfile' with ⟨ok', hok'⟩ | ⟨rfl, -⟩
      · rcases Nat.eq_or_lt_of_le hle with heq | hlt
        · rw [← heq, hok] at hok'
          exact hsame (FlushTag.ext heq (congrArg Prod.fst (Option.some.inj hok')))
        · obtain ⟨hi, hget⟩ := List.getElem?_eq_some_iff.mp hok
          obtain ⟨hj, hget'⟩ := List.getElem?_eq_some_iff.mp hok'
          have hlater := List.pairwise_iff_getElem.mp h.settled _ _ hi hj hlt
          rw [hget, hget'] at hlater
          exact hlater rfl e he he'
      · exact h.not_mem_buffer (List.mem_of_getElem? hok) he he'
  · rcases h.written path' name' tag' datatype hfile' with ⟨ok', hok'⟩ | ⟨rfl, -⟩
    · rw [List.getElem?_eq_none hle] at hok'
      cases hok'
    · exact absurd rfl hsame

theorem Stored.persisted {e : ℕ × MarketSnapshot} (h : s.Stored c sha w e)
    (hkept : s.Kept c sha w mine) {datatype : LeafDatatype}
    (hd : datatype ∈ LeafDatatype.recorded) (hhas : e.2.Has datatype) :
    s.Persisted c sha w e datatype := by
  obtain ⟨tag, name, file, he, ⟨f, hname, hfile, hauthor⟩, hentry⟩ := h datatype hd hhas
  obtain ⟨-, f', hfile', hsynced, hbytes⟩ := (hkept.sound _).complete name file hname
  cases hfile.symm.trans hfile'
  have hauthor : f.author = w.callOf tag datatype := hauthor
  refine ⟨tag, name, file, f, he, includes_of_mem (List.mem_map_of_mem he) datatype, hname, hfile,
    hauthor, hbytes, hsynced, ?_⟩
  rw [hbytes, hauthor]
  exact hentry

/-- **Trying a flush again loses nothing.** Over any leaves in order, however
calls of `emit_snapshot` and `flush` follow each other and whichever steps of
the flushes fail, as long as the buffer is not full and no append tears its
line: the order book, trades
and liquidations of every snapshot emitted before a flush returned `Ok` are in
a complete and listed file of their leaf; of two files with rows of one
emission, the earlier is of a flush that returned `Err`; and no step overwrites
a file. -/
theorem persisted_of_spared (c : EntryCodec) (sha : List UInt8 → String) (w : ParquetWriters)
    (outputDir : String) (declared : List DeclaredDatatype)
    {leaves : String → Leaf (Option FlushTag)} (hleaves : Found c sha leaves)
    (is : List SinkInput)
    (h : (machine c sha w).Meets (Spared c w) (start outputDir declared leaves) is) :
    (∀ e ∈ ((machine c sha w).run (start outputDir declared leaves) is).1.emitted.take
          ((machine c sha w).run (start outputDir declared leaves) is).1.acked,
        ∀ datatype ∈ LeafDatatype.recorded, e.2.Has datatype →
          ((machine c sha w).run (start outputDir declared leaves) is).1.Persisted c sha w e
            datatype)
      ∧ (∀ e path name tag path' name' tag' datatype, e ∈ tag.batch → e ∈ tag'.batch →
          ((machine c sha w).run (start outputDir declared leaves) is).1.FileOf w path name tag
            datatype →
          ((machine c sha w).run (start outputDir declared leaves) is).1.FileOf w path' name' tag'
            datatype →
          tag.number ≤ tag'.number → (path, name) ≠ (path', name') →
          ((machine c sha w).run (start outputDir declared leaves) is).1.attempts[tag.number]?
            = some (tag.batch, false))
      ∧ ((machine c sha w).run (start outputDir declared leaves) is).2 = [] := by
  obtain ⟨⟨hkept, -⟩, hout⟩ := (machine c sha w).forall_of_invariant (I := Inv c sha w)
    (Q := fun _ => False) inv_step (inv_start outputDir declared hleaves) h
  refine ⟨fun e he datatype hd hhas => ?_, ?_, List.eq_nil_iff_forall_not_mem.mpr hout⟩
  · obtain ⟨done, hemitted, hacked, hstored, -⟩ := hkept.stored
    refine (hstored e ?_).persisted hkept hd hhas
    rw [hemitted, List.take_append_of_le_length hacked] at he
    exact List.mem_of_mem_take he
  · intro e path name tag path' name' tag' datatype he he' hfile hfile' hle hne
    exact hkept.failed_of_copies he he' hfile hfile' hle hne

end SinkRun

/-! ## A torn line, and the flush tried again -/

/-- The leaf and the call after some steps, if the call has not returned. -/
def Leaf.steps {τ : Type} (c : EntryCodec) (sha : List UInt8 → String) (path : String)
    (call : PersistCall τ) : ℕ → Leaf τ → PersistPc → Option (Leaf τ × PersistPc)
  | 0, leaf, pc => some (leaf, pc)
  | n + 1, leaf, pc =>
    match leaf.step c sha path call pc with
    | (leaf', .at pc') => Leaf.steps c sha path call n leaf' pc'
    | _ => none

namespace SinkRun

variable {c : EntryCodec} {sha : List UInt8 → String} {w : ParquetWriters}

/-- The flush has come to a step, with its leaf as it is then. -/
def reach (w : ParquetWriters) (s : SinkRun) (fl : Flush) (leaf : Leaf (Option FlushTag))
    (pc : PersistPc) : SinkRun :=
  { s with
    leaves := Function.update s.leaves (s.path w fl) leaf
    flush := some { fl with pc := pc } }

theorem reach_reach (s : SinkRun) (fl : Flush) (leaf leaf' : Leaf (Option FlushTag))
    (pc pc' : PersistPc) :
    (s.reach w fl leaf pc).reach w { fl with pc := pc } leaf' pc' = s.reach w fl leaf' pc' := by
  show ({ s with
    leaves := Function.update (Function.update s.leaves (s.path w fl) leaf) (s.path w fl) leaf'
    flush := some { fl with pc := pc' } } : SinkRun) = _
  rw [Function.update_idem]
  rfl

theorem run_ticks {n : ℕ} {s : SinkRun} {fl : Flush} (hfl : s.flush = some fl)
    {leaf : Leaf (Option FlushTag)} {pc : PersistPc}
    (h : Leaf.steps c sha (s.path w fl) (w.callOf s.tag fl.part) n (s.leaves (s.path w fl)) fl.pc
      = some (leaf, pc)) :
    ((machine c sha w).run s (List.replicate n .tick)).1 = s.reach w fl leaf pc := by
  induction n generalizing s fl with
  | zero =>
    cases h
    show s = { s with leaves := Function.update _ _ _, flush := _ }
    rw [Function.update_eq_self, ← hfl]
  | succ n ih =>
    rw [List.replicate_succ]
    show ((machine c sha w).run ((machine c sha w).step s .tick).1 (List.replicate n .tick)).1 = _
    simp only [Leaf.steps] at h
    split at h
    · next leaf' pc' hstep =>
      have htick : ((machine c sha w).step s .tick).1 = s.reach w fl leaf' pc' := by
        simp only [machine, hfl, tick, stepOf, hstep]
        rfl
      have hpath : (s.reach w fl leaf' pc').path w { fl with pc := pc' } = s.path w fl := rfl
      have hleaf : (s.reach w fl leaf' pc').leaves (s.path w fl) = leaf' := leaves_setLeaf_self
      rw [htick, ih (s := s.reach w fl leaf' pc') rfl]
      · exact reach_reach s fl leaf' leaf pc' pc
      · rw [hpath, hleaf]
        exact h
    · cases h

/-- A snapshot with one trade. -/
def sampleSnapshot : MarketSnapshot where
  tsUs := 1700000000000000
  orderbook := none
  trades :=
    [⟨1700000000000000, 0, 0, ⟨"BTC", "USDT"⟩, .buy, ⟨1, 0⟩, ⟨36000, 0⟩, "kraken", "1", .ws⟩]
  liquidations := []
  fundingRate := []
  openInterest := []
  fundingSettlements := []

/-- Writers of one name and one file. -/
def sampleWriters : ParquetWriters where
  orderbooks _ _ := ("", [])
  trades _ _ := ("kraken_BTC-USDT_trades_sync_20231114_221320.000", [80, 65, 82, 49])
  liquidations _ _ := ("", [])
  fundingRates _ _ := ("", [])
  openInterests _ _ := ("", [])
  fundingSettlements _ _ := ("", [])
  day _ := "2023-11-14"

/-- The machine of the sample runs. -/
abbrev sampleMachine (c : EntryCodec) : Machine SinkRun SinkInput String :=
  machine c LeafWriter.sampleSha sampleWriters

/-- The flush of the one emission, after some that failed. -/
def sampleTag (n : ℕ) : FlushTag := ⟨n, [(0, sampleSnapshot)]⟩

/-- The call it makes. -/
abbrev sampleCall (n : ℕ) : PersistCall (Option FlushTag) :=
  sampleWriters.callOf (sampleTag n) .trades

/-- The flush at a step of that call. -/
def sampleFlush (pc : PersistPc) : Flush := ⟨[], .trades, pc, [], 0⟩

/-- The leaves of which one is not empty. -/
def sampleLeaves (leaf : Leaf (Option FlushTag)) : String → Leaf (Option FlushTag) :=
  Function.update (fun _ => .empty) "out/trades" leaf

/-- The sink after the emission and some flushes that failed. -/
def sampleState (n : ℕ) (leaf : Leaf (Option FlushTag)) (flush : Option Flush) : SinkRun where
  sink := { (BufferedSink.new "out" [.trades]).emitSnapshot sampleSnapshot with flushFailures := n }
  leaves := sampleLeaves leaf
  flush := flush
  emitted := [(0, sampleSnapshot)]
  attempts := List.replicate n ([(0, sampleSnapshot)], false)
  acked := 0

theorem tag_sampleState (n : ℕ) (leaf : Leaf (Option FlushTag)) (flush : Option Flush) :
    (sampleState n leaf flush).tag = sampleTag n := by
  show FlushTag.mk (List.replicate n _).length _ = _
  rw [List.length_replicate]
  rfl

theorem path_sampleState (n : ℕ) (leaf : Leaf (Option FlushTag)) (flush : Option Flush)
    (pc : PersistPc) :
    (sampleState n leaf flush).path sampleWriters (sampleFlush pc) = "out/trades" := by
  unfold path
  rw [tag_sampleState]
  show sampleWriters.leafDirFor "out" "trades" _ = _
  rfl

theorem leaves_sampleState (n : ℕ) (leaf : Leaf (Option FlushTag)) (flush : Option Flush) :
    (sampleState n leaf flush).leaves "out/trades" = leaf := by
  unfold sampleState sampleLeaves
  simp only [Function.update_self]

theorem run_start_sample (c : EntryCodec) (leaf : Leaf (Option FlushTag)) :
    ((sampleMachine c).run (start "out" [.trades] (sampleLeaves leaf))
        [.emit sampleSnapshot, .flush]).1
      = sampleState 0 leaf (some (sampleFlush .createLeaf)) := rfl

theorem run_ticks_sample (c : EntryCodec) {n k : ℕ} {leaf leaf' : Leaf (Option FlushTag)}
    {pc pc' : PersistPc}
    (h : Leaf.steps c LeafWriter.sampleSha "out/trades" (sampleCall n) k leaf pc
      = some (leaf', pc')) :
    ((sampleMachine c).run (sampleState n leaf (some (sampleFlush pc))) (List.replicate k .tick)).1
      = sampleState n leaf' (some (sampleFlush pc')) := by
  have hpath := path_sampleState n leaf (some (sampleFlush pc)) pc
  have hsteps : Leaf.steps c LeafWriter.sampleSha
      ((sampleState n leaf (some (sampleFlush pc))).path sampleWriters (sampleFlush pc))
      (sampleWriters.callOf (sampleState n leaf (some (sampleFlush pc))).tag .trades) k
      ((sampleState n leaf (some (sampleFlush pc))).leaves
        ((sampleState n leaf (some (sampleFlush pc))).path sampleWriters (sampleFlush pc))) pc
        = some (leaf', pc') := by
    rw [hpath, tag_sampleState, leaves_sampleState]
    exact h
  refine (run_ticks rfl hsteps).trans ?_
  unfold reach
  rw [hpath]
  unfold sampleState sampleLeaves
  rw [Function.update_idem]
  rfl

theorem step_flush_sample (c : EntryCodec) (n : ℕ) (leaf : Leaf (Option FlushTag)) :
    ((sampleMachine c).step (sampleState n leaf none) .flush).1
      = sampleState n leaf (some (sampleFlush .createLeaf)) := by
  show (sampleState n leaf none).next [] 0 (sampleState n leaf none).tag.parts = _
  rw [tag_sampleState]
  rfl

theorem step_fail_sample (c : EntryCodec) (n k : ℕ) (leaf : Leaf (Option FlushTag))
    (pc : PersistPc) :
    ((sampleMachine c).step (sampleState n leaf (some (sampleFlush pc))) (.fail k)).1
      = sampleState (n + 1) (leaf.fault c (sampleCall n) k pc) none := by
  show (setLeaf _ _ _ _).failed = _
  unfold setLeaf
  rw [path_sampleState, tag_sampleState, leaves_sampleState]
  unfold sampleState sampleLeaves
  rw [Function.update_idem, List.replicate_succ']
  rfl

/-- An emission, a flush that fails at its append after some bytes, and a flush
that goes through. The second has two more names to probe. -/
def retryRun (ticks written : ℕ) : List SinkInput :=
  [.emit sampleSnapshot, .flush] ++ List.replicate ticks .tick ++ [.fail written]
    ++ [.flush] ++ List.replicate (ticks + 2) .tick ++ [.tick]

/-- A leaf without an index, after the rename of the first flush. -/
def sampleLeaf (index : List UInt8) : Leaf (Option FlushTag) where
  inodes := [⟨(sampleCall 0).bytes, true, sampleCall 0⟩]
  staging := .empty
  files := OrdMap.empty.insert (sampleCall 0).filename 0
  durable := OrdMap.empty.insert (sampleCall 0).filename 0
  index := some index
  indexSynced := none
  lock := .here

/-- The entry of a flush. -/
def sampleEntryOf (n : ℕ) (target : String) : IndexEntry :=
  Leaf.entryOf (sampleCall n) target (LeafWriter.sampleSha (sampleCall n).bytes)

theorem steps_sample (c : EntryCodec) :
    Leaf.steps c LeafWriter.sampleSha "out/trades" (sampleCall 0) 15 .empty .createLeaf
      = some (sampleLeaf [], .append (sampleCall 0).filename 0
          (LeafWriter.sampleSha (sampleCall 0).bytes) 4) := rfl

/-- The second flush finds its name taken, and appends behind what is in the
index. -/
theorem steps_sampleLeaf (c : EntryCodec) (index : List UInt8) :
    ∃ leaf target,
      Leaf.steps c LeafWriter.sampleSha "out/trades" (sampleCall 1) 17 (sampleLeaf index)
          .createLeaf = some (leaf, .syncIndex target 1 4)
        ∧ leaf.index = some (index ++ LeafIndex.entryLine c (sampleEntryOf 1 target)) :=
  ⟨_, _, rfl, rfl⟩

theorem step_return_sample (c : EntryCodec) (n : ℕ) (leaf : Leaf (Option FlushTag))
    (target : String) (file size : ℕ) :
    ((sampleMachine c).step (sampleState n leaf (some (sampleFlush (.syncIndex target file size))))
        .tick).1
      = (sampleState n { leaf with indexSynced := leaf.index } none).succeed (0 + size) 1 := by
  have hstep : stepOf c LeafWriter.sampleSha sampleWriters
      (sampleState n leaf (some (sampleFlush (.syncIndex target file size))))
      (sampleFlush (.syncIndex target file size))
        = ({ leaf with indexSynced := leaf.index }, .returned (.ok size)) := by
    unfold stepOf
    rw [path_sampleState, leaves_sampleState]
    rfl
  have htick : ((sampleMachine c).step
      (sampleState n leaf (some (sampleFlush (.syncIndex target file size)))) .tick).1
        = tick c LeafWriter.sampleSha sampleWriters
          (sampleState n leaf (some (sampleFlush (.syncIndex target file size))))
          (sampleFlush (.syncIndex target file size)) := rfl
  rw [htick]
  simp only [tick, hstep]
  unfold setLeaf
  rw [path_sampleState]
  unfold sampleState sampleLeaves
  rw [Function.update_idem]
  rfl

theorem fault_sampleLeaf (c : EntryCodec) (written : ℕ) :
    (sampleLeaf []).fault c (sampleCall 0) written
      (.append (sampleCall 0).filename 0 (LeafWriter.sampleSha (sampleCall 0).bytes) 4)
        = sampleLeaf ((LeafIndex.entryLine c (sampleEntryOf 0 (sampleCall 0).filename)).take
          written) := rfl

theorem leaves_succeed (s : SinkRun) (bytes files : ℕ) :
    (s.succeed bytes files).leaves = s.leaves := rfl

theorem run_retryRun_eq (c : EntryCodec) {ticks written file : ℕ}
    {leaf leaf' leaf'' : Leaf (Option FlushTag)} {pc : PersistPc} {target : String}
    (h : Leaf.steps c LeafWriter.sampleSha "out/trades" (sampleCall 0) ticks leaf .createLeaf
      = some (leaf', pc))
    (h' : Leaf.steps c LeafWriter.sampleSha "out/trades" (sampleCall 1) (ticks + 2)
      (leaf'.fault c (sampleCall 0) written pc) .createLeaf
        = some (leaf'', .syncIndex target file 4)) :
    ((sampleMachine c).run (start "out" [.trades] (sampleLeaves leaf)) (retryRun ticks written)).1
      = (sampleState 1 { leaf'' with indexSynced := leaf''.index } none).succeed 4 1 := by
  unfold retryRun
  rw [Machine.run_append_singleton, Machine.fst_run_append, Machine.run_append_singleton,
    Machine.run_append_singleton, Machine.fst_run_append, run_start_sample,
    run_ticks_sample c h, step_fail_sample, Nat.zero_add,
    step_flush_sample, run_ticks_sample c h', step_return_sample]

/-- The run over empty leaves. -/
theorem run_retryRun (c : EntryCodec) (written : ℕ) : ∃ target,
    ((sampleMachine c).run (start "out" [.trades] (sampleLeaves .empty))
          (retryRun 15 written)).1.emitted = [(0, sampleSnapshot)]
      ∧ ((sampleMachine c).run (start "out" [.trades] (sampleLeaves .empty))
          (retryRun 15 written)).1.acked = 1
      ∧ ((sampleMachine c).run (start "out" [.trades] (sampleLeaves .empty))
          (retryRun 15 written)).1.sink.outputDir = "out"
      ∧ (((sampleMachine c).run (start "out" [.trades] (sampleLeaves .empty))
          (retryRun 15 written)).1.leaves "out/trades").index
        = some ((LeafIndex.entryLine c (sampleEntryOf 0 (sampleCall 0).filename)).take written
          ++ LeafIndex.entryLine c (sampleEntryOf 1 target)) := by
  obtain ⟨leaf, target, hsteps, hindex⟩ := steps_sampleLeaf c
    ((LeafIndex.entryLine c (sampleEntryOf 0 (sampleCall 0).filename)).take written)
  rw [← fault_sampleLeaf] at hsteps
  refine ⟨target, ?_⟩
  rw [run_retryRun_eq c (steps_sample c) hsteps]
  refine ⟨rfl, rfl, rfl, ?_⟩
  rw [leaves_succeed, leaves_sampleState]
  exact hindex

/-- No file of a leaf is listed whose index is a line behind a torn one. -/
theorem not_persisted_of_index {s : SinkRun} (hdir : s.sink.outputDir = "out")
    {entry entry' : IndexEntry}
    (hindex : (s.leaves "out/trades").index
      = some ((LeafIndex.entryLine IndexEntry.json entry).take 1
        ++ LeafIndex.entryLine IndexEntry.json entry'))
    (e : ℕ × MarketSnapshot) :
    ¬ s.Persisted IndexEntry.json sha sampleWriters e .trades := by
  rintro ⟨tag, name, file, f, -, -, -, -, -, -, -, hentry⟩
  rw [hdir, show sampleWriters.leafOf "out" tag .trades = "out/trades" from rfl] at hentry
  unfold Leaf.entries at hentry
  rw [hindex, LeafIndex.take_one_entryLine] at hentry
  obtain ⟨torn, hread⟩ := LeafIndex.readIndex_brace_entryLine entry'
  rw [hread] at hentry
  cases hentry

/-- **A flush that returns `Ok` behind a torn line is not listed.** -/
theorem not_persisted_retryRun :
    ((sampleMachine IndexEntry.json).run (start "out" [.trades] (sampleLeaves .empty))
        (retryRun 15 1)).1.emitted = [(0, sampleSnapshot)]
      ∧ ((sampleMachine IndexEntry.json).run (start "out" [.trades] (sampleLeaves .empty))
          (retryRun 15 1)).1.acked = 1
      ∧ sampleSnapshot.Has .trades
      ∧ ¬ ((sampleMachine IndexEntry.json).run (start "out" [.trades] (sampleLeaves .empty))
          (retryRun 15 1)).1.Persisted IndexEntry.json LeafWriter.sampleSha sampleWriters
            (0, sampleSnapshot) .trades := by
  obtain ⟨target, hemitted, hacked, hdir, hindex⟩ := run_retryRun IndexEntry.json 1
  exact ⟨hemitted, hacked, by decide, not_persisted_of_index hdir hindex _⟩

/-- The file of an earlier process, of the same name. -/
def foundCall : PersistCall (Option FlushTag) := { sampleCall 0 with tag := none }

/-- A leaf with that file. -/
abbrev foundLeaf (c : EntryCodec) : Leaf (Option FlushTag) :=
  Leaf.single c LeafWriter.sampleSha foundCall

theorem found_sampleLeaves (c : EntryCodec) :
    Found c LeafWriter.sampleSha (sampleLeaves (foundLeaf c)) := by
  constructor <;> intro path <;> by_cases hpath : path = "out/trades"
  · subst hpath
    rw [show sampleLeaves (foundLeaf c) "out/trades" = foundLeaf c from Function.update_self _ _ _]
    exact Leaf.sound_single c _ _
  · rw [show sampleLeaves (foundLeaf c) path = .empty from Function.update_of_ne hpath _ _]
    exact sound_empty
  · subst hpath
    rw [show sampleLeaves (foundLeaf c) "out/trades" = foundLeaf c from Function.update_self _ _ _]
    intro f hf
    rw [List.mem_singleton.mp hf]
    rfl
  · rw [show sampleLeaves (foundLeaf c) path = .empty from Function.update_of_ne hpath _ _]
    exact fun f hf => absurd hf List.not_mem_nil

/-- A flush that fails before it writes anything of its line spares all. -/
theorem meets_spared_retryRun (c : EntryCodec) (leaves : String → Leaf (Option FlushTag)) :
    (sampleMachine c).Meets (Spared c sampleWriters) (start "out" [.trades] leaves)
      (retryRun 16 0) := by
  have hroom : (start "out" [.trades] leaves).Spared c sampleWriters (.emit sampleSnapshot) := by
    show 0 < maxBufferedSnapshots
    decide
  refine And.intro hroom (Machine.along_of_forall (fun i hi g s => ?_) () _)
  have hi : i = .flush ∨ i = .tick ∨ i = .fail 0 := by
    revert i
    decide
  rcases hi with rfl | rfl | rfl
  · trivial
  · trivial
  · rintro fl -
    unfold Leaf.Whole
    split
    · exact Or.inl rfl
    · trivial

/-- The leaf after the rename of the first flush, its name the second it
probed. -/
def renamedLeaf (c : EntryCodec) : Leaf (Option FlushTag) where
  inodes := [⟨foundCall.bytes, true, foundCall⟩, ⟨(sampleCall 0).bytes, true, sampleCall 0⟩]
  staging := .empty
  files := (OrdMap.empty.insert foundCall.filename 0).insert
    (Leaf.candidate (sampleCall 0).filename 1) 1
  durable := (OrdMap.empty.insert foundCall.filename 0).insert
    (Leaf.candidate (sampleCall 0).filename 1) 1
  index := (foundLeaf c).index
  indexSynced := (foundLeaf c).index
  lock := .here

theorem steps_foundLeaf (c : EntryCodec) :
    Leaf.steps c LeafWriter.sampleSha "out/trades" (sampleCall 0) 16 (foundLeaf c) .createLeaf
      = some (renamedLeaf c, .append (Leaf.candidate (sampleCall 0).filename 1) 1
          (LeafWriter.sampleSha (sampleCall 0).bytes) 4) := rfl

theorem steps_renamedLeaf (c : EntryCodec) : ∃ leaf target,
    Leaf.steps c LeafWriter.sampleSha "out/trades" (sampleCall 1) 18
        ((renamedLeaf c).fault c (sampleCall 0) 0
          (.append (Leaf.candidate (sampleCall 0).filename 1) 1
            (LeafWriter.sampleSha (sampleCall 0).bytes) 4)) .createLeaf
      = some (leaf, .syncIndex target 2 4) :=
  ⟨_, _, rfl⟩

/-- Beside a file it found, the flush after it has the trade in a file of its
leaf. -/
theorem persisted_retryRun :
    ((sampleMachine IndexEntry.json).run
        (start "out" [.trades] (sampleLeaves (foundLeaf IndexEntry.json)))
        (retryRun 16 0)).1.emitted
        = [(0, sampleSnapshot)]
      ∧ ((sampleMachine IndexEntry.json).run
          (start "out" [.trades] (sampleLeaves (foundLeaf IndexEntry.json)))
          (retryRun 16 0)).1.Persisted IndexEntry.json LeafWriter.sampleSha sampleWriters
            (0, sampleSnapshot) .trades := by
  obtain ⟨leaf, target, hsteps⟩ := steps_renamedLeaf IndexEntry.json
  have hrun := run_retryRun_eq IndexEntry.json (steps_foundLeaf IndexEntry.json) hsteps
  have hemitted : ((sampleMachine IndexEntry.json).run
      (start "out" [.trades] (sampleLeaves (foundLeaf IndexEntry.json))) (retryRun 16 0)).1.emitted
        = [(0, sampleSnapshot)] := by
    rw [hrun]
    rfl
  have hacked : ((sampleMachine IndexEntry.json).run
      (start "out" [.trades] (sampleLeaves (foundLeaf IndexEntry.json))) (retryRun 16 0)).1.acked
        = 1 := by
    rw [hrun]
    rfl
  refine ⟨hemitted, (persisted_of_spared IndexEntry.json LeafWriter.sampleSha sampleWriters "out"
    [.trades] (found_sampleLeaves IndexEntry.json) (retryRun 16 0)
    (meets_spared_retryRun IndexEntry.json _)).1 (0, sampleSnapshot) ?_ .trades
      (by decide) (by decide)⟩
  rw [hemitted, hacked]
  exact List.mem_singleton_self _

end SinkRun
