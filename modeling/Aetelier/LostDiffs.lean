import Aetelier.PairInvariants

/-!
# Lost diffs

A diff of the venue can be lost on the way: the transport may lose it, or the
buffer of a pair that awaits its seed may overflow and drop it. It must not be
passed over in silence – a book that contains later diffs and not the lost one
must not be emitted as if nothing had happened.

A book checked by sequence notices. Its deltas say where they start, and the
one after a hole does not continue the book (`SeqFeed.Tracks.apply`). A
per-order book has nothing to check: it applies what it is given, and a diff
missing between the seed and the buffer, or between two diffs, is absorbed.
For such a feed the property holds where there is nothing to notice: a live
pair gets the diffs one by one – a hole in the numbering is announced as a
connection gap, which ends the run – and when a snapshot arrives, the diffs
past it are still in the buffer (`Feed.wholePair_handle`).

An overflow breaks that. The oldest diffs are dropped as something the seed
would cover anyway, but the seed of a per-order feed has no id and covers
nothing.
-/

/-- **The positions of a feed**: where a diff stands in the venue's order, how
far a snapshot reaches, and where the venue issued diffs at all. -/
structure Feed where
  /-- Where a diff stands. -/
  position : NormalizedDelta → ℕ
  /-- How far a snapshot reaches. -/
  asOf : NormalizedDelta → ℕ
  /-- Where there are diffs. -/
  issued : Set ℕ

/-- What has been applied to a book since its last snapshot: how far the
snapshot reached, and the positions of the diffs. -/
structure Since where
  /-- How far the snapshot reached. -/
  asOf : ℕ
  /-- The diffs applied since. -/
  diffs : List ℕ

/-- No diff past the snapshot was skipped for a later one. -/
def Since.Whole (a : Since) (issued : Set ℕ) : Prop :=
  ∀ n ∈ issued, a.asOf < n → (∃ f ∈ a.diffs, n < f) → n ∈ a.diffs

/-- **The monitor of lost diffs.** It notes what has been applied since the
last snapshot, and forgets it at a gap. A book that is emitted without a gap
since its snapshot must not have skipped a diff. -/
def Feed.noLoss (feed : Feed) : BookMonitor (Option Since) where
  next a d
    | .error _ => none
    | .ok _ =>
      if d.isSnapshot then some ⟨feed.asOf d, []⟩
      else a.map (fun a => { a with diffs := feed.position d :: a.diffs })
  ok a _ := ∀ a' ∈ a, a'.Whole feed.issued

namespace Feed

variable {feed : Feed} {d : NormalizedDelta} {output : BookOutput}

@[simp] theorem noLoss_error (a : Option Since) (e : ResyncNeeded) :
    feed.noLoss.next a d (.error e) = none := rfl

theorem noLoss_snapshot (hsnap : d.isSnapshot = true) (a : Option Since) :
    feed.noLoss.next a d (.ok output) = some ⟨feed.asOf d, []⟩ :=
  if_pos hsnap

theorem noLoss_diff (hsnap : d.isSnapshot = false) (a : Option Since) :
    feed.noLoss.next a d (.ok output)
      = a.map (fun a => { a with diffs := feed.position d :: a.diffs }) :=
  if_neg (by rw [hsnap]; simp)

end Feed

/-! ## Feeds checked by sequence -/

/-- The first id a delta covers, given its two sequence numbers. -/
def SeqPredicate.firstId : SeqPredicate → ℕ → ℕ
  | exactPrev, sequence => sequence + 1
  | _, sequence => sequence

/-- **The ids of a feed checked by sequence**: each diff by its two sequence
numbers. No diff ends inside the range of another, and a diff that points to
its predecessor comes after it. -/
structure SeqFeed (predicate : SeqPredicate) where
  /-- The sequence numbers and ids of the diffs. -/
  diffs : Set (ℕ × ℕ)
  /-- What ends past the start of a diff does not end before its end. -/
  disjoint : ∀ f ∈ diffs, ∀ d ∈ diffs, predicate.firstId f.1 ≤ d.2 → f.2 ≤ d.2
  /-- Predecessors come before. -/
  prev_lt : predicate = .exactPrev → ∀ f ∈ diffs, f.1 < f.2
  /-- The predicate compares a delta with what precedes it. -/
  checked : predicate ≠ .monotonic

namespace SeqFeed

variable {predicate : SeqPredicate} (feed : SeqFeed predicate)

/-- The positions of the feed are its ids. -/
def toFeed : Feed where
  position d := d.updateId
  asOf d := d.updateId
  issued := { n | ∃ d ∈ feed.diffs, d.2 = n }

/-- A diff is one the venue issued. -/
def Issues (d : NormalizedDelta) : Prop :=
  d.isSnapshot = false → (d.sequence, d.updateId) ∈ feed.diffs

/-- Everything the venue issued up to an id has been applied. -/
structure Reached (a : Since) (last : ℕ) : Prop where
  /-- Nothing applied is past the id. -/
  le : ∀ f ∈ a.diffs, f ≤ last
  /-- Nothing up to the id was skipped. -/
  mem : ∀ n ∈ feed.toFeed.issued, a.asOf < n → n ≤ last → n ∈ a.diffs

variable {feed}

theorem Reached.whole {a : Since} {last : ℕ} (ha : feed.Reached a last) :
    a.Whole feed.toFeed.issued := by
  rintro n hn hlt ⟨f, hf, hnf⟩
  exact ha.mem n hn hlt (hnf.le.trans (ha.le f hf))

/-- **A delta that continues a book leaves nothing out.** -/
theorem Reached.next {a : Since} {last : ℕ} {d : NormalizedDelta} (ha : feed.Reached a last)
    (hd : (d.sequence, d.updateId) ∈ feed.diffs)
    (hcont : SourcedOrderbook.continuous predicate last d = true) :
    feed.Reached { a with diffs := d.updateId :: a.diffs } d.updateId := by
  have hfirst : predicate.firstId d.sequence ≤ last + 1 ∧ last < d.updateId := by
    have hprev := feed.prev_lt
    have hchecked := feed.checked
    cases predicate with
    | rangeInclusive =>
      simp only [SourcedOrderbook.continuous, decide_eq_true_eq] at hcont
      exact hcont
    | exactPrev =>
      simp only [SourcedOrderbook.continuous, decide_eq_true_eq] at hcont
      have := hprev rfl _ hd
      simp only [SeqPredicate.firstId]
      omega
    | monotonic => exact absurd rfl hchecked
  refine ⟨List.forall_mem_cons.mpr ⟨le_rfl, fun f hf => ?_⟩, fun n hn hlt hle => ?_⟩
  · exact (ha.le f hf).trans hfirst.2.le
  · by_cases hlast : n ≤ last
    · exact List.mem_cons_of_mem _ (ha.mem n hn hlt hlast)
    · obtain ⟨d', hd', rfl⟩ := hn
      have hge := feed.disjoint _ hd _ hd' (by dsimp only; omega)
      rw [le_antisymm hle hge]
      exact List.mem_cons_self

/-- **The invariant**: a book checked by sequence has applied everything up to
its last id. -/
structure Tracks (feed : SeqFeed predicate) (source : SnapshotSource) (sb : SourcedOrderbook)
    (a : Option Since) : Prop where
  /-- The book is checked by sequence. -/
  model : sb.model = .seqDelta predicate source
  /-- What was applied since the snapshot is all there was. -/
  reached : ∀ a' ∈ a, ∃ l, sb.last = some l ∧ feed.Reached a' l

/-- An apply keeps the invariant, whatever comes of it. -/
theorem Tracks.apply {x : Crates} {u : Unicode} {source : SnapshotSource}
    {sb sb' : SourcedOrderbook} {a : Option Since} {d : NormalizedDelta}
    {result : Except ResyncNeeded BookOutput} (h : feed.Tracks source sb a)
    (hd : feed.Issues d) (happly : sb.apply x u d = (sb', result)) :
    feed.Tracks source sb' (feed.toFeed.noLoss.next a d result) := by
  have hmodel : sb'.model = .seqDelta predicate source := by
    have := sb.apply_model (x := x) (u := u) d
    rw [happly] at this
    exact this.trans h.model
  refine ⟨hmodel, fun a' ha' => ?_⟩
  cases result with
  | error e => cases ha'
  | ok output =>
    obtain ⟨hlast, hcont⟩ := SourcedOrderbook.apply_seqDelta_ok h.model happly
    refine ⟨d.updateId, hlast, ?_⟩
    cases hsnap : d.isSnapshot with
    | true =>
      rw [Feed.noLoss_snapshot hsnap] at ha'
      cases ha'
      exact ⟨(fun f hf => by cases hf), fun n _ hlt hle => absurd hle (not_le.mpr hlt)⟩
    | false =>
      rw [Feed.noLoss_diff hsnap] at ha'
      obtain ⟨a₀, ha₀, rfl⟩ := Option.map_eq_some_iff.mp ha'
      obtain ⟨l, hl, hreached⟩ := h.reached a₀ ha₀
      obtain ⟨l', hl', hc⟩ := hcont hsnap
      rw [hl] at hl'
      cases hl'
      exact hreached.next (hd hsnap) hc

theorem Tracks.ok {source : SnapshotSource} {sb : SourcedOrderbook} {a : Option Since}
    (h : feed.Tracks source sb a) (book : Orderbook) : feed.toFeed.noLoss.ok a book := by
  intro a' ha'
  obtain ⟨l, -, hreached⟩ := h.reached a' ha'
  exact hreached.whole

end SeqFeed

/-! ## Per-order feeds -/

namespace Feed

/-- **A per-order feed**: diffs are numbered one by one, and a snapshot carries
no number. How far a snapshot reaches is the venue's to know. -/
def l3 (asOf : NormalizedDelta → ℕ) : Feed where
  position d := d.sequence
  asOf := asOf
  issued := Set.univ

/-- **A snapshot reaches a pair**: every diff past it that the feed has come
to is still in the buffer, under an id that the snapshot does not cover. -/
def Reaches (asOf : NormalizedDelta → ℕ) (pair : TradingPair) (next : ℕ) (b : PairBook)
    (snapshot : NormalizedDelta) : Prop :=
  ∀ k, asOf (snapshot.canonical pair) < k → k < next →
    ∃ d ∈ b.phase.buffered, d.sequence = k ∧ snapshot.updateId < d.updateId

/-- **What reaches a pair of a per-order feed without loss**: the diffs in
order – to a live pair one by one – and snapshots that reach, from the stream
only while the pair awaits one. -/
def WholeInput (asOf : NormalizedDelta → ℕ) (pair : TradingPair) (next : ℕ) (b : PairBook) :
    PairInput → Prop
  | .book d =>
    if d.isSnapshot then b.phase.isBuffering = true ∧ Reaches asOf pair next b d
    else if b.phase.isBuffering then next ≤ d.sequence
    else d.sequence = next
  | .fetched result => ∀ seed, result = .ok seed →
      seed.isSnapshot = true ∧ Reaches asOf pair next b seed
  | .trade _ _ => True

/-- The position the feed has come to, after an input. -/
def nextPosition (next : ℕ) : PairInput → ℕ
  | .book d => if d.isSnapshot then next else d.sequence + 1
  | _ => next

/-- Diffs in the order of the feed, all before a position. -/
structure Pending (next : ℕ) (ds : List NormalizedDelta) : Prop where
  /-- They are in order. -/
  ordered : ds.Pairwise (fun d e => d.sequence < e.sequence)
  /-- They are diffs. -/
  diff : ∀ d ∈ ds, d.isSnapshot = false
  /-- They are before the position. -/
  lt : ∀ d ∈ ds, d.sequence < next

theorem pending_nil (next : ℕ) : Pending next [] :=
  ⟨List.Pairwise.nil, fun _ hd => absurd hd List.not_mem_nil,
    fun _ hd => absurd hd List.not_mem_nil⟩

theorem Pending.of_sublist {next : ℕ} {ds es : List NormalizedDelta} (h : Pending next ds)
    (hes : es.Sublist ds) : Pending next es :=
  ⟨h.ordered.sublist hes, fun d hd => h.diff d (hes.mem hd), fun d hd => h.lt d (hes.mem hd)⟩

theorem Pending.concat {next : ℕ} {ds : List NormalizedDelta} {d : NormalizedDelta}
    (h : Pending next ds) (hsnap : d.isSnapshot = false) (hd : next ≤ d.sequence) :
    Pending (d.sequence + 1) (ds ++ [d]) := by
  refine ⟨List.pairwise_append.mpr ⟨h.ordered, List.pairwise_singleton _ _, ?_⟩, ?_, ?_⟩
  · intro e he e' he'
    rw [List.mem_singleton.mp he']
    exact (h.lt e he).trans_le hd
  · exact List.forall_mem_append.mpr ⟨h.diff, List.forall_mem_singleton.mpr hsnap⟩
  · refine List.forall_mem_append.mpr ⟨fun e he => ?_, List.forall_mem_singleton.mpr ?_⟩
    · exact (h.lt e he).trans_le (hd.trans (Nat.le_succ _))
    · exact Nat.lt_succ_self _

/-- **What has been applied, and what is left to replay**, are all the diffs
past the snapshot. -/
structure Replaying (snapId next : ℕ) (a : Since) (rest : List NormalizedDelta) : Prop where
  /-- What is left is in order. -/
  pending : Pending next rest
  /-- What has been applied is before the position. -/
  lt : ∀ f ∈ a.diffs, f < next
  /-- What has been applied is before what is left. -/
  before : ∀ f ∈ a.diffs, ∀ d ∈ rest, f < d.sequence
  /-- Nothing is missing. -/
  mem : ∀ k, a.asOf < k → k < next →
    k ∈ a.diffs ∨ ∃ d ∈ rest, d.sequence = k ∧ snapId < d.updateId

section Replaying

variable {snapId next : ℕ} {a : Since} {d : NormalizedDelta} {rest : List NormalizedDelta}

theorem Replaying.whole (h : Replaying snapId next a rest) : a.Whole Set.univ := by
  rintro n - hlt ⟨f, hf, hnf⟩
  rcases h.mem n hlt (hnf.trans (h.lt f hf)) with hmem | ⟨d, hd, rfl, -⟩
  · exact hmem
  · exact absurd hnf (h.before f hf d hd).asymm

/-- A diff the snapshot covers may be skipped. -/
theorem Replaying.skip (h : Replaying snapId next a (d :: rest)) (hle : d.updateId ≤ snapId) :
    Replaying snapId next a rest := by
  refine ⟨h.pending.of_sublist (List.sublist_cons_self d rest), h.lt,
    fun f hf e he => h.before f hf e (List.mem_cons_of_mem _ he), fun k hk hk' => ?_⟩
  rcases h.mem k hk hk' with hmem | ⟨e, he, rfl, hid⟩
  · exact Or.inl hmem
  · rcases List.mem_cons.mp he with rfl | he
    · exact absurd hid (not_lt.mpr hle)
    · exact Or.inr ⟨e, he, rfl, hid⟩

/-- The next diff is applied. -/
theorem Replaying.apply (h : Replaying snapId next a (d :: rest)) :
    Replaying snapId next { a with diffs := d.sequence :: a.diffs } rest := by
  refine ⟨h.pending.of_sublist (List.sublist_cons_self d rest), ?_, ?_, fun k hk hk' => ?_⟩
  · exact List.forall_mem_cons.mpr ⟨h.pending.lt d List.mem_cons_self, h.lt⟩
  · refine List.forall_mem_cons.mpr ⟨(List.pairwise_cons.mp h.pending.ordered).1, ?_⟩
    exact fun f hf e he => h.before f hf e (List.mem_cons_of_mem _ he)
  · rcases h.mem k hk hk' with hmem | ⟨e, he, rfl, hid⟩
    · exact Or.inl (List.mem_cons_of_mem _ hmem)
    · rcases List.mem_cons.mp he with rfl | he
      · exact Or.inl List.mem_cons_self
      · exact Or.inr ⟨e, he, rfl, hid⟩

/-- A live diff is one more to apply. -/
theorem Replaying.live (h : Replaying snapId next a []) :
    Replaying snapId (next + 1) { a with diffs := next :: a.diffs } [] := by
  refine ⟨pending_nil _, ?_, fun _ _ _ hd => absurd hd List.not_mem_nil, fun k hk hk' => ?_⟩
  · refine List.forall_mem_cons.mpr ⟨next.lt_succ_self, fun f hf => ?_⟩
    exact (h.lt f hf).trans next.lt_succ_self
  · rcases Nat.lt_succ_iff_lt_or_eq.mp hk' with hk' | rfl
    · rcases h.mem k hk hk' with hmem | ⟨d, hd, -⟩
      · exact Or.inl (List.mem_cons_of_mem _ hmem)
      · cases hd
    · exact Or.inl List.mem_cons_self

/-- With nothing left to replay, the id of the snapshot no longer matters. -/
theorem Replaying.done (h : Replaying snapId next a []) (snapId' : ℕ) :
    Replaying snapId' next a [] := by
  refine ⟨h.pending, h.lt, h.before, fun k hk hk' => Or.inl ?_⟩
  rcases h.mem k hk hk' with hmem | ⟨d, hd, -⟩
  · exact hmem
  · cases hd

end Replaying

/-- **The invariant of a pair of a per-order feed.** A pair that buffers holds
diffs in order; a live one has applied everything past its snapshot. -/
def WholePair (next : ℕ) (b : PairBook) (a : Option Since) : Prop :=
  match b.phase with
  | .buffering buffer => a = none ∧ Pending next buffer
  | .passthrough => ∀ a' ∈ a, Replaying 0 next a' []

section Pairs

variable {cfg : RuntimeConfig} {pair : TradingPair} {nowUs next : ℕ}
  {asOf : NormalizedDelta → ℕ} {b : PairBook} {a : Option Since}

theorem wholePair_of_buffering {buffer : List NormalizedDelta}
    (hphase : b.phase = .buffering buffer) (h : Pending next buffer) : WholePair next b none := by
  unfold WholePair
  rw [hphase]
  exact ⟨rfl, h⟩

theorem wholePair_of_live (hphase : b.phase = .passthrough)
    (h : ∀ a' ∈ a, Replaying 0 next a' []) : WholePair next b a := by
  unfold WholePair
  rw [hphase]
  exact h

theorem WholePair.pending (h : WholePair next b a) : Pending next b.phase.buffered := by
  unfold WholePair at h
  cases hphase : b.phase with
  | passthrough => exact pending_nil next
  | buffering buffer =>
    rw [hphase] at h
    rw [Phase.buffered_buffering]
    exact h.2

/-- A refused update leaves nothing to answer for. -/
theorem WholePair.forget (h : WholePair next b a) {b' : PairBook} (hphase : b'.phase = b.phase) :
    WholePair next b' none := by
  unfold WholePair at h ⊢
  rw [hphase]
  cases hb : b.phase with
  | passthrough => exact fun a' ha' => by cases ha'
  | buffering buffer =>
    rw [hb] at h
    exact ⟨rfl, h.2⟩

/-- The invariant is about the phase only. -/
theorem WholePair.of_phase (h : WholePair next b a) {b' : PairBook} (hphase : b'.phase = b.phase) :
    WholePair next b' a := by
  unfold WholePair at h ⊢
  rw [hphase]
  exact h

/-- **A snapshot that reaches seeds a pair without loss.** -/
theorem wholePair_applySeed {seed : NormalizedDelta} (h : WholePair next b a)
    (hsnap : seed.isSnapshot = true) (hreach : Reaches asOf pair next b seed) :
    (b.applySeed cfg pair nowUs seed).Kept (l3 asOf).noLoss pair (WholePair next) a := by
  have hsnap' : (seed.canonical pair).isSnapshot = true := hsnap
  refine PairBook.kept_applySeed (J := fun b a rest => b.phase = .passthrough ∧
    ∃ a', a = some a' ∧ Replaying seed.updateId next a' rest) ?_ ?_ ?_ ?_ ?_ ?_
  · intro book e b' _ hb'
    exact h.forget hb'.phase
  · intro book output b' _ _ hphase _
    rw [noLoss_snapshot hsnap']
    have hreplay : Replaying seed.updateId next ⟨asOf (seed.canonical pair), []⟩
        b.phase.buffered :=
      ⟨h.pending, fun f hf => absurd hf List.not_mem_nil,
        fun f hf => absurd hf List.not_mem_nil, fun k hk hk' => Or.inr (hreach k hk hk')⟩
    refine ⟨?_, hphase, _, rfl, hreplay⟩
    rintro a' ⟨⟩
    exact hreplay.whole
  · rintro b a ⟨hphase, a', rfl, hreplay⟩
    refine wholePair_of_live hphase ?_
    rintro a'' ⟨⟩
    exact hreplay.done 0
  · rintro b a d rest ⟨hphase, a', rfl, hreplay⟩ hle
    exact ⟨hphase, a', rfl, hreplay.skip hle⟩
  · rintro b a d rest book output ⟨hphase, a', rfl, hreplay⟩ - -
    rw [noLoss_diff (hreplay.pending.diff d List.mem_cons_self)]
    refine ⟨?_, hphase, _, rfl, hreplay.apply⟩
    rintro a'' ⟨⟩
    exact hreplay.apply.whole
  · rintro b a d rest book e b' ⟨hphase, a', rfl, hreplay⟩ - - hb'
    rw [noLoss_error]
    exact wholePair_of_buffering hb'.phase (hreplay.pending.of_sublist (List.drop_sublist _ _))

/-- **A diff of a live pair** continues what has been applied. -/
theorem wholePair_applyLive {d : NormalizedDelta} (h : WholePair next b a)
    (hphase : b.phase = .passthrough) (hsnap : d.isSnapshot = false) (hd : d.sequence = next) :
    (b.applyLive cfg pair nowUs d).Kept (l3 asOf).noLoss pair (WholePair (next + 1)) a := by
  unfold WholePair at h
  rw [hphase] at h
  have hnext : ∀ a'' ∈ a.map (fun a => { a with diffs := d.sequence :: a.diffs }),
      Replaying 0 (next + 1) a'' [] := by
    intro a'' ha''
    obtain ⟨a', ha', rfl⟩ := Option.map_eq_some_iff.mp ha''
    rw [hd]
    exact (h a' ha').live
  refine PairBook.kept_applyLive (fun book output _ => ?_) (fun book e b' _ hb' => ?_)
  · rw [noLoss_diff hsnap]
    exact ⟨fun a'' ha'' => (hnext a'' ha'').whole, wholePair_of_live hphase hnext⟩
  · rw [noLoss_error]
    refine wholePair_of_buffering hb'.phase ?_
    have := (pending_nil next).concat hsnap hd.ge
    rwa [hd] at this

/-- **A pair of a per-order feed keeps its diffs whole.** -/
theorem wholePair_handle {i : PairInput} (h : WholePair next b a)
    (hi : WholeInput asOf pair next b i) :
    (b.handle cfg pair nowUs i).Kept (l3 asOf).noLoss pair (WholePair (nextPosition next i)) a := by
  cases i with
  | book d =>
    simp only [PairBook.handle, PairBook.onBook, nextPosition]
    simp only [WholeInput] at hi
    cases hsnap : d.isSnapshot with
    | true =>
      rw [if_pos hsnap] at hi
      obtain ⟨hbuf, hreach⟩ := hi
      cases hphase : b.phase with
      | passthrough =>
        rw [hphase] at hbuf
        cases hbuf
      | buffering buffer => exact wholePair_applySeed h hsnap hreach
    | false =>
      rw [if_neg (by rw [hsnap]; simp)] at hi
      cases hphase : b.phase with
      | passthrough =>
        rw [hphase] at hi
        have hd : d.sequence = next := hi
        simp only [Bool.false_eq_true, if_false, hd]
        exact wholePair_applyLive h hphase hsnap hd
      | buffering buffer =>
        rw [hphase] at hi
        have hd : next ≤ d.sequence := hi
        simp only [Bool.false_eq_true, if_false]
        unfold WholePair at h
        rw [hphase] at h
        obtain ⟨rfl, hpend⟩ := h
        refine PairBook.kept_pushBuffered (fun b' _ _ hphase' => ?_)
        refine wholePair_of_buffering hphase' ?_
        split
        · exact (hpend.of_sublist (List.tail_sublist _)).concat hsnap hd
        · exact hpend.concat hsnap hd
  | fetched result =>
    refine PairBook.kept_onFetched (fun seed hseed => ?_) (fun b' hb' => ?_)
    · obtain ⟨hsnap, hreach⟩ := hi seed hseed
      exact wholePair_applySeed (h.of_phase rfl) hsnap hreach
    · exact h.of_phase hb'.phase
  | trade t sequence => exact PairBook.kept_onTrade (fun _ => h.of_phase rfl)

end Pairs

end Feed

/-! ## Whole runs -/

section Runs

variable {cfg : RuntimeConfig} {pair : TradingPair} {s : SourceRuntime} {inputs : List Input}

/-- **How a feed may reach a pair over a run.** A feed checked by sequence may
lose whatever it loses. A per-order feed reaches the pair without loss. -/
inductive Feed.Reliable (cfg : RuntimeConfig) (pair : TradingPair) (s : SourceRuntime)
    (inputs : List Input) : Feed → Prop
  /-- The deltas that arrive are the venue's. -/
  | checked {predicate : SeqPredicate} {source : SnapshotSource} (feed : SeqFeed predicate)
      (hmodel : cfg.model = .seqDelta predicate source)
      (hframes : ∀ input ∈ inputs, ∀ d, input.body = .event (.book d) →
        cfg.codec.decode cfg.unicode d.symbol = some pair → feed.Issues d)
      (hseeds : ∀ input ∈ inputs, ∀ seed, input.body = .fetched pair (.ok seed) →
        feed.Issues seed) :
      Reliable cfg pair s inputs feed.toFeed
  /-- Nothing past a snapshot is missing when it arrives, nor afterwards. -/
  | whole {source : SnapshotSource} (asOf : NormalizedDelta → ℕ) (first : ℕ)
      (hmodel : cfg.model = .l3 source)
      (hwhole : (SourceRuntime.machine cfg).Along
        (SourceRuntime.ghostOf cfg pair Feed.nextPosition)
        (SourceRuntime.AdmitsPair cfg pair (Feed.WholeInput asOf pair)) first s inputs) :
      Reliable cfg pair s inputs (Feed.l3 asOf)

namespace SourceRuntime

/-- A pair before the loop has no diffs to account for. -/
theorem wholePair_start {hasher : RandomState TradingPair} {nowUs : ℕ} {wireSymbols : List String}
    {b : PairBook} (hb : (start cfg hasher nowUs wireSymbols).1.books.get? pair = some b)
    (first : ℕ) : Feed.WholePair first b none := by
  obtain ⟨-, hbuffered, -⟩ := start_get? hb
  cases hphase : b.phase with
  | passthrough => exact Feed.wholePair_of_live hphase (fun _ ha => by cases ha)
  | buffering buffer =>
    rw [hphase, Phase.buffered_buffering] at hbuffered
    refine Feed.wholePair_of_buffering hphase ?_
    rw [hbuffered]
    exact Feed.pending_nil first

/-- **Lost diffs are not absorbed.** In every run a book that has taken a diff
has taken every diff of the venue between its snapshot and that one – always
for a feed checked by sequence, whatever was lost on the way, and for a
per-order feed as long as it reaches the pair without loss. -/
theorem lost_not_absorbed {hasher : RandomState TradingPair} {nowUs : ℕ}
    {wireSymbols : List String} {feed : Feed}
    (hfeed : feed.Reliable cfg pair (start cfg hasher nowUs wireSymbols).1 inputs) :
    (feed.noLoss.on pair).Accepts none
      ((machine cfg).run (start cfg hasher nowUs wireSymbols).1 inputs).2 := by
  cases hfeed with
  | @checked predicate source feed hmodel hframes hseeds =>
    refine accepts_of_book (J := feed.Tracks source) (D := feed.Issues) (fun d hd => hd)
      (fun sb m d sb' result hsb hd happly => hsb.apply hd happly)
      (fun b nowUs m d output hb => hb.ok _) ⟨?_, fun a ha => by cases ha⟩ hframes hseeds
    rw [hmodel]
    rfl
  | @whole source asOf first hmodel hwhole =>
    exact accepts_of_pair (Feed.l3 asOf).noLoss Feed.nextPosition
      (fun g b m nowUs i hb hi _ => Feed.wholePair_handle hb hi)
      (fun b hb => wholePair_start hb first) hwhole

end SourceRuntime

end Runs

/-! ## A per-order venue -/

/-- A venue with per-order books, seeded over REST. -/
def RuntimeConfig.l3Venue : RuntimeConfig :=
  { RuntimeConfig.restVenue with exchange := "bitso", model := .l3 .restSnapshot }

/-- The diff of `BTCUSDT` at a position. The first opens a bid. -/
def NormalizedDelta.orderDiff (n : ℕ) : NormalizedDelta :=
  { NormalizedDelta.diff n n [] [] with
    orders := if n = 1 then [⟨"a", false, "100", "1", false⟩] else [] }

/-- The order snapshot of `BTCUSDT`. -/
def NormalizedDelta.orderSnap : NormalizedDelta :=
  { NormalizedDelta.snap 0 [] [] with orders := [⟨"b", true, "101", "2", false⟩] }

/-- The arrival of an order diff. -/
def Input.orderFrame (n : ℕ) : Input := { body := .event (.book (.orderDiff n)) }

/-- The arrival of the order snapshot. -/
def Input.orderSeed : Input := { body := .fetched ⟨"BTC", "USDT"⟩ (.ok .orderSnap) }

namespace SourceRuntime

/-- A feed of three diffs over ranges of ids. -/
def threeDiffs : SeqFeed .rangeInclusive where
  diffs := { d | d ∈ [(6, 7), (8, 8), (9, 9)] }
  disjoint := show ∀ f ∈ [(6, 7), (8, 8), (9, 9)], ∀ d ∈ [(6, 7), (8, 8), (9, 9)],
      f.1 ≤ d.2 → f.2 ≤ d.2 by decide
  prev_lt := fun h => by cases h
  checked := by decide

/-- The diff at id 8 does not arrive. -/
theorem threeDiffs_reliable :
    threeDiffs.toFeed.Reliable .restVenue ⟨"BTC", "USDT"⟩
      (start .restVenue RandomState.table 0 ["BTCUSDT"]).1
      [.seed 5 [("99", "1")] [("101", "2")], .frame 6 7 [("99", "2")] [],
        .frame 9 9 [("100", "1")] []] := by
  refine .checked threeDiffs rfl (fun input hin d hd _ => ?_) (fun input hin seed hseed => ?_)
  · simp only [List.mem_cons, List.not_mem_nil, or_false] at hin
    rcases hin with rfl | rfl | rfl
    · cases hd
    · cases hd
      exact fun _ => List.mem_cons_self
    · cases hd
      exact fun _ => List.mem_of_getElem? (i := 2) rfl
  · simp only [List.mem_cons, List.not_mem_nil, or_false] at hin
    rcases hin with rfl | rfl | rfl
    · cases hseed
      exact fun h => by cases h
    · cases hseed
    · cases hseed

/-- Order diffs arrive one by one, the first before the seed. -/
theorem orderDiffs_reliable :
    (Feed.l3 (fun _ => 0)).Reliable .l3Venue ⟨"BTC", "USDT"⟩
      (start .l3Venue RandomState.table 0 ["BTCUSDT"]).1
      [.orderFrame 1, .orderSeed, .orderFrame 2] := by
  refine .whole (fun _ => 0) 1 rfl ⟨fun b i _ hb hi => ?_, fun b i _ hb hi => ?_,
    fun b i _ hb hi => ?_, trivial⟩
  · cases hb
    cases hi
    exact le_refl 1
  · cases hb
    cases hi
    rintro seed ⟨⟩
    refine ⟨rfl, fun k hk hk' => ⟨_, List.mem_cons_self, ?_, ?_⟩⟩
    · exact le_antisymm hk (Nat.le_of_lt_succ hk')
    · exact Nat.zero_lt_one
  · cases hb
    cases hi
    exact rfl

/-- **Where the diff at id 8 is lost, the one at 9 does not apply**; and order
diffs that arrive whole are all applied. -/
theorem lost_not_absorbed_of_hole :
    Effect.applies ((machine .restVenue).run
        (start .restVenue RandomState.table 0 ["BTCUSDT"]).1
        [.seed 5 [("99", "1")] [("101", "2")], .frame 6 7 [("99", "2")] [],
          .frame 9 9 [("100", "1")] []]).2
      = [(5, true), (7, true), (9, false)] ∧
    (threeDiffs.toFeed.noLoss.on ⟨"BTC", "USDT"⟩).Accepts none ((machine .restVenue).run
        (start .restVenue RandomState.table 0 ["BTCUSDT"]).1
        [.seed 5 [("99", "1")] [("101", "2")], .frame 6 7 [("99", "2")] [],
          .frame 9 9 [("100", "1")] []]).2 ∧
    Effect.applies ((machine .l3Venue).run
        (start .l3Venue RandomState.table 0 ["BTCUSDT"]).1
        [.orderFrame 1, .orderSeed, .orderFrame 2]).2
      = [(0, true), (1, true), (2, true)] ∧
    ((Feed.l3 (fun _ => 0)).noLoss.on ⟨"BTC", "USDT"⟩).Accepts none ((machine .l3Venue).run
        (start .l3Venue RandomState.table 0 ["BTCUSDT"]).1
        [.orderFrame 1, .orderSeed, .orderFrame 2]).2 := by
  refine ⟨by decide, ?_, by decide, ?_⟩
  · with_reducible exact lost_not_absorbed threeDiffs_reliable
  · with_reducible exact lost_not_absorbed orderDiffs_reliable

/-! ## An overflow -/

section Overflow

variable {cfg : RuntimeConfig} {pair : TradingPair} {nowUs : ℕ} {s : SourceRuntime} {b : PairBook}
  {d : NormalizedDelta}

/-- A full buffer drops its oldest diff for the next. -/
theorem step_overflow (input : Input) {buffer : List NormalizedDelta}
    (hbody : input.body = .event (.book d)) (hcap : input.capacity = none)
    (ho : OfPair cfg pair [d]) (hsnap : d.isSnapshot = false) (hs : Running pair s b)
    (hphase : b.phase = .buffering buffer) (hfull : maxBufferedDeltas ≤ buffer.length) :
    (s.step cfg input).2 = (buffer.take 1).map (.droppedOldest pair) ∧
      Running pair (s.step cfg input).1 { b with
        phase := .buffering (buffer.tail ++ [d.canonical pair])
        bufferOverflowed := true } := by
  have hpush : b.handle cfg pair input.nowUs (.book (d.canonical pair))
      = { pairBook := { b with
            phase := .buffering (buffer.tail ++ [d.canonical pair])
            bufferOverflowed := true }
          effects := (buffer.take 1).map (.droppedOldest pair) } := by
    simp only [PairBook.handle, PairBook.onBook, hphase]
    rw [if_neg (show ¬ (d.canonical pair).isSnapshot = true by
      rw [show (d.canonical pair).isSnapshot = d.isSnapshot from rfl, hsnap]
      simp)]
    unfold PairBook.pushBuffered
    rw [if_pos hfull]
  obtain ⟨-, hstep⟩ := step_running hs hcap (brings_book ho hs hbody)
  rw [hpush] at hstep
  exact hstep rfl

/-- A diff that applies is emitted by the replay. -/
theorem replay_ok (pair : TradingPair) (nowUs : ℕ) (rest : List NormalizedDelta) {snapId : ℕ}
    {book : SourcedOrderbook} {output : BookOutput} (hid : ¬ d.updateId ≤ snapId)
    (hd : b.book.apply cfg.crates cfg.unicode d = (book, .ok output)) :
    ∃ (b' : PairBook) (t : List Effect), (b.replay cfg pair nowUs snapId (d :: rest)).2.1
      = .applied pair d (.ok output) :: b'.emitBook cfg pair nowUs :: t := by
  unfold PairBook.replay
  rw [if_neg hid, hd]
  exact ⟨_, _, rfl⟩

/-- **A seed before a hole.** Where the seed applies and the oldest buffered
diff does too, the book is emitted with that diff. -/
theorem not_accepts_applySeed {μ : Type} {A : BookMonitor μ} {seed : NormalizedDelta}
    {rest : List NormalizedDelta} {book book' : SourcedOrderbook} {output output' : BookOutput}
    (hbuffer : b.phase.buffered = d :: rest)
    (hseed : b.book.apply cfg.crates cfg.unicode (seed.canonical pair) = (book, .ok output))
    (hid : ¬ d.updateId ≤ seed.updateId)
    (hd : book.apply cfg.crates cfg.unicode d = (book', .ok output')) (m : μ)
    (hbad : ∀ shown,
      ¬ A.ok (A.next (A.next m (seed.canonical pair) (.ok output)) d (.ok output')) shown) :
    ¬ (A.on pair).Accepts m (b.applySeed cfg pair nowUs seed).effects := by
  obtain ⟨b₂, t, hreplay⟩ := replay_ok pair nowUs rest
    (b := (({ b with book := book }).stamp (seed.canonical pair)).goLive) hid hd
  have heffects : ∃ (b₁ : PairBook) (t : List Effect), (b.applySeed cfg pair nowUs seed).effects
      = .applied pair (seed.canonical pair) (.ok output) :: b₁.emitBook cfg pair nowUs
        :: .applied pair d (.ok output') :: b₂.emitBook cfg pair nowUs :: t := by
    unfold PairBook.applySeed
    dsimp only
    rw [hseed, hbuffer]
    dsimp only
    rw [hreplay]
    split <;> exact ⟨_, _, rfl⟩
  obtain ⟨b₁, t, heffects⟩ := heffects
  rw [heffects]
  simp only [BookMonitor.accepts_applied, BookMonitor.accepts_emitBook]
  exact fun h => hbad _ h.2.1

/-- **A run that ends with such a seed is not accepted.** -/
theorem not_accepts_of_hole {μ : Type} {A : BookMonitor μ} {inputs : List Input}
    {arrival : Input} {seed : NormalizedDelta} {rest : List NormalizedDelta}
    {book book' : SourcedOrderbook} {output output' : BookOutput}
    (hs : Running pair ((machine cfg).run s inputs).1 b) (hseeding : b.seeding = true)
    (hbody : arrival.body = .fetched pair (.ok seed)) (hcap : arrival.capacity = none)
    (hbuffer : b.phase.buffered = d :: rest)
    (hseed : b.book.apply cfg.crates cfg.unicode (seed.canonical pair) = (book, .ok output))
    (hid : ¬ d.updateId ≤ seed.updateId)
    (hd : book.apply cfg.crates cfg.unicode d = (book', .ok output')) (m : μ)
    (hbad : ∀ m shown,
      ¬ A.ok (A.next (A.next m (seed.canonical pair) (.ok output)) d (.ok output')) shown) :
    ¬ (A.on pair).Accepts m ((machine cfg).run s (inputs ++ [arrival])).2 := by
  have hbrings : ((machine cfg).run s inputs).1.brings cfg pair b arrival.body
      = some (.fetched (.ok seed)) := by
    rw [hbody]
    exact if_pos ⟨hseeding, rfl⟩
  obtain ⟨⟨cut, hcut⟩, -⟩ := step_running hs hcap hbrings
  rw [Machine.run_append, Monitor.accepts_append]
  rintro ⟨-, hacc⟩
  simp only [Machine.run, machine, List.append_nil] at hacc hcut
  rw [← hcut] at hacc
  exact not_accepts_applySeed (b := { b with seeding := false }) hbuffer hseed hid hd _
    (hbad _) hacc.of_append

end Overflow

/-- The pair of the venue, once the loop has started. -/
def orderPair : PairBook :=
  { PairBook.new .l3Venue ⟨"BTC", "USDT"⟩ 0 "BTCUSDT" with seeding := true }

theorem running_orderPair :
    Running ⟨"BTC", "USDT"⟩ (start .l3Venue RandomState.table 0 ["BTCUSDT"]).1 orderPair :=
  ⟨rfl, rfl, rfl⟩

/-- The seed, and the diff at position 2 after it, apply. -/
theorem orderPair_apply :
    (orderPair.book.apply .plain ⟨id, id⟩ (.canonical .orderSnap ⟨"BTC", "USDT"⟩)).2
        = .ok .snapshot ∧
      ((orderPair.book.apply .plain ⟨id, id⟩ (.canonical .orderSnap ⟨"BTC", "USDT"⟩)).1.apply
        .plain ⟨id, id⟩ (.canonical (.orderDiff 2) ⟨"BTC", "USDT"⟩)).2 = .ok .applied := by
  decide

/-- The diffs at the first positions. -/
def orderDiffs (n : ℕ) : List NormalizedDelta := (List.range' 1 n).map .orderDiff

/-- Their arrival. -/
def orderFrames (n : ℕ) : List Input := (List.range' 1 n).map .orderFrame

theorem orderDiffs_length (n : ℕ) : (orderDiffs n).length = n := by
  simp [orderDiffs]

theorem orderFrames_succ (n : ℕ) :
    orderFrames (n + 1) = orderFrames n ++ [.orderFrame (n + 1)] := by
  simp [orderFrames, List.range'_concat, Nat.add_comm]

theorem delivers_orderFrames (n : ℕ) : Delivers (orderDiffs n) (orderFrames n) := by
  simp [Delivers, orderDiffs, orderFrames, List.forall₂_map_left_iff, List.forall₂_map_right_iff,
    List.forall₂_same, Input.orderFrame]

theorem ofPair_orderDiffs (ns : List ℕ) :
    OfPair .l3Venue ⟨"BTC", "USDT"⟩ (ns.map .orderDiff) := by
  have hdecode : SymbolCodec.decode ⟨id, id⟩ (.concat true) "BTCUSDT" = some ⟨"BTC", "USDT"⟩ := by
    decide
  exact ⟨by decide, List.forall_mem_map.mpr (fun _ _ => hdecode)⟩

/-- The pair after one diff more than its buffer holds. -/
theorem running_overflow : ∃ rest,
    Running ⟨"BTC", "USDT"⟩ ((machine .l3Venue).run
      (start .l3Venue RandomState.table 0 ["BTCUSDT"]).1 (orderFrames (maxBufferedDeltas + 1))).1
      { orderPair with
        phase := .buffering (.canonical (.orderDiff 2) ⟨"BTC", "USDT"⟩ :: rest)
        bufferOverflowed := true } := by
  obtain ⟨n, hn⟩ : ∃ n, maxBufferedDeltas = n + 2 := ⟨99998, rfl⟩
  obtain ⟨-, hfull⟩ := run_buffering (delivers_orderFrames (n + 2))
    (ofPair_orderDiffs _) (List.forall_mem_map.mpr (fun _ _ => rfl)) running_orderPair rfl
    (by rw [orderDiffs_length, List.length_nil, Nat.zero_add, hn])
  rw [List.nil_append] at hfull
  obtain ⟨-, hs⟩ := step_overflow (.orderFrame (n + 2 + 1)) rfl rfl
    (ofPair_orderDiffs [n + 2 + 1]) rfl hfull rfl
    (by rw [List.length_map, orderDiffs_length, hn])
  rw [hn, orderFrames_succ, Machine.run_append]
  exact ⟨_, hs⟩

/-- **An overflow is absorbed.** The diff at position 1 is dropped from a full
buffer. The seed does not have it either, and the book that follows from
position 2 on is emitted without it. -/
theorem overflow_absorbed :
    ¬ ((Feed.l3 (fun _ => 0)).noLoss.on ⟨"BTC", "USDT"⟩).Accepts none ((machine .l3Venue).run
        (start .l3Venue RandomState.table 0 ["BTCUSDT"]).1
        (orderFrames (maxBufferedDeltas + 1) ++ [.orderSeed])).2 := by
  obtain ⟨rest, hs⟩ := running_overflow
  refine not_accepts_of_hole hs rfl rfl rfl rfl (Prod.ext rfl orderPair_apply.1)
    (by decide) (Prod.ext rfl orderPair_apply.2) none (fun m shown hok => ?_)
  rw [Feed.noLoss_diff rfl, Feed.noLoss_snapshot rfl] at hok
  have hmem := hok _ rfl 1 trivial Nat.zero_lt_one ⟨2, List.mem_cons_self, Nat.one_lt_two⟩
  cases List.mem_singleton.mp hmem

end SourceRuntime
