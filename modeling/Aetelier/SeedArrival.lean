import Mathlib.Data.List.Chain
import Aetelier.VenueHistory

/-!
# Where in the stream a seed arrives

A REST-seeded pair buffers its deltas until the seed arrives. A seed taken at
id `s` covers the deltas that end at or below `s`; the runtime discards those
that are in the buffer and applies the rest in order. If the stream is
delivered whole and in order, and the seed is the true book at an id of the
stream, it should not matter when the seed arrives.

It does matter. The discarding is done on the buffer only. When the seed is
ahead of the stream – its id covers a delta that has not been delivered yet –
that delta arrives at a live book, does not continue it, and is taken for a
gap: the book is gapped, and another seed is asked for. `seedArrival_iff` says
that this is the only way for a position to matter: the seed goes unnoticed
exactly if the first delta after it ends past its id.
-/

/-! ## A stream of deltas -/

/-- An effect of a book that has lost its place: an update that does not
apply, a gap counted, a seed asked for. -/
def Effect.disturbs : Effect → Bool
  | applied _ _ (.error _) | spawnedSeed _ _ | metric .gaps => true
  | _ => false

/-- The canonical symbol of a pair is accepted by the book of the pair: it
reads as the pair, or as no pair at all. -/
def TradingPair.ReadsBack (u : Unicode) (pair : TradingPair) : Prop :=
  (OrderbookDelta.new pair).acceptsSymbol u pair.toCanonical = true

instance (u : Unicode) (pair : TradingPair) : Decidable (pair.ReadsBack u) :=
  inferInstanceAs (Decidable (_ = true))

theorem OrderbookDelta.acceptsSymbol_eq {u : Unicode} {ob : OrderbookDelta} {pair : TradingPair}
    (hpair : ob.pair = pair) (symbol : String) :
    ob.acceptsSymbol u symbol = (OrderbookDelta.new pair).acceptsSymbol u symbol := by
  unfold acceptsSymbol
  rw [hpair]
  rfl

namespace VenueHistory

variable {h : VenueHistory} {x : Crates}

/-- **A stream delivered without loss and in order**: true deltas, each of
which starts right after the one before it ends. -/
structure Stream (h : VenueHistory) (x : Crates) (ds : List NormalizedDelta) : Prop where
  /-- There are no snapshots in it. -/
  delta : ∀ d ∈ ds, d.isSnapshot = false
  /-- A delta covers at least one id. -/
  range : ∀ d ∈ ds, d.sequence ≤ d.updateId
  /-- No id is left out between two deltas. -/
  contiguous : ds.IsChain (fun a b => b.sequence = a.updateId + 1)
  /-- The deltas are true. -/
  trueDelta : ∀ d ∈ ds, h.TrueDelta x .rangeInclusive d

/-- Deltas that can be applied one after the other to a book at an id. -/
def Continues (last : ℕ) : List NormalizedDelta → Prop
  | [] => True
  | d :: ds => d.sequence ≤ last + 1 ∧ last < d.updateId ∧ Continues d.updateId ds

/-- The id of a book that has applied deltas one after the other. -/
def lastId (last : ℕ) (ds : List NormalizedDelta) : ℕ :=
  ds.foldl (fun _ d => d.updateId) last

theorem Stream.tail {d : NormalizedDelta} {ds : List NormalizedDelta}
    (hs : h.Stream x (d :: ds)) : h.Stream x ds :=
  ⟨fun e he => hs.delta e (List.mem_cons_of_mem _ he),
    fun e he => hs.range e (List.mem_cons_of_mem _ he), hs.contiguous.tail,
    fun e he => hs.trueDelta e (List.mem_cons_of_mem _ he)⟩

/-- In a stream the next delta starts after the first. -/
theorem Stream.next {d : NormalizedDelta} {ds : List NormalizedDelta}
    (hs : h.Stream x (d :: ds)) : ∀ e ∈ ds.head?, e.sequence = d.updateId + 1 := by
  intro e he
  cases ds with
  | nil => cases he
  | cons e' ds =>
    cases he
    exact (List.isChain_cons_cons.mp hs.contiguous).1

/-- The ids of a stream increase. -/
theorem Stream.lt_of_mem {d : NormalizedDelta} {ds : List NormalizedDelta}
    (hs : h.Stream x (d :: ds)) : ∀ e ∈ ds, d.updateId < e.updateId := by
  induction ds generalizing d with
  | nil => exact fun e he => absurd he List.not_mem_nil
  | cons e' ds ih =>
    have hnext := hs.next e' rfl
    have hrange := hs.range e' (List.mem_cons_of_mem _ List.mem_cons_self)
    have hlt : d.updateId < e'.updateId := by omega
    exact List.forall_mem_cons.mpr ⟨hlt, fun e he => hlt.trans (ih hs.tail e he)⟩

theorem Stream.pairwise {ds : List NormalizedDelta} (hs : h.Stream x ds) :
    ds.Pairwise (fun a b => a.updateId < b.updateId) := by
  induction ds with
  | nil => exact List.Pairwise.nil
  | cons d ds ih => exact List.Pairwise.cons hs.lt_of_mem (ih hs.tail)

/-- A stream whose first delta continues an id continues it whole. -/
theorem Stream.continues {ds : List NormalizedDelta} (hs : h.Stream x ds) {last : ℕ}
    (hhead : ∀ d ∈ ds.head?, d.sequence ≤ last + 1 ∧ last < d.updateId) : Continues last ds := by
  induction ds generalizing last with
  | nil => trivial
  | cons d ds ih =>
    obtain ⟨hseq, hlt⟩ := hhead d rfl
    refine ⟨hseq, hlt, ih hs.tail (fun e he => ?_)⟩
    have hnext := hs.next e he
    have hrange := hs.range e (List.mem_cons_of_mem _ (List.mem_of_mem_head? he))
    omega

/-- **What a snapshot does not cover continues it.** -/
theorem Stream.continues_filter {ds : List NormalizedDelta} (hs : h.Stream x ds) {last : ℕ}
    (hhead : ∀ d ∈ ds.head?, d.sequence ≤ last + 1) :
    Continues last (ds.filter (fun d => last < d.updateId)) := by
  induction ds with
  | nil => trivial
  | cons d ds ih =>
    by_cases hlt : last < d.updateId
    · have hall : (d :: ds).filter (fun d => last < d.updateId) = d :: ds := by
        refine List.filter_eq_self.mpr (List.forall_mem_cons.mpr ⟨decide_eq_true hlt, ?_⟩)
        exact fun e he => decide_eq_true (hlt.trans (hs.lt_of_mem e he))
      rw [hall]
      refine hs.continues (fun e he => ?_)
      cases he
      exact ⟨hhead d rfl, hlt⟩
    · rw [List.filter_cons_of_neg (by simpa using hlt)]
      refine ih hs.tail (fun e he => ?_)
      rw [hs.next e he]
      omega

theorem Stream.of_append {ds es : List NormalizedDelta} (hs : h.Stream x (ds ++ es)) :
    h.Stream x ds ∧ h.Stream x es :=
  ⟨⟨fun d hd => hs.delta d (List.mem_append_left _ hd),
      fun d hd => hs.range d (List.mem_append_left _ hd), hs.contiguous.left_of_append,
      fun d hd => hs.trueDelta d (List.mem_append_left _ hd)⟩,
    ⟨fun d hd => hs.delta d (List.mem_append_right _ hd),
      fun d hd => hs.range d (List.mem_append_right _ hd), hs.contiguous.right_of_append,
      fun d hd => hs.trueDelta d (List.mem_append_right _ hd)⟩⟩

theorem lastId_append (last : ℕ) (ds es : List NormalizedDelta) :
    lastId last (ds ++ es) = lastId (lastId last ds) es :=
  List.foldl_append

theorem Continues.of_append {last : ℕ} {ds es : List NormalizedDelta}
    (hc : Continues last (ds ++ es)) : Continues (lastId last ds) es := by
  induction ds generalizing last with
  | nil => exact hc
  | cons d ds ih => exact ih hc.2.2

/-- Past the end of a stream its last delta is the last one a snapshot does
not cover, or the snapshot is at its end. -/
theorem Stream.lastId_filter {ds : List NormalizedDelta} {d : NormalizedDelta} {last : ℕ}
    (hs : h.Stream x ds) (hd : ds.getLast? = some d) (hle : last ≤ d.updateId) :
    lastId last (ds.filter (fun d => last < d.updateId)) = d.updateId := by
  obtain ⟨init, rfl⟩ := List.getLast?_eq_some_iff.mp hd
  rw [List.filter_append, lastId_append]
  by_cases hlt : last < d.updateId
  · rw [List.filter_cons_of_pos (by simpa using hlt)]
    rfl
  · have hinit : init.filter (fun d => last < d.updateId) = [] := by
      refine List.filter_eq_nil_iff.mpr (fun e he => ?_)
      have := (List.pairwise_append.mp hs.pairwise).2.2 e he d (List.mem_singleton.mpr rfl)
      simp only [decide_eq_true_eq]
      omega
    rw [hinit, List.filter_cons_of_neg (by simpa using hlt)]
    exact le_antisymm hle (not_lt.mp hlt)

/-! ## A pair that meets the stream -/

section Pairs

variable {cfg : RuntimeConfig} {pair : TradingPair} {source : SnapshotSource}
  {d : NormalizedDelta} {b : PairBook} {last : ℕ}

/-- **A live pair at an id of the history.** -/
structure LiveAt (h : VenueHistory) (source : SnapshotSource) (pair : TradingPair) (last : ℕ)
    (b : PairBook) : Prop where
  /-- Deltas go to the book. -/
  phase : b.phase = .passthrough
  /-- The book follows the history. -/
  follows : h.Follows .rangeInclusive source b.book
  /-- It is at the id. -/
  last : b.book.last = some last
  /-- It is the book of the pair. -/
  pair : b.book.book.pair = pair

theorem trueDelta_canonical (hd : h.TrueDelta x .rangeInclusive d) (pair : TradingPair) :
    h.TrueDelta x .rangeInclusive (d.canonical pair) :=
  ⟨hd.bids, hd.asks, hd.bids_changed, hd.asks_changed⟩

/-- A delta that continues a live pair is applied. -/
theorem LiveAt.apply (hb : LiveAt h source pair last b) (hsym : pair.ReadsBack cfg.unicode)
    (hd : h.TrueDelta cfg.crates .rangeInclusive d) (hsnap : d.isSnapshot = false)
    (hseq : d.sequence ≤ last + 1) (hlt : last < d.updateId) :
    ∃ book output,
      b.book.apply cfg.crates cfg.unicode (d.canonical pair) = (book, .ok output) ∧
      ∀ b' : PairBook, b'.book = book → b'.phase = .passthrough →
        LiveAt h source pair d.updateId b' := by
  have hcont : SourcedOrderbook.continuous .rangeInclusive last (d.canonical pair) = true :=
    decide_eq_true ⟨hseq, hlt⟩
  have htaken := taken_delta (u := cfg.unicode) (by decide) hb.follows
    (trueDelta_canonical hd pair) hsnap ((OrderbookDelta.acceptsSymbol_eq hb.pair _).trans hsym)
    hb.last hcont
  obtain ⟨hfollows, hlast, hpair, output, hok⟩ := htaken.follows hb.follows
  refine ⟨_, output, Prod.ext rfl hok, fun b' hbook hphase => ?_⟩
  exact ⟨hphase, hbook ▸ hfollows, hbook ▸ hlast, hbook ▸ hpair.trans hb.pair⟩

/-- A delta that continues a live pair goes unnoticed. -/
theorem LiveAt.applyLive (nowUs : ℕ) (hb : LiveAt h source pair last b)
    (hsym : pair.ReadsBack cfg.unicode)
    (hd : h.TrueDelta cfg.crates .rangeInclusive d) (hsnap : d.isSnapshot = false)
    (hseq : d.sequence ≤ last + 1) (hlt : last < d.updateId) :
    (b.applyLive cfg pair nowUs (d.canonical pair)).resync = false ∧
      LiveAt h source pair d.updateId
        (b.applyLive cfg pair nowUs (d.canonical pair)).pairBook ∧
      ∀ e ∈ (b.applyLive cfg pair nowUs (d.canonical pair)).effects, e.disturbs = false := by
  obtain ⟨book, output, happly, hlive⟩ := hb.apply hsym hd hsnap hseq hlt
  unfold PairBook.applyLive
  rw [happly]
  refine ⟨rfl, hlive _ rfl hb.phase, ?_⟩
  simp [Effect.disturbs, PairBook.emitBook]

/-- **The replay after a seed**: what the seed covers is skipped, and what it
does not cover goes unnoticed. -/
theorem LiveAt.replay (nowUs : ℕ) {snapId : ℕ} {ds : List NormalizedDelta}
    (hb : LiveAt h source pair last b) (hsym : pair.ReadsBack cfg.unicode)
    (hds : ∀ d ∈ ds, h.TrueDelta cfg.crates .rangeInclusive d ∧ d.isSnapshot = false)
    (hcont : Continues last (ds.filter (fun d => snapId < d.updateId))) :
    (b.replay cfg pair nowUs snapId (ds.map (·.canonical pair))).2.2 = .clean ∧
      LiveAt h source pair (lastId last (ds.filter (fun d => snapId < d.updateId)))
        (b.replay cfg pair nowUs snapId (ds.map (·.canonical pair))).1 ∧
      ∀ e ∈ (b.replay cfg pair nowUs snapId (ds.map (·.canonical pair))).2.1,
        e.disturbs = false := by
  induction ds generalizing b last with
  | nil => exact ⟨rfl, ⟨hb.phase, hb.follows, hb.last, hb.pair⟩, fun e he => by cases he⟩
  | cons d ds ih =>
    obtain ⟨hd, hsnap⟩ := hds d List.mem_cons_self
    have hds' := fun e he => hds e (List.mem_cons_of_mem d he)
    rw [List.map_cons, PairBook.replay]
    by_cases hle : d.updateId ≤ snapId
    · rw [List.filter_cons_of_neg (by simpa using hle)] at hcont ⊢
      rw [if_pos (show (d.canonical pair).updateId ≤ snapId from hle)]
      exact ih hb hds' hcont
    · rw [List.filter_cons_of_pos (by simpa using hle)] at hcont ⊢
      obtain ⟨hseq, hlt, hcont⟩ := hcont
      obtain ⟨book, output, happly, hlive⟩ := hb.apply hsym hd hsnap hseq hlt
      rw [if_neg (show ¬ (d.canonical pair).updateId ≤ snapId from hle), happly]
      obtain ⟨hclean, hlast, hquiet⟩ := ih
        (hlive (({ b with book := book }).stamp (d.canonical pair)) rfl hb.phase) hds' hcont
      refine ⟨hclean, hlast, List.forall_mem_cons.mpr ⟨rfl, List.forall_mem_cons.mpr ⟨rfl, ?_⟩⟩⟩
      exact hquiet

/-- **A true seed takes a buffering pair live**, past everything buffered. -/
theorem seeded_applySeed (nowUs : ℕ) {seed : NormalizedDelta} {ds : List NormalizedDelta}
    (hphase : b.phase = .buffering (ds.map (·.canonical pair)))
    (hfollows : h.Follows .rangeInclusive source b.book) (hpair : b.book.book.pair = pair)
    (hsym : pair.ReadsBack cfg.unicode) (hseed : h.TrueSnapshot cfg.crates seed)
    (hsnap : seed.isSnapshot = true)
    (hds : ∀ d ∈ ds, h.TrueDelta cfg.crates .rangeInclusive d ∧ d.isSnapshot = false)
    (hcont : Continues seed.updateId (ds.filter (fun d => seed.updateId < d.updateId))) :
    (b.applySeed cfg pair nowUs seed).resync = false ∧
      LiveAt h source pair
        (lastId seed.updateId (ds.filter (fun d => seed.updateId < d.updateId)))
        (b.applySeed cfg pair nowUs seed).pairBook ∧
      ∀ e ∈ (b.applySeed cfg pair nowUs seed).effects, e.disturbs = false := by
  have hseed' : h.TrueSnapshot cfg.crates (seed.canonical pair) :=
    ⟨hseed.bids, hseed.asks, hseed.bids_all, hseed.asks_all⟩
  have htaken := taken_snapshot (u := cfg.unicode) hfollows hseed' hsnap
    ((OrderbookDelta.acceptsSymbol_eq hpair _).trans hsym)
  obtain ⟨hfollows', hlast, hpair', output, hok⟩ := htaken.follows hfollows
  obtain ⟨book, result, happly⟩ : ∃ book result,
      b.book.apply cfg.crates cfg.unicode (seed.canonical pair) = (book, result) := ⟨_, _, rfl⟩
  rw [happly] at hfollows' hlast hpair' hok
  dsimp only at hok
  subst hok
  have hlive : LiveAt h source pair seed.updateId
      (({ b with book := book }).stamp (seed.canonical pair)).goLive :=
    ⟨rfl, hfollows', hlast, hpair'.trans hpair⟩
  obtain ⟨hclean, hlive', hquiet⟩ := hlive.replay nowUs hsym hds hcont
  have hbuffered : b.phase.buffered = ds.map (·.canonical pair) := by
    rw [hphase, Phase.buffered_buffering]
  unfold PairBook.applySeed
  dsimp only
  rw [happly]
  dsimp only
  rw [hbuffered, hclean]
  refine ⟨rfl, hlive', ?_⟩
  refine List.forall_mem_append.mpr ⟨?_, List.forall_mem_singleton.mpr rfl⟩
  exact List.forall_mem_cons.mpr ⟨rfl, List.forall_mem_cons.mpr ⟨rfl, hquiet⟩⟩

/-- A pair whose canonical symbol its own book refuses cannot be seeded. -/
theorem disturbed_applySeed (nowUs : ℕ) (seed : NormalizedDelta)
    (hfollows : h.Follows .rangeInclusive source b.book) (hpair : b.book.book.pair = pair)
    (hsym : ¬ pair.ReadsBack cfg.unicode) :
    ∃ e ∈ (b.applySeed cfg pair nowUs seed).effects, e.disturbs = true := by
  obtain ⟨reason, happly⟩ := gap_symbol (x := cfg.crates) (u := cfg.unicode)
    (d := seed.canonical pair) hfollows
    ((OrderbookDelta.acceptsSymbol_eq hpair _).trans (Bool.eq_false_iff.mpr hsym))
  unfold PairBook.applySeed
  dsimp only
  rw [happly]
  unfold SourcedOrderbook.gap
  dsimp only
  split
  · exact ⟨_, List.mem_cons_self, rfl⟩
  · exact ⟨_, List.mem_cons_self, rfl⟩

/-- A delta that a live pair has passed is taken for a gap. -/
theorem LiveAt.disturbed (cfg : RuntimeConfig) (nowUs : ℕ) (hb : LiveAt h source pair last b)
    (hsnap : d.isSnapshot = false) (hle : d.updateId ≤ last) :
    ∃ e ∈ (b.applyLive cfg pair nowUs (d.canonical pair)).effects, e.disturbs = true := by
  obtain ⟨reason, happly⟩ := gap_delta (x := cfg.crates) (u := cfg.unicode)
    (d := d.canonical pair) hb.follows hsnap (fun l hl => by
      rw [hb.last] at hl
      cases hl
      exact decide_eq_false (fun hc => absurd hc.2 (not_lt.mpr hle)))
  unfold PairBook.applyLive
  rw [happly]
  unfold SourcedOrderbook.gap
  dsimp only
  split
  · exact ⟨_, List.mem_cons_self, rfl⟩
  · exact ⟨_, List.mem_cons_self, rfl⟩

end Pairs

end VenueHistory

namespace SourceRuntime

variable {cfg : RuntimeConfig} {pair : TradingPair} {h : VenueHistory}
  {source : SnapshotSource} {s : SourceRuntime} {b : PairBook}

/-- **Deltas that continue a live pair go unnoticed.** -/
theorem run_live {ds : List NormalizedDelta} {inputs : List Input} {last : ℕ}
    (hin : Delivers ds inputs) (ho : OfPair cfg pair ds) (hsym : pair.ReadsBack cfg.unicode)
    (hds : ∀ d ∈ ds, h.TrueDelta cfg.crates .rangeInclusive d ∧ d.isSnapshot = false)
    (hs : Running pair s b) (hb : VenueHistory.LiveAt h source pair last b)
    (hcont : VenueHistory.Continues last ds) :
    (∀ e ∈ ((machine cfg).run s inputs).2, e.disturbs = false) ∧
      ∃ b', Running pair ((machine cfg).run s inputs).1 b' ∧
        VenueHistory.LiveAt h source pair (VenueHistory.lastId last ds) b' := by
  induction hin generalizing s b last with
  | nil => exact ⟨(fun e he => by cases he), b, hs, hb⟩
  | @cons d input ds inputs hd hin ih =>
    obtain ⟨htrue, hsnap⟩ := hds d List.mem_cons_self
    obtain ⟨hseq, hlt, hcont⟩ := hcont
    obtain ⟨hres, hlive, hquiet⟩ := hb.applyLive input.nowUs hsym htrue hsnap hseq hlt
    have hhandle : b.handle cfg pair input.nowUs (.book (d.canonical pair))
        = b.applyLive cfg pair input.nowUs (d.canonical pair) := by
      simp only [PairBook.handle, PairBook.onBook, hb.phase]
    obtain ⟨-, hstep⟩ := step_running hs hd.2 (brings_book ho hs hd.1)
    rw [hhandle] at hstep
    obtain ⟨heffects, hs'⟩ := hstep hres
    obtain ⟨hquiet', hend⟩ :=
      ih ho.tail (fun e he => hds e (List.mem_cons_of_mem _ he)) hs' hlive hcont
    refine ⟨?_, hend⟩
    simp only [Machine.run, machine] at hquiet' ⊢
    rw [heffects]
    exact List.forall_mem_append.mpr ⟨hquiet, hquiet'⟩

/-- A REST-seeded pair before the loop: it buffers, and its seed is on the
way. -/
theorem start_running (hmodel : cfg.model = .seqDelta .rangeInclusive .restSnapshot)
    (hdepth : cfg.maxDepth = none) (hseeder : cfg.hasSeeder = true)
    (hdecl : .orderbook ∈ cfg.declared) (h : VenueHistory) (hasher : RandomState TradingPair)
    (nowUs : ℕ) {wireSymbols : List String}
    (htracked : ∃ wire ∈ wireSymbols, cfg.codec.decode cfg.unicode wire = some pair) :
    ∃ b, Running pair (start cfg hasher nowUs wireSymbols).1 b ∧ b.phase = .buffering [] ∧
      b.seeding = true ∧ h.Follows .rangeInclusive .restSnapshot b.book ∧
      b.book.book.pair = pair := by
  obtain ⟨b, hb⟩ := Option.isSome_iff_exists.mp (new_isSome cfg hasher nowUs htracked)
  obtain ⟨wire, rfl⟩ := new_get? hb
  have hrest : cfg.needsRest = true := by
    unfold RuntimeConfig.needsRest
    rw [hmodel, decide_eq_true hdecl]
    rfl
  have hout : cfg.seedsOutOfBand = true := by
    unfold RuntimeConfig.seedsOutOfBand
    rw [hmodel, decide_eq_true hdecl]
    rfl
  have hstart : (start cfg hasher nowUs wireSymbols).1
      = ⟨(new cfg hasher nowUs wireSymbols).mapValues (fun _ b => { b with seeding := true }),
          (new cfg hasher nowUs wireSymbols).keys.length, false, none⟩ := by
    unfold start
    simp only [hrest, hseeder, if_true]
  rw [hstart]
  refine ⟨{ PairBook.new cfg pair nowUs wire with seeding := true }, ⟨rfl, rfl, ?_⟩, ?_, rfl,
    ?_, ?_⟩
  · rw [HashMap.get?_mapValues, hb]
    rfl
  · simp only [PairBook.new, hout, if_true]
  · simp only [PairBook.new, hmodel, hdepth]
    exact ⟨rfl, rfl, fun l hl => by cases hl⟩
  · simp only [PairBook.new, hmodel]
    rfl

/-! ## Seed arrival -/

/-- **The seed went unnoticed**: no gap, no other seed asked for, and the book
is the venue's at an id. -/
structure Undisturbed (h : VenueHistory) (pair : TradingPair) (id : ℕ)
    (r : SourceRuntime × List Effect) : Prop where
  /-- Nothing was disturbed on the way. -/
  quiet : ∀ e ∈ r.2, e.disturbs = false
  /-- The book is that of the history. -/
  book : ∃ b, r.1.books.get? pair = some b ∧ b.book.book.Holds (h.bids id) (h.asks id)

/-- **A run of a REST-seeded pair**: a stream delivered whole and in order, and
a seed – the true book at an id of the stream – delivered somewhere in it. -/
structure SeedRun (cfg : RuntimeConfig) (pair : TradingPair) (h : VenueHistory) where
  /-- Deltas cover ranges of ids, and seeds come over REST. -/
  model : cfg.model = .seqDelta .rangeInclusive .restSnapshot
  /-- The book is kept whole. -/
  maxDepth : cfg.maxDepth = none
  /-- There is a seeder. -/
  hasSeeder : cfg.hasSeeder = true
  /-- The hasher of the runtime. -/
  hasher : RandomState TradingPair
  /-- When the runtime was built. -/
  nowUs : ℕ
  /-- The symbols it was built for. -/
  wireSymbols : List String
  /-- The pair is tracked. -/
  tracked : ∃ wire ∈ wireSymbols, cfg.codec.decode cfg.unicode wire = some pair
  /-- The deltas delivered before the seed. -/
  early : List NormalizedDelta
  /-- The deltas delivered after the seed. -/
  late : List NormalizedDelta
  /-- The stream is delivered without loss and in order. -/
  stream : h.Stream cfg.crates (early ++ late)
  /-- It is the stream of the pair. -/
  ofPair : OfPair cfg pair (early ++ late)
  /-- The buffer is not full when the seed arrives. -/
  buffered : early.length < maxBufferedDeltas
  /-- The first delta of the stream. -/
  first : NormalizedDelta
  /-- The last delta of the stream. -/
  last : NormalizedDelta
  /-- Where the stream starts. -/
  head_eq : (early ++ late).head? = some first
  /-- Where the stream ends. -/
  getLast_eq : (early ++ late).getLast? = some last
  /-- The seed. -/
  seed : NormalizedDelta
  /-- The seed is a snapshot. -/
  isSnapshot : seed.isSnapshot = true
  /-- It is the true book at its id. -/
  trueSnapshot : h.TrueSnapshot cfg.crates seed
  /-- Its id is not before the stream. -/
  first_le : first.sequence ≤ seed.updateId + 1
  /-- Its id is not after the stream. -/
  le_last : seed.updateId ≤ last.updateId
  /-- The inputs before the seed. -/
  before : List Input
  /-- The input with the seed. -/
  arrival : Input
  /-- The inputs after the seed. -/
  after : List Input
  /-- The first part of the stream is delivered before the seed. -/
  delivers_early : Delivers early before
  /-- Then the seed arrives. -/
  arrival_body : arrival.body = .fetched pair (.ok seed)
  /-- The receiver takes what is sent. -/
  arrival_open : arrival.capacity = none
  /-- The rest of the stream is delivered after it. -/
  delivers_late : Delivers late after

namespace SeedRun

variable (r : SeedRun cfg pair h)

/-- The state before the loop. -/
def initial : SourceRuntime := (start cfg r.hasher r.nowUs r.wireSymbols).1

/-- The run. -/
def run : SourceRuntime × List Effect :=
  (machine cfg).run r.initial (r.before ++ r.arrival :: r.after)

/-- The stream is true. -/
theorem trueDelta {d : NormalizedDelta} (hd : d ∈ r.early ++ r.late) :
    h.TrueDelta cfg.crates .rangeInclusive d ∧ d.isSnapshot = false :=
  ⟨r.stream.trueDelta d hd, r.stream.delta d hd⟩

/-- The id of the pair once it is live. -/
def liveId : ℕ :=
  VenueHistory.lastId r.seed.updateId
    (r.early.filter (fun d => r.seed.updateId < d.updateId))

/-- The pair just before the seed arrives. -/
theorem run_before :
    ((machine cfg).run r.initial r.before).2 = [] ∧
      ∃ b, Running pair ((machine cfg).run r.initial r.before).1 b ∧
        b.phase = .buffering (r.early.map (·.canonical pair)) ∧ b.seeding = true ∧
        h.Follows .rangeInclusive .restSnapshot b.book ∧ b.book.book.pair = pair := by
  obtain ⟨b, hs, hphase, hseeding, hfollows, hpair⟩ := start_running r.model r.maxDepth
    r.hasSeeder r.ofPair.declared h r.hasher r.nowUs r.tracked
  obtain ⟨hnil, hs'⟩ := run_buffering r.delivers_early
    ⟨r.ofPair.declared, fun d hd => r.ofPair.decode d (List.mem_append_left _ hd)⟩
    (fun d hd => r.stream.delta d (List.mem_append_left _ hd)) hs hphase
    (by rw [List.length_nil, Nat.zero_add]; exact r.buffered.le)
  exact ⟨hnil, _, hs', rfl, hseeding, hfollows, hpair⟩

/-- **The seed arrives**: the pair goes live, unless its book refuses the
symbol. -/
theorem step_arrival {s : SourceRuntime} {b : PairBook} (hs : Running pair s b)
    (hphase : b.phase = .buffering (r.early.map (·.canonical pair))) (hseeding : b.seeding = true)
    (hfollows : h.Follows .rangeInclusive .restSnapshot b.book)
    (hpair : b.book.book.pair = pair) :
    (¬ pair.ReadsBack cfg.unicode → ∃ e ∈ (s.step cfg r.arrival).2, e.disturbs = true) ∧
      (pair.ReadsBack cfg.unicode → (∀ e ∈ (s.step cfg r.arrival).2, e.disturbs = false) ∧
        ∃ b', Running pair (s.step cfg r.arrival).1 b' ∧
          VenueHistory.LiveAt h .restSnapshot pair r.liveId b') := by
  have hbrings : s.brings cfg pair b r.arrival.body = some (.fetched (.ok r.seed)) := by
    rw [r.arrival_body]
    exact if_pos ⟨hseeding, rfl⟩
  obtain ⟨hpre, hstep⟩ := step_running hs r.arrival_open hbrings
  refine ⟨fun hsym => ?_, fun hsym => ?_⟩
  · obtain ⟨e, he, hdisturbs⟩ := VenueHistory.disturbed_applySeed r.arrival.nowUs r.seed
      (b := { b with seeding := false }) hfollows hpair hsym
    exact ⟨e, hpre.mem he, hdisturbs⟩
  · have hcont : VenueHistory.Continues r.seed.updateId
        (r.early.filter (fun d => r.seed.updateId < d.updateId)) := by
      refine r.stream.of_append.1.continues_filter (fun d hd => ?_)
      have hfirst := r.head_eq
      rw [List.head?_append, Option.mem_def.mp hd] at hfirst
      cases hfirst
      exact r.first_le
    obtain ⟨hres, hlive, hquiet⟩ := VenueHistory.seeded_applySeed r.arrival.nowUs
      (b := { b with seeding := false }) hphase hfollows hpair hsym r.trueSnapshot r.isSnapshot
      (fun d hd => r.trueDelta (List.mem_append_left _ hd)) hcont
    obtain ⟨heffects, hs'⟩ := hstep hres
    refine ⟨?_, _, hs', hlive⟩
    rw [heffects]
    exact hquiet

/-- If the seed covers the delta that comes next, it covers all that came
before, and the pair is live at the seed's id. -/
theorem liveId_of_covered {d : NormalizedDelta} {rest : List NormalizedDelta}
    (hlate : r.late = d :: rest) (hle : d.updateId ≤ r.seed.updateId) :
    r.liveId = r.seed.updateId := by
  have hearly : r.early.filter (fun d => r.seed.updateId < d.updateId) = [] := by
    refine List.filter_eq_nil_iff.mpr (fun e he => ?_)
    have hpairwise := r.stream.pairwise
    rw [hlate] at hpairwise
    have := (List.pairwise_append.mp hpairwise).2.2 e he d List.mem_cons_self
    simp only [decide_eq_true_eq]
    omega
  unfold liveId
  rw [hearly]
  rfl

/-- If the seed does not cover the delta that comes next, what comes continues
the live pair, and ends at the end of the stream. -/
theorem continues_late (hlate : ∀ d ∈ r.late.head?, r.seed.updateId < d.updateId) :
    VenueHistory.Continues r.liveId r.late ∧
      VenueHistory.lastId r.liveId r.late = r.last.updateId := by
  have hfilter : r.late.filter (fun d => r.seed.updateId < d.updateId) = r.late := by
    refine List.filter_eq_self.mpr (fun e he => decide_eq_true ?_)
    have hs := r.stream.of_append.2
    cases hcases : r.late with
    | nil =>
      rw [hcases] at he
      cases he
    | cons d rest =>
      rw [hcases] at he hs hlate
      rcases List.mem_cons.mp he with rfl | he
      · exact hlate _ rfl
      · exact (hlate d rfl).trans (hs.lt_of_mem e he)
  have hcont : VenueHistory.Continues r.seed.updateId
      ((r.early ++ r.late).filter (fun d => r.seed.updateId < d.updateId)) :=
    r.stream.continues_filter (fun d hd => by
      rw [r.head_eq] at hd
      cases hd
      exact r.first_le)
  have hend := r.stream.lastId_filter r.getLast_eq r.le_last
  rw [List.filter_append, hfilter] at hcont hend
  rw [VenueHistory.lastId_append] at hend
  exact ⟨hcont.of_append, hend⟩

end SeedRun

/-- **Seed arrival.** A stream is delivered whole and in order, and a seed –
the true book at an id of the stream – somewhere in it. The seed goes
unnoticed exactly if the book accepts the symbol it is given and the seed does
not cover the delta that comes next. -/
theorem seedArrival_iff (r : SeedRun cfg pair h) :
    Undisturbed h pair r.last.updateId r.run ↔
      pair.ReadsBack cfg.unicode ∧ ∀ d ∈ r.late.head?, r.seed.updateId < d.updateId := by
  obtain ⟨hnil, b, hs, hphase, hseeding, hfollows, hpair⟩ := r.run_before
  obtain ⟨hrefused, hseeded⟩ := r.step_arrival hs hphase hseeding hfollows hpair
  unfold SeedRun.run
  rw [Machine.run_append, hnil, List.nil_append]
  generalize ((machine cfg).run r.initial r.before).1 = s at hs hrefused hseeded ⊢
  have hrun : (machine cfg).run s (r.arrival :: r.after)
      = (((machine cfg).run (s.step cfg r.arrival).1 r.after).1,
          (s.step cfg r.arrival).2 ++ ((machine cfg).run (s.step cfg r.arrival).1 r.after).2) := rfl
  rw [hrun]
  constructor
  · rintro ⟨hquiet, -⟩
    obtain ⟨hquiet, hquiet'⟩ := List.forall_mem_append.mp hquiet
    have hsym : pair.ReadsBack cfg.unicode := by
      by_contra hsym
      obtain ⟨e, he, hdisturbs⟩ := hrefused hsym
      rw [hquiet e he] at hdisturbs
      cases hdisturbs
    refine ⟨hsym, fun d hd => ?_⟩
    by_contra hle
    rw [not_lt] at hle
    obtain ⟨rest, hlate⟩ := List.head?_eq_some_iff.mp hd
    obtain ⟨-, b', hs', hlive⟩ := hseeded hsym
    rw [r.liveId_of_covered hlate hle] at hlive
    -- The next delta finds a live book that is past it.
    have hlater := r.delivers_late
    have hpair' : OfPair cfg pair (d :: rest) :=
      ⟨r.ofPair.declared, fun e he => r.ofPair.decode e (List.mem_append_right _ (hlate ▸ he))⟩
    have hsnap : d.isSnapshot = false :=
      r.stream.delta d (List.mem_append_right _ (hlate ▸ List.mem_cons_self))
    rw [hlate] at hlater
    obtain ⟨input, inputs, hinput, -, hafter⟩ := List.forall₂_cons_left_iff.mp hlater
    obtain ⟨hpre, -⟩ := step_running hs' hinput.2 (brings_book hpair' hs' hinput.1)
    obtain ⟨e, he, hdisturbs⟩ := hlive.disturbed cfg input.nowUs hsnap hle
    have hhandle : b'.handle cfg pair input.nowUs (.book (d.canonical pair))
        = b'.applyLive cfg pair input.nowUs (d.canonical pair) := by
      simp only [PairBook.handle, PairBook.onBook, hlive.phase]
    rw [hhandle] at hpre
    rw [hafter] at hquiet'
    rw [hquiet' e (List.mem_append_left _ (hpre.mem he))] at hdisturbs
    cases hdisturbs
  · rintro ⟨hsym, hlate⟩
    obtain ⟨hquiet, b', hs', hlive⟩ := hseeded hsym
    obtain ⟨hcont, hend⟩ := r.continues_late hlate
    obtain ⟨hquiet', b'', hs'', hlive'⟩ := run_live r.delivers_late
      ⟨r.ofPair.declared, fun d hd => r.ofPair.decode d (List.mem_append_right _ hd)⟩ hsym
      (fun d hd => r.trueDelta (List.mem_append_right _ hd)) hs' hlive hcont
    rw [hend] at hlive'
    exact ⟨List.forall_mem_append.mpr ⟨hquiet, hquiet'⟩, b'', hs''.book,
      (hlive'.follows.holds _ hlive'.last).1⟩

/-- A stream of three deltas. -/
def threeDeltas : List NormalizedDelta :=
  [.diff 5 5 [] [], .diff 6 7 [("100", "3")] [], .diff 8 8 [] []]

theorem stream_threeDeltas : bidAppears.Stream Crates.plain threeDeltas := by
  refine ⟨by decide, by decide, by decide, ?_⟩
  intro d hd
  simp only [threeDeltas, List.mem_cons, List.not_mem_nil, or_false] at hd
  rcases hd with rfl | rfl | rfl
  · exact bidAppears_unchanged (.inl (by decide))
  · exact bidAppears_six_seven
  · exact bidAppears_unchanged (.inr (by decide))

/-- The stream of three deltas, and a seed that comes between two of them. -/
def seedBetween (early late : List NormalizedDelta) (hsplit : early ++ late = threeDeltas)
    (seed : NormalizedDelta) (hsnap : seed.isSnapshot = true)
    (hseed : bidAppears.TrueSnapshot Crates.plain seed) (hlow : 4 ≤ seed.updateId)
    (hhigh : seed.updateId ≤ 8) :
    SeedRun RuntimeConfig.restVenue ⟨"BTC", "USDT"⟩ bidAppears where
  model := rfl
  maxDepth := rfl
  hasSeeder := rfl
  hasher := RandomState.table
  nowUs := 0
  wireSymbols := ["BTCUSDT"]
  tracked := ⟨"BTCUSDT", List.mem_singleton.mpr rfl, by decide⟩
  early := early
  late := late
  stream := hsplit ▸ stream_threeDeltas
  ofPair := ⟨by decide, by rw [hsplit]; decide⟩
  buffered := by
    have hlength := congrArg List.length hsplit
    rw [List.length_append] at hlength
    exact lt_of_le_of_lt (Nat.le_of_add_right_le hlength.le) (by decide)
  first := .diff 5 5 [] []
  last := .diff 8 8 [] []
  head_eq := by rw [hsplit]; rfl
  getLast_eq := by rw [hsplit]; rfl
  seed := seed
  isSnapshot := hsnap
  trueSnapshot := hseed
  first_le := Nat.succ_le_succ hlow
  le_last := hhigh
  before := early.map fun d => { body := .event (.book d) }
  arrival := { body := .fetched ⟨"BTC", "USDT"⟩ (.ok seed) }
  after := late.map fun d => { body := .event (.book d) }
  delivers_early := List.forall₂_map_right_iff.mpr (List.forall₂_same.mpr fun _ _ => ⟨rfl, rfl⟩)
  arrival_body := rfl
  arrival_open := rfl
  delivers_late := List.forall₂_map_right_iff.mpr (List.forall₂_same.mpr fun _ _ => ⟨rfl, rfl⟩)

/-- A seed at id 6 finds a delta that it covers and one that straddles it in the buffer, and
is met by the delta that follows. -/
theorem seedArrival_in_time :
    Undisturbed bidAppears ⟨"BTC", "USDT"⟩ 8
      (seedBetween [.diff 5 5 [] [], .diff 6 7 [("100", "3")] []] [.diff 8 8 [] []] rfl
        (.snap 6 [("99", "1")] [("101", "2")]) rfl (bidAppears_before (by decide)) (by decide)
        (by decide)).run := by
  refine (seedArrival_iff (seedBetween [.diff 5 5 [] [], .diff 6 7 [("100", "3")] []]
    [.diff 8 8 [] []] rfl (.snap 6 [("99", "1")] [("101", "2")]) rfl
    (bidAppears_before (by decide)) (by decide) (by decide))).mpr ⟨by decide, ?_⟩
  rintro d ⟨⟩
  decide

/-- A seed at id 7 is ahead of the stream: the delta to id 7 arrives at a live book, and
another seed is asked for. -/
theorem not_undisturbed_of_ahead :
    ¬ Undisturbed bidAppears ⟨"BTC", "USDT"⟩ 8
      (seedBetween [.diff 5 5 [] []] [.diff 6 7 [("100", "3")] [], .diff 8 8 [] []] rfl
        (.snap 7 [("99", "1"), ("100", "3")] [("101", "2")]) rfl bidAppears_seven (by decide)
        (by decide)).run := by
  rintro ⟨hquiet, -⟩
  have hany : (seedBetween [.diff 5 5 [] []] [.diff 6 7 [("100", "3")] [], .diff 8 8 [] []] rfl
      (.snap 7 [("99", "1"), ("100", "3")] [("101", "2")]) rfl bidAppears_seven (by decide)
      (by decide)).run.2.any Effect.disturbs = true := by
    decide
  obtain ⟨e, he, hdisturbs⟩ := List.any_eq_true.mp hany
  rw [hquiet e he] at hdisturbs
  cases hdisturbs

end SourceRuntime
