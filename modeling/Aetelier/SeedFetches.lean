import Aetelier.PairInvariants

/-!
# No stranded book

A pair that buffers waits for a seed, and a seed comes only from a fetch. So
some fetch has to be in flight for every pair that buffers, at every turn of
the loop. A fetch is asked for in five places – at the start, after a gap of a
live book, after a fetch that failed, after a seed that does not apply, and
after a gap in the replay – and each asks through `request_reseed`, which
refuses while a fetch is in flight and when the budget is spent. What has to
be seen is that the first refusal does no harm, and that the second is never
met: who finds the budget spent ends the run instead of asking.

The runtime does not see its fetches. It has a flag on each pair and a count,
and takes the count down whenever a result comes in. Here the fetches are
spelled out (`SeedLoop.fetches`): a task is there from its start until its
result is received, a result is received only if there is such a task, and the
count goes down whatever the flags say. That the flags and the count are right
about the tasks is then a theorem, and with it that this loop is the machine of
the runtime (`SeedLoop.runtime_run`), which takes a result only where the flag
is set.
-/

/-- The pair a fetch is started for. -/
def Effect.spawned? : Effect → Option TradingPair
  | .spawnedSeed pair _ => some pair
  | _ => none

/-- The pairs fetches are started for. -/
def Effect.spawned (effects : List Effect) : List TradingPair := effects.filterMap Effect.spawned?

namespace SourceRuntime

variable (cfg : RuntimeConfig)

/-- The arm of the loop that receives the result of a fetch. Of a pair that is
not tracked a seed is dropped, and a failure finds no budget. -/
def onSeedResult (s : SourceRuntime) (nowUs : ℕ) (pair : TradingPair)
    (result : Except String NormalizedDelta) : SourceRuntime × List Effect :=
  let s := { s with inFlight := s.inFlight - 1 }
  match s.books.get? pair, result with
  | some _, result => s.onPair pair (fun b => b.onFetched cfg pair nowUs result)
  | none, .ok _ => (s, [])
  | none, .error _ => ({ s with outcome := some .resyncRequired },
      [.metric .resyncs, .metric .reseedExhausted])

/-- The end of a turn: the loop looks whether it is over, and a receiver that
hangs up ends it at the event it does not take. -/
def endTurn (capacity : Option ℕ) (r : SourceRuntime × List Effect) :
    SourceRuntime × List Effect :=
  let done := r.1.settle
  match capacity with
  | none => (done, r.2 ++ done.abandoned)
  | some n =>
    if (r.2.filter isSent).length ≤ n then (done, r.2 ++ done.abandoned)
    else ({ done with outcome := some .finished }, takeSends n r.2)

end SourceRuntime

/-- **The loop and its fetches.** -/
structure SeedLoop where
  /-- The state of the loop. -/
  runtime : SourceRuntime
  /-- The fetches whose result has not been received. -/
  fetches : List TradingPair

namespace SeedLoop

variable (cfg : RuntimeConfig)

/-- The loop before its first turn. -/
def start (hasher : RandomState TradingPair) (nowUs : ℕ) (wireSymbols : List String) : SeedLoop :=
  let r := SourceRuntime.start cfg hasher nowUs wireSymbols
  ⟨r.1, Effect.spawned r.2⟩

/-- What an input does. Without a fetch for a pair no result is received. -/
def handle (s : SeedLoop) (nowUs : ℕ) : InputBody → SourceRuntime × List Effect
  | .fetched pair result =>
    if pair ∈ s.fetches then s.runtime.onSeedResult cfg nowUs pair result else (s.runtime, [])
  | body => s.runtime.handle cfg nowUs body

/-- The fetches an input leaves outstanding. -/
def outstanding (s : SeedLoop) : InputBody → List TradingPair
  | .fetched pair _ => s.fetches.erase pair
  | _ => s.fetches

/-- **One turn of the loop.** -/
def step (s : SeedLoop) (input : Input) : SeedLoop × List Effect :=
  if s.runtime.outcome.isSome then (s, [])
  else
    let r := SourceRuntime.endTurn input.capacity (s.handle cfg input.nowUs input.body)
    (⟨r.1, s.outstanding input.body ++ Effect.spawned r.2⟩, r.2)

/-- **The loop as a machine.** -/
def machine : Machine SeedLoop Input Effect := ⟨step cfg⟩

/-- **No book is stranded**, and the loop knows of its fetches. -/
structure NothingStranded (s : SeedLoop) : Prop where
  /-- A pair that buffers has a fetch in flight. -/
  awaited : ∀ pair b, s.runtime.books.get? pair = some b → b.phase.isBuffering = true →
    pair ∈ s.fetches
  /-- The count is the number of pairs marked seeding. -/
  counted : s.runtime.inFlight = (s.runtime.books.iter.filter (fun e => e.2.seeding)).length
  /-- Whenever a result may come in, the count can go down. -/
  decrement : ∀ pair ∈ s.fetches, 0 < s.runtime.inFlight
  /-- No pair has been re-seeded more often than the budget allows. -/
  budget : ∀ pair b, s.runtime.books.get? pair = some b → b.reseeds ≤ maxReseeds

end SeedLoop

/-! ## What a pair asks for -/

namespace Effect

@[simp] theorem spawned_nil : spawned [] = [] := rfl

@[simp] theorem spawned_append (es es' : List Effect) :
    spawned (es ++ es') = spawned es ++ spawned es' := List.filterMap_append

theorem spawned_cons_of_none {e : Effect} (h : e.spawned? = none) (es : List Effect) :
    spawned (e :: es) = spawned es := List.filterMap_cons_none h

theorem spawned_eq_nil_of_aside {es : List Effect} (h : ∀ e ∈ es, e.aside = true) :
    spawned es = [] := by
  refine List.filterMap_eq_nil_iff.mpr (fun e he => ?_)
  have haside := h e he
  cases e with
  | spawnedSeed pair wire => cases haside
  | _ => rfl

theorem spawned_eq_nil {es : List Effect} (h : ∀ e ∈ es, e.spawned? = none) : spawned es = [] :=
  List.filterMap_eq_nil_iff.mpr h

/-- The count of the fetches that are started. -/
theorem countP_eq_length_spawned (es : List Effect) :
    es.countP (fun e => e matches .spawnedSeed ..) = (spawned es).length := by
  unfold spawned
  rw [List.length_filterMap_eq_countP]
  refine List.countP_congr (fun e _ => ?_)
  cases e <;> exact Iff.rfl

end Effect

namespace PairBook

variable {cfg : RuntimeConfig} {pair : TradingPair} {nowUs : ℕ}

/-- At most one fetch is started, for the pair, where none is in flight; and
the flag tells. -/
def Asks (pair : TradingPair) (seeding : Bool) (b : PairBook) (effects : List Effect) : Prop :=
  (Effect.spawned effects = [] ∧ b.seeding = seeding) ∨
    (Effect.spawned effects = [pair] ∧ seeding = false ∧ b.seeding = true)

/-- A pair that buffers has its flag set, and the budget is kept. -/
structure Awaits (b : PairBook) : Prop where
  seeding : b.phase.isBuffering = true → b.seeding = true
  reseeds : b.reseeds ≤ maxReseeds

theorem gapMetrics_spawned (e : ResyncNeeded) : Effect.spawned (gapMetrics e) = [] := by
  unfold gapMetrics
  split <;> rfl

theorem droppedOldest_spawned (l : List NormalizedDelta) :
    Effect.spawned (l.map (.droppedOldest pair)) = [] := by
  refine Effect.spawned_eq_nil (fun e he => ?_)
  obtain ⟨d, -, rfl⟩ := List.mem_map.mp he
  rfl

/-- What is done besides asking starts no fetch. -/
theorem Asks.of_append {seeding : Bool} {b : PairBook} (es : List Effect) {es' : List Effect}
    (hes : Effect.spawned es = []) (h : Asks pair seeding b es') :
    Asks pair seeding b (es ++ es') := by
  unfold Asks
  rw [Effect.spawned_append, hes]
  exact h

variable (cfg pair) in
theorem asks_requestReseed (b : PairBook) :
    Asks pair b.seeding (b.requestReseed cfg pair).1 (b.requestReseed cfg pair).2 := by
  unfold requestReseed
  split
  · next h => exact .inr ⟨rfl, h.2.1, rfl⟩
  · exact .inl ⟨rfl, rfl⟩

/-- **Who asks within the budget has a fetch in flight afterwards**: one that
was, or a new one. -/
theorem awaits_requestReseed {b : PairBook} (hseeder : cfg.hasSeeder = true)
    (h : b.reseeds < maxReseeds) : Awaits (b.requestReseed cfg pair).1 := by
  unfold requestReseed
  split
  · exact ⟨fun _ => rfl, h⟩
  · next hrefused =>
    have hseeding : b.seeding = true := by
      by_contra hnot
      exact hrefused ⟨hseeder, Bool.eq_false_iff.mpr hnot, h⟩
    exact ⟨fun _ => hseeding, h.le⟩

theorem canReseed_iff {b : PairBook} :
    b.canReseed cfg = true ↔ cfg.hasSeeder = true ∧ b.reseeds < maxReseeds := by
  unfold canReseed
  rw [decide_eq_true_eq]

/-- What a replay leaves: it starts no fetch, and goes back to buffering only
where it may ask for one. -/
structure ReplayAsks (cfg : RuntimeConfig) (b : PairBook) (r : PairBook × List Effect × Replay) :
    Prop where
  spawned : Effect.spawned r.2.1 = []
  seeding : r.1.seeding = b.seeding
  reseed : r.2.2 = .reseed → r.1.canReseed cfg = true
  clean : r.2.2 = .clean → r.1.phase = b.phase ∧ r.1.reseeds = 0

variable (cfg pair nowUs) in
theorem replay_asks (snapId : ℕ) (l : List NormalizedDelta) (b : PairBook) :
    ReplayAsks cfg b (b.replay cfg pair nowUs snapId l) := by
  induction l generalizing b with
  | nil => exact ⟨rfl, rfl, fun h => (by cases h), fun _ => ⟨rfl, rfl⟩⟩
  | cons d rest ih =>
    unfold replay
    split
    · exact ih b
    · split
      · next book output happly =>
        obtain ⟨hspawned, hseeding, hreseed, hclean⟩ := ih (({ b with book := book }).stamp d)
        exact ⟨hspawned, hseeding, hreseed, hclean⟩
      · next book e happly =>
        have hgap : ∀ es, Effect.spawned es = [] →
            Effect.spawned (.applied pair d (.error e) :: gapMetrics e ++ es) = [] := by
          intro es hes
          rw [List.cons_append, Effect.spawned_cons_of_none rfl, Effect.spawned_append,
            gapMetrics_spawned, hes]
          rfl
        dsimp only
        split
        · next hcan =>
          exact ⟨hgap _ (droppedOldest_spawned _), rfl, fun _ => hcan, fun h => (by cases h)⟩
        · exact ⟨hgap _ rfl, rfl, fun h => (by cases h), fun h => (by cases h)⟩

/-- How a pair leaves an input it handles: its flag tells what it asks for,
and unless the run is over it awaits what it buffers for, if it did before. -/
structure Served (pair : TradingPair) (seeding : Bool) (before : Prop) (r : Handled) : Prop where
  asks : Asks pair seeding r.pairBook r.effects
  awaits : before → r.resync = false → Awaits r.pairBook

variable (cfg pair nowUs) in
/-- **A seed** is asked for again where it does not apply or the replay gaps.
Whatever the phase was, the pair then has a fetch in flight or is live. -/
theorem served_applySeed (b : PairBook) (seed : NormalizedDelta) :
    Served pair b.seeding True (b.applySeed cfg pair nowUs seed) := by
  unfold applySeed
  dsimp only
  split
  · next book e happly =>
    split
    · next hcan =>
      obtain ⟨hseeder, hbudget⟩ := canReseed_iff.mp hcan
      exact ⟨.of_append [_, _, _] rfl (asks_requestReseed cfg pair { b with book := book }),
        fun _ _ => awaits_requestReseed hseeder hbudget⟩
    · exact ⟨.inl ⟨rfl, rfl⟩, fun _ h => (by cases h)⟩
  · next book output happly =>
    obtain ⟨hspawned, hseeding, hreseed, hclean⟩ := replay_asks cfg pair nowUs seed.updateId
      b.phase.buffered (({ b with book := book }).stamp (seed.canonical pair)).goLive
    generalize (({ b with book := book }).stamp (seed.canonical pair)).goLive.replay cfg pair nowUs
      seed.updateId b.phase.buffered = r at hspawned hseeding hreseed hclean ⊢
    have heffects : ∀ d output b', Effect.spawned (.applied pair d (.ok output)
        :: emitBook cfg pair nowUs b' :: r.2.1 ++ [.noteLive pair .orders]) = [] := by
      intro d output b'
      show Effect.spawned (r.2.1 ++ [.noteLive pair .orders]) = []
      rw [Effect.spawned_append, hspawned]
      rfl
    split
    · next hend =>
      obtain ⟨hseeder, hbudget⟩ := canReseed_iff.mp (hreseed hend)
      refine ⟨.of_append _ (heffects _ _ _) ?_, fun _ _ => awaits_requestReseed hseeder hbudget⟩
      rw [show b.seeding = r.1.seeding from hseeding.symm]
      exact .of_append [_] rfl (asks_requestReseed cfg pair r.1)
    · next hend =>
      obtain ⟨hphase, hzero⟩ := hclean hend
      refine ⟨.inl ⟨heffects _ _ _, hseeding⟩, fun _ _ => ⟨fun h => ?_, hzero ▸ Nat.zero_le _⟩⟩
      rw [hphase] at h
      cases h
    · exact ⟨.inl ⟨heffects _ _ _, hseeding⟩, fun _ h => (by cases h)⟩

variable (cfg pair nowUs) in
/-- A delta of a live pair. -/
theorem served_applyLive (b : PairBook) (d : NormalizedDelta) :
    Served pair b.seeding (b.phase = .passthrough ∧ b.reseeds ≤ maxReseeds)
      (b.applyLive cfg pair nowUs d) := by
  unfold applyLive
  split
  · next book output happly =>
    refine ⟨.inl ⟨rfl, rfl⟩, fun ⟨hphase, hbudget⟩ _ => ⟨fun h => ?_, hbudget⟩⟩
    have hlive : (({ b with book := book } : PairBook).stamp d).phase = .passthrough := hphase
    rw [hlive] at h
    cases h
  · next book e happly =>
    dsimp only
    have hgap : Effect.spawned (.applied pair d (.error e) :: gapMetrics e) = [] := by
      rw [Effect.spawned_cons_of_none rfl, gapMetrics_spawned]
    split
    · next hcan =>
      obtain ⟨hseeder, hleft⟩ := canReseed_iff.mp hcan
      refine ⟨.of_append _ hgap (.of_append [_] rfl ?_),
        fun _ _ => awaits_requestReseed hseeder hleft⟩
      exact asks_requestReseed cfg pair { b with
        book := book, phase := .buffering [d], bufferingSince := some nowUs }
    · exact ⟨.inl ⟨hgap, rfl⟩, fun _ h => (by cases h)⟩

/-- **A book event** of a pair. -/
theorem served_onBook (b : PairBook) (d : NormalizedDelta) :
    Served pair b.seeding (Awaits b) (b.onBook cfg pair nowUs d) := by
  unfold onBook
  cases hphase : b.phase with
  | buffering buffer =>
    have hseeding : Awaits b → b.seeding = true := fun hb => hb.seeding (by rw [hphase]; rfl)
    dsimp only
    split
    · obtain ⟨hasks, hawaits⟩ := served_applySeed cfg pair nowUs b d
      exact ⟨hasks, fun _ => hawaits trivial⟩
    · unfold pushBuffered
      split
      · exact ⟨.inl ⟨droppedOldest_spawned _, rfl⟩,
          fun hb _ => ⟨fun _ => hseeding hb, hb.reseeds⟩⟩
      · exact ⟨.inl ⟨rfl, rfl⟩, fun hb _ => ⟨fun _ => hseeding hb, hb.reseeds⟩⟩
  | passthrough =>
    obtain ⟨hasks, hawaits⟩ := served_applyLive cfg pair nowUs b d
    exact ⟨hasks, fun hb => hawaits ⟨hphase, hb.reseeds⟩⟩

/-- **The result of a fetch**: the flag is down, and up again where another
fetch is started. A failure without budget ends the run. -/
theorem served_onFetched (b : PairBook) (result : Except String NormalizedDelta) :
    Served pair false (cfg.hasSeeder = true) (b.onFetched cfg pair nowUs result) := by
  unfold onFetched
  dsimp only
  cases result with
  | ok seed =>
    obtain ⟨hasks, hawaits⟩ := served_applySeed cfg pair nowUs
      { b with seeding := false } seed
    exact ⟨hasks, fun _ => hawaits trivial⟩
  | error e =>
    dsimp only
    split
    · next hleft =>
      exact ⟨.of_append [_] rfl (asks_requestReseed cfg pair { b with seeding := false }),
        fun hseeder _ => awaits_requestReseed hseeder hleft⟩
    · exact ⟨.inl ⟨rfl, rfl⟩, fun _ h => (by cases h)⟩

/-- A trade asks for nothing. -/
theorem served_onTrade (b : PairBook) (trade : Trade) (sequence : Option ℕ) :
    Served pair b.seeding (Awaits b) (b.onTrade trade sequence) := by
  refine ⟨.inl ⟨?_, rfl⟩, fun hb _ => ⟨hb.seeding, hb.reseeds⟩⟩
  unfold onTrade
  dsimp only
  rw [Effect.spawned_append, Effect.spawned_append]
  have hexact : Effect.spawned
      (if sequence.isSome then [.metric .tradeLossExact] else []) = [] := by
    split <;> rfl
  rw [hexact]
  cases (b.trades.apply sequence).2 <;> rfl

/-- **Whatever a pair handles**, a result apart, it serves. -/
theorem served_handle (b : PairBook) {i : PairInput} (hi : ∀ result, i ≠ .fetched result) :
    Served pair b.seeding (Awaits b) (b.handle cfg pair nowUs i) := by
  cases i with
  | book delta => exact served_onBook b delta
  | fetched result => exact absurd rfl (hi result)
  | trade trade sequence => exact served_onTrade b trade sequence

end PairBook

/-! ## The flags, the count and the tasks -/

namespace SourceRuntime

variable {cfg : RuntimeConfig} {s : SourceRuntime} {fetches : List TradingPair}

/-- **The flags and the count are right about the tasks**: there is one task
for every pair marked, and none besides. -/
structure Tracks (s : SourceRuntime) (fetches : List TradingPair) : Prop where
  nodup : fetches.Nodup
  mem_iff : ∀ pair, pair ∈ fetches ↔ s.fetching pair = true
  count : s.inFlight = fetches.length

/-- Every pair awaits what it buffers for. -/
def AllAwait (s : SourceRuntime) : Prop :=
  ∀ pair b, s.books.get? pair = some b → b.Awaits

/-- What handing an input to a tracked pair comes to. -/
theorem onPair_of_get? {pair : TradingPair} {b : PairBook} (handle : PairBook → Handled)
    (hb : s.books.get? pair = some b) :
    s.onPair pair handle
      = ({ s with
            books := s.books.insert pair (handle b).pairBook
            inFlight := s.inFlight + (Effect.spawned (handle b).effects).length
            outcome := if (handle b).resync then some .resyncRequired else s.outcome },
          (handle b).effects) := by
  unfold onPair
  rw [← Effect.countP_eq_length_spawned]
  split
  · next hnone => cases hb.symm.trans hnone
  · next b' hb' =>
    obtain rfl := Option.some.inj (hb.symm.trans hb')
    rfl

theorem fetching_iff {pair : TradingPair} :
    s.fetching pair = true ↔ ∃ b, s.books.get? pair = some b ∧ b.seeding = true := by
  unfold fetching
  cases s.books.get? pair with
  | none => exact iff_of_false (fun h => by cases h) (fun ⟨_, h, _⟩ => by cases h)
  | some b =>
    rw [Option.any_some]
    exact ⟨fun h => ⟨b, rfl, h⟩, fun ⟨b', hb', h⟩ => Option.some.inj hb' ▸ h⟩

theorem fetching_insert (books : HashMap TradingPair PairBook) (pair other : TradingPair)
    (b : PairBook) (inFlight : ℕ) (eventsDone : Bool) (outcome : Option RuntimeOutcome) :
    fetching ⟨books.insert pair b, inFlight, eventsDone, outcome⟩ other
      = if other = pair then b.seeding else (books.get? other).any (·.seeding) := by
  unfold fetching
  dsimp only
  rw [HashMap.get?_insert]
  split <;> rfl

/-- **A pair that serves an input keeps the flags and the count right.** The
flag it is served under may differ from the one it has: a result that is
received takes its task along. -/
theorem tracks_onPair {pair : TradingPair} {b : PairBook} {seeding : Bool} {before : Prop}
    {handle : PairBook → Handled} (hb : s.books.get? pair = some b)
    (hserved : PairBook.Served pair seeding before (handle b)) (hnodup : fetches.Nodup)
    (hother : ∀ other, other ≠ pair → (other ∈ fetches ↔ s.fetching other = true))
    (hpair : pair ∈ fetches ↔ seeding = true) (hcount : s.inFlight = fetches.length) :
    Tracks (s.onPair pair handle).1 (fetches ++ Effect.spawned (s.onPair pair handle).2) := by
  rw [onPair_of_get? handle hb]
  dsimp only
  rcases hserved.asks with ⟨hspawned, hflag⟩ | ⟨hspawned, hdown, hflag⟩
  · rw [hspawned, List.append_nil]
    refine ⟨hnodup, fun other => ?_, hcount⟩
    rw [fetching_insert]
    split
    · next heq => rw [heq, hflag, hpair]
    · next hne => exact hother other hne
  · rw [hspawned]
    have hnot : pair ∉ fetches := fun hmem => absurd (hpair.mp hmem) (by rw [hdown]; decide)
    refine ⟨?_, fun other => ?_, ?_⟩
    · refine List.nodup_append.mpr ⟨hnodup, List.nodup_singleton pair, fun a ha c hc hac => ?_⟩
      exact hnot (List.mem_singleton.mp hc ▸ hac ▸ ha)
    · rw [fetching_insert, List.mem_append, List.mem_singleton]
      split
      · next heq => exact iff_of_true (.inr heq) hflag
      · next hne => exact (or_iff_left hne).trans (hother other hne)
    · rw [hcount, List.length_append]

/-- A pair that serves an input awaits, and the others do as before. -/
theorem allAwait_onPair {pair : TradingPair} {seeding : PairBook → Bool} {before : PairBook → Prop}
    {handle : PairBook → Handled}
    (hserved : ∀ b, PairBook.Served pair (seeding b) (before b) (handle b))
    (hbefore : ∀ b, s.books.get? pair = some b → before b) (hs : AllAwait s)
    (hout : (s.onPair pair handle).1.outcome = none) : AllAwait (s.onPair pair handle).1 := by
  cases hb : s.books.get? pair with
  | none =>
    have hsame : s.onPair pair handle = (s, []) := by
      unfold onPair
      rw [hb]
    rw [hsame]
    exact hs
  | some b =>
    rw [onPair_of_get? handle hb] at hout ⊢
    have hgoes : (handle b).resync = false := by
      by_contra h
      dsimp only at hout
      rw [if_pos (Bool.eq_true_of_not_eq_false h)] at hout
      cases hout
    intro other b' hb'
    rw [HashMap.get?_insert] at hb'
    split at hb'
    · cases hb'
      exact (hserved b).awaits (hbefore b hb) hgoes
    · exact hs other b' hb'

/-- The result of a fetch for a pair that is tracked is handed to the pair. -/
theorem onSeedResult_of_get? {pair : TradingPair} {b : PairBook}
    (hb : s.books.get? pair = some b) (nowUs : ℕ) (result : Except String NormalizedDelta) :
    s.onSeedResult cfg nowUs pair result
      = { s with inFlight := s.inFlight - 1 }.onPair pair
          (fun b => b.onFetched cfg pair nowUs result) := by
  unfold onSeedResult
  dsimp only
  rw [hb]

/-- A run that goes on has nothing to look after at the end of a turn. -/
theorem endTurn_of_goesOn {capacity : Option ℕ} {r : SourceRuntime × List Effect}
    (h : (endTurn capacity r).1.outcome = none) : endTurn capacity r = r := by
  have hsettle : r.1.settle.outcome = none → (r.1.settle, r.2 ++ r.1.settle.abandoned) = r := by
    intro hout
    have hsame : r.1.settle = r.1 := by
      unfold settle at hout ⊢
      split
      · next hover =>
        rw [if_pos hover] at hout
        cases hout
      · rfl
    rw [hsame] at hout ⊢
    unfold abandoned
    rw [hout, if_neg (fun hover => by cases hover.1), List.append_nil]
  unfold endTurn at h ⊢
  dsimp only at h ⊢
  split
  · exact hsettle h
  · next n =>
    dsimp only at h
    split
    · next hfits =>
      rw [if_pos hfits] at h
      exact hsettle h
    · next hhangs =>
      rw [if_neg hhangs] at h
      cases h

/-- A turn of the machine ends like a turn of the loop. -/
theorem step_eq_endTurn {s : SourceRuntime} (hs : s.outcome = none) (input : Input) :
    s.step cfg input = endTurn input.capacity (s.handle cfg input.nowUs input.body) := by
  unfold step
  rw [hs, if_neg (by decide)]
  rfl

end SourceRuntime

namespace SeedLoop

open SourceRuntime (Tracks AllAwait)

variable {cfg : RuntimeConfig} {s : SeedLoop} {nowUs : ℕ}

/-- **An input keeps the flags and the count right about the tasks.** -/
theorem tracks_handle (hs : Tracks s.runtime s.fetches) (body : InputBody)
    (hout : (s.handle cfg nowUs body).1.outcome = none) :
    Tracks (s.handle cfg nowUs body).1
      (s.outstanding body ++ Effect.spawned (s.handle cfg nowUs body).2) := by
  by_cases hbody : ∃ pair result, body = .fetched pair result
  · obtain ⟨pair, result, rfl⟩ := hbody
    unfold handle outstanding
    dsimp only
    split
    · next hmem =>
      -- the result takes its task along, and the flag with it
      obtain ⟨b, hb, -⟩ := SourceRuntime.fetching_iff.mp ((hs.mem_iff pair).mp hmem)
      rw [SourceRuntime.onSeedResult_of_get? hb]
      refine SourceRuntime.tracks_onPair (s := { s.runtime with
        inFlight := s.runtime.inFlight - 1 }) hb (PairBook.served_onFetched b result)
        (hs.nodup.erase pair) (fun other hne => ?_) ?_ ?_
      · rw [List.mem_erase_of_ne hne]
        exact hs.mem_iff other
      · exact iff_of_false hs.nodup.not_mem_erase (by decide)
      · rw [List.length_erase_of_mem hmem, ← hs.count]
    · next hmem =>
      rw [Effect.spawned_nil, List.append_nil, List.erase_of_not_mem hmem]
      exact hs
  · have hne : ∀ pair result, body ≠ .fetched pair result := fun p r h => hbody ⟨p, r, h⟩
    have hrest : s.handle cfg nowUs body = s.runtime.handle cfg nowUs body ∧
        s.outstanding body = s.fetches := by
      cases body with
      | fetched pair result => exact absurd rfl (hne pair result)
      | _ => exact ⟨rfl, rfl⟩
    rw [hrest.1] at hout ⊢
    rw [hrest.2]
    rcases s.runtime.handle_cases cfg nowUs body with ⟨n, pair, i, hn, hi, heq⟩ |
      ⟨done, es, hes, heq⟩ | hover
    · have hother : ∀ result, i ≠ .fetched result := fun result h => hne _ _ (hi result h)
      rw [heq, hn hother]
      cases hb : s.runtime.books.get? pair with
      | none =>
        unfold SourceRuntime.onPair
        dsimp only
        rw [hb, Effect.spawned_nil, List.append_nil]
        exact hs
      | some b =>
        refine SourceRuntime.tracks_onPair hb (PairBook.served_handle b hother) hs.nodup
          (fun other _ => hs.mem_iff other) ?_ hs.count
        rw [hs.mem_iff pair]
        unfold SourceRuntime.fetching
        rw [hb]
        exact Iff.rfl
    · rw [heq, Effect.spawned_eq_nil_of_aside hes, List.append_nil]
      exact ⟨hs.nodup, hs.mem_iff, hs.count⟩
    · exact absurd hout hover

/-- **And every pair awaiting**, where there is a seeder. -/
theorem allAwait_handle (hseeder : cfg.hasSeeder = true) (hs : AllAwait s.runtime)
    (body : InputBody) (hout : (s.handle cfg nowUs body).1.outcome = none) :
    AllAwait (s.handle cfg nowUs body).1 := by
  by_cases hbody : ∃ pair result, body = .fetched pair result
  · obtain ⟨pair, result, rfl⟩ := hbody
    unfold handle at hout ⊢
    dsimp only at hout ⊢
    split
    · next hmem =>
      rw [if_pos hmem] at hout
      cases hb : s.runtime.books.get? pair with
      | some b =>
        rw [SourceRuntime.onSeedResult_of_get? hb] at hout ⊢
        exact SourceRuntime.allAwait_onPair (fun b => PairBook.served_onFetched b result)
          (fun _ _ => hseeder) hs hout
      | none =>
        unfold SourceRuntime.onSeedResult
        dsimp only
        rw [hb]
        cases result <;> exact hs
    · exact hs
  · have hne : ∀ pair result, body ≠ .fetched pair result := fun p r h => hbody ⟨p, r, h⟩
    have hrest : s.handle cfg nowUs body = s.runtime.handle cfg nowUs body := by
      cases body with
      | fetched pair result => exact absurd rfl (hne pair result)
      | _ => rfl
    rw [hrest] at hout ⊢
    rcases s.runtime.handle_cases cfg nowUs body with ⟨n, pair, i, hn, hi, heq⟩ |
      ⟨done, es, hes, heq⟩ | hover
    · have hother : ∀ result, i ≠ .fetched result := fun result h => hne _ _ (hi result h)
      rw [heq, hn hother] at hout ⊢
      exact SourceRuntime.allAwait_onPair (fun b => PairBook.served_handle b hother)
        (fun b hb => hs pair b hb) hs hout
    · rw [heq]
      exact hs
    · exact absurd hout hover

/-- A turn after which the run goes on is what its input does. -/
theorem step_of_goesOn {input : Input} (hs : s.runtime.outcome = none)
    (hout : (s.step cfg input).1.runtime.outcome = none) :
    (s.handle cfg input.nowUs input.body).1.outcome = none ∧
      (s.step cfg input).1 = ⟨(s.handle cfg input.nowUs input.body).1,
        s.outstanding input.body ++ Effect.spawned (s.handle cfg input.nowUs input.body).2⟩ := by
  unfold step at hout ⊢
  rw [hs, if_neg (by decide)] at hout ⊢
  dsimp only at hout ⊢
  have hend := SourceRuntime.endTurn_of_goesOn hout
  rw [hend] at hout ⊢
  exact ⟨hout, rfl⟩

/-- A run that is over stays so. -/
theorem outcome_of_step {input : Input} (hout : (s.step cfg input).1.runtime.outcome = none) :
    s.runtime.outcome = none := by
  by_contra h
  unfold step at hout
  rw [if_pos (Option.isSome_iff_ne_none.mpr h)] at hout
  exact h hout

/-! ## Where the loop starts -/

theorem tracks_start (cfg : RuntimeConfig) (hasher : RandomState TradingPair) (nowUs : ℕ)
    (wireSymbols : List String) :
    Tracks (start cfg hasher nowUs wireSymbols).runtime
      (start cfg hasher nowUs wireSymbols).fetches := by
  have hidle : ∀ pair, (SourceRuntime.new cfg hasher nowUs wireSymbols).get? pair = none ∨
      ∃ wire, (SourceRuntime.new cfg hasher nowUs wireSymbols).get? pair
        = some (PairBook.new cfg pair nowUs wire) := by
    intro pair
    cases hb : (SourceRuntime.new cfg hasher nowUs wireSymbols).get? pair with
    | none => exact .inl rfl
    | some b =>
      obtain ⟨wire, rfl⟩ := SourceRuntime.new_get? hb
      exact .inr ⟨wire, rfl⟩
  unfold start SourceRuntime.start
  dsimp only
  generalize SourceRuntime.new cfg hasher nowUs wireSymbols = books at hidle ⊢
  have hnone : ∀ f : PairBook → PairBook, (∀ b, (f b).seeding = b.seeding) →
      Tracks ⟨books.mapValues (fun _ => f), 0, false, none⟩ [] := by
    intro f hf
    refine ⟨List.nodup_nil, fun pair => iff_of_false List.not_mem_nil (fun h => ?_), rfl⟩
    unfold SourceRuntime.fetching at h
    dsimp only at h
    rw [HashMap.get?_mapValues] at h
    rcases hidle pair with hb | ⟨wire, hb⟩
    · rw [hb] at h
      cases h
    · rw [hb, Option.map_some, Option.any_some, hf] at h
      cases h
  split
  · split
    · have hkeys : Effect.spawned (books.iter.map (fun pb => .spawnedSeed pb.1 pb.2.wire))
          = books.keys := by
        rw [← HashMap.map_fst_iter]
        unfold Effect.spawned
        rw [List.filterMap_map]
        show books.iter.filterMap (some ∘ Prod.fst) = _
        rw [List.filterMap_eq_map]
      rw [hkeys]
      refine ⟨books.keys_nodup, fun pair => ?_, rfl⟩
      rw [HashMap.mem_keys]
      unfold SourceRuntime.fetching
      dsimp only
      rw [HashMap.get?_mapValues]
      cases books.get? pair with
      | none => exact iff_of_false (fun ⟨_, h⟩ => by cases h) (fun h => by cases h)
      | some b => exact iff_of_true ⟨b, rfl⟩ rfl
    · exact hnone _ (fun b => rfl)
  · refine ⟨List.nodup_nil, fun pair => iff_of_false List.not_mem_nil (fun h => ?_), rfl⟩
    unfold SourceRuntime.fetching at h
    dsimp only at h
    rcases hidle pair with hb | ⟨wire, hb⟩
    · rw [hb] at h
      cases h
    · rw [hb] at h
      cases h

/-- A REST-seeded runtime with a seeder marks every pair at the start. -/
theorem allAwait_start (hrest : cfg.needsRest = true) (hseeder : cfg.hasSeeder = true)
    (hasher : RandomState TradingPair) (nowUs : ℕ) (wireSymbols : List String) :
    AllAwait (start cfg hasher nowUs wireSymbols).runtime := by
  intro pair b hb
  unfold start SourceRuntime.start at hb
  dsimp only at hb
  rw [if_pos hrest, if_pos hseeder] at hb
  dsimp only at hb
  rw [HashMap.get?_mapValues] at hb
  obtain ⟨b', hb', rfl⟩ := Option.map_eq_some_iff.mp hb
  obtain ⟨wire, rfl⟩ := SourceRuntime.new_get? hb'
  exact ⟨fun _ => rfl, Nat.zero_le _⟩

/-! ## Runs -/

/-- **The flags and the count are right all along a run**, of whatever venue. -/
theorem tracks_run (inputs : List Input)
    (hs : s.runtime.outcome = none → Tracks s.runtime s.fetches)
    (hout : ((machine cfg).run s inputs).1.runtime.outcome = none) :
    Tracks ((machine cfg).run s inputs).1.runtime ((machine cfg).run s inputs).1.fetches := by
  induction inputs generalizing s with
  | nil => exact hs hout
  | cons input inputs ih =>
    refine ih (fun hnext => ?_) hout
    have hbefore := outcome_of_step hnext
    obtain ⟨hgoes, heq⟩ := step_of_goesOn hbefore hnext
    show Tracks (s.step cfg input).1.runtime (s.step cfg input).1.fetches
    rw [heq]
    exact tracks_handle (hs hbefore) input.body hgoes

theorem allAwait_run (hseeder : cfg.hasSeeder = true) (inputs : List Input)
    (hs : s.runtime.outcome = none → AllAwait s.runtime)
    (hout : ((machine cfg).run s inputs).1.runtime.outcome = none) :
    AllAwait ((machine cfg).run s inputs).1.runtime := by
  induction inputs generalizing s with
  | nil => exact hs hout
  | cons input inputs ih =>
    refine ih (fun hnext => ?_) hout
    have hbefore := outcome_of_step hnext
    obtain ⟨hgoes, heq⟩ := step_of_goesOn hbefore hnext
    show AllAwait (s.step cfg input).1.runtime
    rw [heq]
    exact allAwait_handle hseeder (hs hbefore) input.body hgoes

/-- **This loop is the machine of the runtime**: as a result is received where
there is a task for it and taken where the flag is set, the two do and write
the same on any inputs. -/
theorem runtime_run (inputs : List Input)
    (hs : s.runtime.outcome = none → Tracks s.runtime s.fetches) :
    ((machine cfg).run s inputs).1.runtime
        = ((SourceRuntime.machine cfg).run s.runtime inputs).1 ∧
      ((machine cfg).run s inputs).2 = ((SourceRuntime.machine cfg).run s.runtime inputs).2 := by
  induction inputs generalizing s with
  | nil => exact ⟨rfl, rfl⟩
  | cons input inputs ih =>
    have hstep : (s.step cfg input).1.runtime = (s.runtime.step cfg input).1 ∧
        (s.step cfg input).2 = (s.runtime.step cfg input).2 := by
      by_cases hout : s.runtime.outcome = none
      · have htracks := hs hout
        have hhandle : s.handle cfg input.nowUs input.body
            = s.runtime.handle cfg input.nowUs input.body := by
          obtain ⟨body, nowUs, capacity⟩ := input
          cases body with
          | fetched pair result =>
            show (if pair ∈ s.fetches then _ else _) = if s.runtime.fetching pair then _ else _
            refine if_ctx_congr (htracks.mem_iff pair) (fun hfetch => ?_) (fun _ => rfl)
            obtain ⟨b, hb, -⟩ := SourceRuntime.fetching_iff.mp hfetch
            exact SourceRuntime.onSeedResult_of_get? hb nowUs result
          | _ => rfl
        rw [SourceRuntime.step_eq_endTurn hout]
        unfold step
        rw [hout, if_neg (by decide), hhandle]
        exact ⟨rfl, rfl⟩
      · have hover := Option.isSome_iff_ne_none.mpr hout
        unfold step SourceRuntime.step
        rw [if_pos hover, if_pos hover]
        exact ⟨rfl, rfl⟩
    have hnext := ih (s := (s.step cfg input).1) (fun hnext => ?_)
    · show ((machine cfg).run (s.step cfg input).1 inputs).1.runtime
          = ((SourceRuntime.machine cfg).run (s.runtime.step cfg input).1 inputs).1 ∧
        (s.step cfg input).2 ++ ((machine cfg).run (s.step cfg input).1 inputs).2
          = (s.runtime.step cfg input).2
            ++ ((SourceRuntime.machine cfg).run (s.runtime.step cfg input).1 inputs).2
      rw [← hstep.1, ← hstep.2, hnext.2]
      exact ⟨hnext.1, rfl⟩
    · have hbefore := outcome_of_step hnext
      obtain ⟨hgoes, heq⟩ := step_of_goesOn hbefore hnext
      rw [heq]
      exact tracks_handle (hs hbefore) input.body hgoes

/-- What is tracked and awaited strands no book. -/
theorem nothingStranded (hs : Tracks s.runtime s.fetches) (hawait : AllAwait s.runtime) :
    s.NothingStranded where
  awaited pair b hb hphase :=
    (hs.mem_iff pair).mpr
      (SourceRuntime.fetching_iff.mpr ⟨b, hb, (hawait pair b hb).seeding hphase⟩)
  counted := by
    have hnodup : ((s.runtime.books.iter.filter (fun e => e.2.seeding)).map Prod.fst).Nodup := by
      have hkeys : (s.runtime.books.iter.map Prod.fst).Nodup :=
        s.runtime.books.map_fst_iter ▸ s.runtime.books.keys_nodup
      exact hkeys.sublist (List.filter_sublist.map _)
    have hperm := (List.perm_ext_iff_of_nodup hs.nodup hnodup).mpr (fun pair => ?_)
    · rw [hs.count, hperm.length_eq, List.length_map]
    · rw [hs.mem_iff, SourceRuntime.fetching_iff, List.mem_map]
      constructor
      · rintro ⟨b, hb, hseeding⟩
        exact ⟨(pair, b), List.mem_filter.mpr ⟨HashMap.mem_iter.mpr hb, hseeding⟩, rfl⟩
      · rintro ⟨⟨pair', b⟩, hmem, rfl⟩
        obtain ⟨hmem, hseeding⟩ := List.mem_filter.mp hmem
        exact ⟨b, HashMap.mem_iter.mp hmem, hseeding⟩
  decrement pair hpair := by
    rw [hs.count]
    exact List.length_pos_of_mem hpair
  budget pair b hb := (hawait pair b hb).reseeds

/-- **No stranded book.** In every run of a REST-seeded runtime with a seeder,
whatever comes in and in whatever order, as long as the run has not ended:
every pair that buffers has a fetch in flight, the count is the number of pairs
marked seeding and can go down whenever a result comes in, and no pair is past
its budget. -/
theorem no_stranded_book (hrest : cfg.needsRest = true) (hseeder : cfg.hasSeeder = true)
    (hasher : RandomState TradingPair) (nowUs : ℕ) (wireSymbols : List String)
    (inputs : List Input)
    (hout : ((machine cfg).run (start cfg hasher nowUs wireSymbols) inputs).1.runtime.outcome
      = none) :
    ((machine cfg).run (start cfg hasher nowUs wireSymbols) inputs).1.NothingStranded :=
  nothingStranded (tracks_run inputs (fun _ => tracks_start cfg hasher nowUs wireSymbols) hout)
    (allAwait_run hseeder inputs
      (fun _ => allAwait_start hrest hseeder hasher nowUs wireSymbols) hout)

/-- A gap of a live book, met while the last fetch is still out: a snapshot of
the stream seeded the pair before its fetch came back. -/
def gapWhileFetching : List Input :=
  [{ body := .event (.book (.snap 10 [("1", "1")] [("2", "1")])) }, .frame 20 21 [("1", "2")] []]

/-- **The pair buffers again and has its fetch**, the one of the start. -/
theorem no_stranded_book_gapWhileFetching :
    ((machine .restVenue).run (start .restVenue .table 0 ["BTCUSDT"])
        gapWhileFetching).1.NothingStranded ∧
      ((machine .restVenue).run (start .restVenue .table 0 ["BTCUSDT"])
        gapWhileFetching).1.fetches = [⟨"BTC", "USDT"⟩] ∧
      (((machine .restVenue).run (start .restVenue .table 0 ["BTCUSDT"])
        gapWhileFetching).1.runtime.books.values.map (fun b => b.phase.isBuffering)) = [true] :=
  ⟨no_stranded_book (by decide) (by decide) _ _ _ _ (by decide), by decide,
    by decide⟩

end SeedLoop
