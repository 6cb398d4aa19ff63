import Aetelier.FeedSet
import Aetelier.SeedFetches
import Aetelier.BookStates
import Mathlib.Data.List.Induction

/-!
# The feeds of a running connection

While a connection runs, its runtime marks the feeds. The first event of an
instrument and datatype marks its feed live, and to keep the lock off the hot
path a cache remembers for which this was done. A gap of a book marks the
orders feed resubscribing and takes the pair out of the cache. A sweep marks a
feed stale that has been silent for twice the cadence its venue declares.

Nothing in a feed says what state its book is in. What ties the two is the
order in which the runtime speaks: it says live only of a book that is left
synced and past its buffer, and whatever else becomes of a book is followed by
a word of resubscribing or ends the run (`PairBook.Tells`). That is kept by
every turn and every sweep, `FeedRuntime.sound_step`.
-/

namespace Telemetry

/-- **What does not change during a run**: what the runtime is given, and for
each datatype the cadence its venue guarantees, in microseconds. -/
structure FeedConfig where
  runtime : RuntimeConfig
  cadence : FeedDatatype → Option ℕ

/-- How many cadences of silence make a feed stale. -/
def staleCadenceMultiple : ℕ := 2

/-- **A runtime with feeds attached.** -/
structure FeedRuntime where
  runtime : SourceRuntime
  feeds : FeedSet
  /-- The pairs that were marked live, for each datatype. -/
  wasLive : FeedDatatype → List TradingPair
  /-- The last event of each instrument and datatype with a cadence. -/
  lastSeen : HashMap (TradingPair × FeedDatatype) ℕ

/-- What reaches a runtime with feeds. -/
inductive FeedInput where
  /-- An input of the loop. -/
  | turn (input : Input)
  /-- The tick of the sweep. -/
  | cadenceSweep (nowUs : ℕ)

namespace FeedRuntime

variable (cfg : FeedConfig)

/-- A runtime before its loop, attached to the feeds of its worker. -/
def start (hasher : RandomState TradingPair) (seenHasher : RandomState (TradingPair × FeedDatatype))
    (nowUs : ℕ) (wireSymbols : List String) (feeds : FeedSet) : FeedRuntime where
  runtime := (SourceRuntime.start cfg.runtime hasher nowUs wireSymbols).1
  feeds := feeds
  wasLive _ := []
  lastSeen := .empty seenHasher

/-- `note_live`: the feed is marked at the first event, and at every event
where silence is watched for. -/
def noteLive (nowUs : ℕ) (s : FeedRuntime) (pair : TradingPair) (datatype : FeedDatatype) :
    FeedRuntime × List FeedTransition :=
  let watched := (cfg.cadence datatype).isSome
  let s := if watched then { s with lastSeen := s.lastSeen.insert (pair, datatype) nowUs } else s
  if pair ∈ s.wasLive datatype then
    if watched then
      let r := s.feeds.markLive pair datatype
      ({ s with feeds := r.1 }, r.2)
    else (s, [])
  else
    let r := s.feeds.markLive pair datatype
    ({ s with
        wasLive := Function.update s.wasLive datatype (pair :: s.wasLive datatype)
        feeds := r.1 }, r.2)

/-- `note_resubscribing`. -/
def noteResubscribing (s : FeedRuntime) (pair : TradingPair) :
    FeedRuntime × List FeedTransition :=
  let r := s.feeds.markResubscribing pair .orders
  ({ s with
      wasLive := Function.update s.wasLive .orders
        ((s.wasLive .orders).filter (fun p => decide (p ≠ pair)))
      feeds := r.1 }, r.2)

/-- What an effect of the runtime does to the feeds. -/
def note (nowUs : ℕ) (s : FeedRuntime) : Effect → FeedRuntime × List FeedTransition
  | .noteLive pair datatype => s.noteLive cfg nowUs pair datatype
  | .noteResubscribing pair => s.noteResubscribing pair
  | _ => (s, [])

/-- The effects of a turn, one after the other. -/
def notes (nowUs : ℕ) : Machine FeedRuntime Effect FeedTransition := ⟨note cfg nowUs⟩

/-- The feeds that have been silent for too long. -/
def overdue (s : FeedRuntime) (nowUs : ℕ) : List (TradingPair × FeedDatatype) :=
  (s.lastSeen.iter.filter (fun e => (cfg.cadence e.1.2).any (fun cadence =>
    decide (cadence * staleCadenceMultiple < nowUs - e.2)))).map Prod.fst

/-- The marks of a sweep, one after the other. -/
def sweeper : Machine FeedSet (TradingPair × FeedDatatype) FeedTransition :=
  ⟨fun fs key => fs.markStale key.1 key.2⟩

/-- `sweep_stale_datatypes`. -/
def sweepStaleDatatypes (s : FeedRuntime) (nowUs : ℕ) : FeedRuntime × List FeedTransition :=
  let r := sweeper.run s.feeds (s.overdue cfg nowUs)
  ({ s with feeds := r.1 }, r.2)

/-- **A turn of the loop, or a sweep.** A run that is over sweeps no more. -/
def step (s : FeedRuntime) : FeedInput → FeedRuntime × List FeedTransition
  | .turn input =>
    let r := s.runtime.step cfg.runtime input
    (notes cfg input.nowUs).run { s with runtime := r.1 } r.2
  | .cadenceSweep nowUs =>
    if s.runtime.outcome.isSome then (s, []) else s.sweepStaleDatatypes cfg nowUs

end FeedRuntime

/-- What the orders feed of a pair says is true of the pair. -/
structure OrdersAgree (b? : Option PairBook) (state : FeedState) : Prop where
  /-- A feed that has been live since its last gap is of a pair that applies its
  deltas, to a synced book. -/
  live : state = .live ∨ state = .stale →
    ∃ b, b? = some b ∧ b.phase = .passthrough ∧ b.book.state = .synced
  /-- A pair that buffers waits under a feed that is being subscribed. -/
  buffering : ∀ b, b? = some b → b.phase.isBuffering = true →
    state = .subscribing ∨ state = .resubscribing

/-- **Telemetry agrees with the books.** -/
def FeedRuntime.Agrees (s : FeedRuntime) : Prop :=
  ∀ f ∈ s.feeds.feeds, f.datatype = .orders →
    OrdersAgree (s.runtime.books.get? f.instrument) f.state

end Telemetry

/-! ## What a turn says of a book -/

/-- A word on an orders feed. -/
inductive OrdersNote where
  | live
  | resubscribing
deriving DecidableEq

namespace Effect

/-- The pair whose orders feed an effect is a word on. -/
def ordersNote? : Effect → Option (TradingPair × OrdersNote)
  | noteLive pair .orders => some (pair, .live)
  | noteResubscribing pair => some (pair, .resubscribing)
  | _ => none

/-- The words on orders feeds. -/
def ordersNotes (effects : List Effect) : List (TradingPair × OrdersNote) :=
  effects.filterMap ordersNote?

@[simp] theorem ordersNotes_append (es es' : List Effect) :
    ordersNotes (es ++ es') = ordersNotes es ++ ordersNotes es' := List.filterMap_append

theorem ordersNotes_eq_nil {es : List Effect} (h : ∀ e ∈ es, e.ordersNote? = none) :
    ordersNotes es = [] := List.filterMap_eq_nil_iff.mpr h

theorem ordersNotes_eq_nil_of_aside {es : List Effect} (h : ∀ e ∈ es, e.aside = true) :
    ordersNotes es = [] := by
  refine ordersNotes_eq_nil (fun e he => ?_)
  have haside := h e he
  cases e with
  | noteLive pair datatype =>
    cases datatype with
    | orders => cases haside
    | _ => rfl
  | noteResubscribing pair => cases haside
  | _ => rfl

end Effect

namespace PairBook

variable {cfg : RuntimeConfig} {pair : TradingPair} {nowUs : ℕ}

/-- **What a pair says of itself**: nothing, and is as it was; or that it is
live, and is past its buffer with a synced book; or, last, that it
resubscribes – unless the run is over. -/
inductive Tells (pair : TradingPair) (b : PairBook) (r : Handled) : Prop where
  | nothing (notes : Effect.ordersNotes r.effects = [])
      (phase : r.pairBook.phase.isBuffering = b.phase.isBuffering)
      (state : r.pairBook.book.state = b.book.state)
  | live (notes : Effect.ordersNotes r.effects = [(pair, .live)])
      (phase : r.pairBook.phase = .passthrough) (state : r.pairBook.book.state = .synced)
  | resubscribing (before : List OrdersNote)
      (notes : Effect.ordersNotes r.effects
        = before.map (pair, ·) ++ [(pair, .resubscribing)])
  | ends (resync : r.resync = true)

theorem gapMetrics_ordersNotes (e : ResyncNeeded) : Effect.ordersNotes (gapMetrics e) = [] := by
  unfold gapMetrics
  split <;> rfl

theorem droppedOldest_ordersNotes (l : List NormalizedDelta) :
    Effect.ordersNotes (l.map (.droppedOldest pair)) = [] := by
  refine Effect.ordersNotes_eq_nil (fun e he => ?_)
  obtain ⟨d, -, rfl⟩ := List.mem_map.mp he
  rfl

theorem requestReseed_ordersNotes (b : PairBook) :
    Effect.ordersNotes (b.requestReseed cfg pair).2 = [] := by
  unfold requestReseed
  split <;> rfl

/-- A book that applied an update is synced. -/
theorem synced_of_apply {sb sb' : SourcedOrderbook} {d : NormalizedDelta} {output : BookOutput}
    (h : sb.apply cfg.crates cfg.unicode d = (sb', .ok output)) : sb'.state = .synced := by
  have hstate := SourcedOrderbook.state_apply (x := cfg.crates) (u := cfg.unicode) sb d
  rw [h] at hstate
  exact hstate

variable (cfg pair nowUs) in
/-- A replay says nothing, and if it ends clean the book is as synced as it
was. -/
theorem replay_tells (snapId : ℕ) (l : List NormalizedDelta) (b : PairBook)
    (hb : b.book.state = .synced) :
    Effect.ordersNotes (b.replay cfg pair nowUs snapId l).2.1 = [] ∧
      ((b.replay cfg pair nowUs snapId l).2.2 = .clean →
        (b.replay cfg pair nowUs snapId l).1.phase = b.phase ∧
          (b.replay cfg pair nowUs snapId l).1.book.state = .synced) := by
  induction l generalizing b with
  | nil => exact ⟨rfl, fun _ => ⟨rfl, hb⟩⟩
  | cons d rest ih =>
    unfold replay
    split
    · exact ih b hb
    · split
      · next book output happly =>
        exact ih (({ b with book := book }).stamp d) (synced_of_apply happly)
      · next book e happly =>
        have hgap : ∀ es, Effect.ordersNotes es = [] →
            Effect.ordersNotes (.applied pair d (.error e) :: gapMetrics e ++ es) = [] := by
          intro es hes
          show Effect.ordersNotes (gapMetrics e ++ es) = []
          rw [Effect.ordersNotes_append, gapMetrics_ordersNotes, hes]
          rfl
        dsimp only
        split
        · exact ⟨hgap _ (droppedOldest_ordersNotes _), fun h => (by cases h)⟩
        · exact ⟨hgap _ rfl, fun h => (by cases h)⟩

variable (cfg pair nowUs) in
/-- **A seed.** -/
theorem tells_applySeed (b : PairBook) (seed : NormalizedDelta) :
    Tells pair b (b.applySeed cfg pair nowUs seed) := by
  unfold applySeed
  dsimp only
  split
  · next book e happly =>
    split
    · refine .resubscribing [] ?_
      show (pair, OrdersNote.resubscribing) :: Effect.ordersNotes (requestReseed _ _ _).2 = _
      rw [requestReseed_ordersNotes]
      rfl
    · exact .ends rfl
  · next book output happly =>
    obtain ⟨hnotes, hclean⟩ := replay_tells cfg pair nowUs seed.updateId
      b.phase.buffered
      (({ b with book := book }).stamp (seed.canonical pair)).goLive (synced_of_apply happly)
    generalize (({ b with book := book }).stamp (seed.canonical pair)).goLive.replay cfg pair nowUs
      seed.updateId b.phase.buffered = r at hnotes hclean ⊢
    have heffects : ∀ d b', Effect.ordersNotes (.applied pair d (.ok output)
        :: emitBook cfg pair nowUs b' :: r.2.1 ++ [.noteLive pair .orders])
          = [(pair, .live)] := by
      intro d b'
      show Effect.ordersNotes (r.2.1 ++ [.noteLive pair .orders]) = _
      rw [Effect.ordersNotes_append, hnotes]
      rfl
    split
    · refine .resubscribing [.live] ?_
      show Effect.ordersNotes (_ ++ .noteResubscribing pair :: (requestReseed _ _ _).2) = _
      rw [Effect.ordersNotes_append, heffects]
      show _ ++ (pair, OrdersNote.resubscribing) :: Effect.ordersNotes (requestReseed _ _ _).2 = _
      rw [requestReseed_ordersNotes]
      rfl
    · next hend =>
      obtain ⟨hphase, hstate⟩ := hclean hend
      exact .live (heffects _ _) hphase hstate
    · exact .ends rfl

/-- **A delta of a live pair.** -/
theorem tells_applyLive {b : PairBook} (d : NormalizedDelta) (hb : b.phase = .passthrough) :
    Tells pair b (b.applyLive cfg pair nowUs d) := by
  unfold applyLive
  split
  · next book output happly => exact .live rfl hb (synced_of_apply happly)
  · next book e happly =>
    dsimp only
    split
    · refine .resubscribing [] ?_
      show Effect.ordersNotes (gapMetrics e ++ .noteResubscribing pair
        :: (requestReseed _ _ _).2) = _
      rw [Effect.ordersNotes_append, gapMetrics_ordersNotes]
      show (pair, OrdersNote.resubscribing) :: Effect.ordersNotes (requestReseed _ _ _).2 = _
      rw [requestReseed_ordersNotes]
      rfl
    · exact .ends rfl

variable (cfg pair nowUs) in
/-- **Whatever a pair handles, it tells.** -/
theorem tells_handle (b : PairBook) (i : PairInput) :
    Tells pair b (b.handle cfg pair nowUs i) := by
  cases i with
  | book d =>
    show Tells pair b (b.onBook cfg pair nowUs d)
    unfold onBook
    cases hphase : b.phase with
    | buffering buffer =>
      dsimp only
      split
      · exact tells_applySeed cfg pair nowUs b d
      · have hbuffers : b.phase.isBuffering = true := by rw [hphase]; rfl
        unfold pushBuffered
        split
        · exact .nothing (droppedOldest_ordersNotes _) hbuffers.symm rfl
        · exact .nothing rfl hbuffers.symm rfl
    | passthrough => exact tells_applyLive d hphase
  | fetched result =>
    show Tells pair b (b.onFetched cfg pair nowUs result)
    unfold onFetched
    dsimp only
    cases result with
    | ok seed =>
      -- that the flag is down makes no difference to what is told
      cases tells_applySeed cfg pair nowUs { b with seeding := false } seed with
      | nothing notes phase state => exact .nothing notes phase state
      | live notes phase state => exact .live notes phase state
      | resubscribing before notes => exact .resubscribing before notes
      | ends resync => exact .ends resync
    | error e =>
      dsimp only
      split
      · refine .nothing ?_ ?_ ?_
        · exact requestReseed_ordersNotes _
        · rw [requestReseed_phase]
        · rw [requestReseed_book]
      · exact .ends rfl
  | trade trade sequence =>
    refine .nothing ?_ rfl rfl
    show Effect.ordersNotes (b.onTrade trade sequence).effects = []
    unfold onTrade
    dsimp only
    rw [Effect.ordersNotes_append, Effect.ordersNotes_append]
    have hexact : Effect.ordersNotes
        (if sequence.isSome then [.metric .tradeLossExact] else []) = [] := by
      split <;> rfl
    rw [hexact]
    cases (b.trades.apply sequence).2 <;> rfl

end PairBook

/-! ## What the words do to the feeds -/

namespace Telemetry

/-- The words on the orders feed of a pair. -/
def words (pair : TradingPair) (effects : List Effect) : List OrdersNote :=
  (Effect.ordersNotes effects).filterMap (fun n => if n.1 = pair then some n.2 else none)

/-- The word of one effect. -/
def word (pair : TradingPair) (e : Effect) : Option OrdersNote :=
  e.ordersNote?.bind (fun n => if n.1 = pair then some n.2 else none)

theorem word_eq_some_iff {pair : TradingPair} {e : Effect} {n : OrdersNote} :
    word pair e = some n ↔ e.ordersNote? = some (pair, n) := by
  unfold word
  cases e.ordersNote? with
  | none => exact iff_of_false (fun h => by cases h) (fun h => by cases h)
  | some m =>
    obtain ⟨q, n'⟩ := m
    rw [Option.bind_some]
    dsimp only
    split
    · next hq =>
      rw [hq, Option.some_inj, Option.some_inj]
      exact ⟨fun h => h ▸ rfl, fun h => congrArg Prod.snd h⟩
    · next hq =>
      refine iff_of_false (fun h => by cases h) (fun h => hq ?_)
      exact congrArg Prod.fst (Option.some.inj h)

theorem words_concat (pair : TradingPair) (es : List Effect) (e : Effect) :
    words pair (es ++ [e]) = words pair es ++ (word pair e).toList := by
  unfold words word
  rw [Effect.ordersNotes_append, List.filterMap_append]
  refine congrArg _ ?_
  unfold Effect.ordersNotes
  cases hnote : e.ordersNote? with
  | none => rw [List.filterMap_cons_none hnote]; rfl
  | some n =>
    rw [List.filterMap_cons_some hnote, Option.bind_some]
    show [n].filterMap _ = _
    cases h : (if n.1 = pair then some n.2 else none : Option OrdersNote) with
    | none => exact List.filterMap_cons_none h
    | some w => exact List.filterMap_cons_some h

/-- What is left of a feed by words on it: none leave it, a word that it is
live may make it so, and a last word that it resubscribes does. -/
structure Told (ws : List OrdersNote) (state state' : FeedState) : Prop where
  nothing : ws = [] → state' = state
  live : ws = [.live] → state' = state ∨ state' = .live
  resubscribing : ws.getLast? = some .resubscribing → state' = .resubscribing

namespace FeedRuntime

variable {cfg : FeedConfig} {nowUs : ℕ} {s : FeedRuntime}

/-- **What an effect does**: nothing to the feeds, or one mark. -/
theorem note_cases (cfg : FeedConfig) (nowUs : ℕ) (s : FeedRuntime) (e : Effect) :
    (s.note cfg nowUs e).1.runtime = s.runtime ∧
      (((s.note cfg nowUs e).1.feeds = s.feeds ∧ (s.note cfg nowUs e).2 = [] ∧
          ∀ pair, e ≠ .noteResubscribing pair) ∨
        (∃ pair datatype, e = .noteLive pair datatype ∧
          (s.note cfg nowUs e).1.feeds = (s.feeds.markLive pair datatype).1 ∧
          (s.note cfg nowUs e).2 = (s.feeds.markLive pair datatype).2) ∨
        ∃ pair, e = .noteResubscribing pair ∧
          (s.note cfg nowUs e).1.feeds = (s.feeds.markResubscribing pair .orders).1 ∧
          (s.note cfg nowUs e).2 = (s.feeds.markResubscribing pair .orders).2) := by
  cases e with
  | noteResubscribing pair => exact ⟨rfl, .inr (.inr ⟨pair, rfl, rfl, rfl⟩)⟩
  | noteLive pair datatype =>
    show (s.noteLive cfg nowUs pair datatype).1.runtime = _ ∧ (((s.noteLive cfg nowUs pair
      datatype).1.feeds = _ ∧ (s.noteLive cfg nowUs pair datatype).2 = _ ∧ _) ∨
        (∃ p d, _ ∧ (s.noteLive cfg nowUs pair datatype).1.feeds = _ ∧
          (s.noteLive cfg nowUs pair datatype).2 = _) ∨ _)
    unfold noteLive
    cases hwatched : (cfg.cadence datatype).isSome with
    | true =>
      dsimp only
      rw [if_pos rfl, if_pos rfl]
      split
      · exact ⟨rfl, .inr (.inl ⟨pair, datatype, rfl, rfl, rfl⟩)⟩
      · exact ⟨rfl, .inr (.inl ⟨pair, datatype, rfl, rfl, rfl⟩)⟩
    | false =>
      dsimp only
      rw [if_neg Bool.false_ne_true, if_neg Bool.false_ne_true]
      split
      · exact ⟨rfl, .inl ⟨rfl, rfl, fun p h => by cases h⟩⟩
      · exact ⟨rfl, .inr (.inl ⟨pair, datatype, rfl, rfl, rfl⟩)⟩
  | _ => exact ⟨rfl, .inl ⟨rfl, rfl, fun p h => by cases h⟩⟩

/-- A live mark of a feed of a connection is legal. -/
theorem legal_markLive {fs : FeedSet} (h : fs.All FeedState.isOpen) (pair : TradingPair)
    (datatype : FeedDatatype) :
    ∀ t ∈ (fs.markLive pair datatype).2, t.1.canTransitionTo t.2 = true := by
  refine FeedSet.legal_markOne h (fun state hopen htest => ?_)
  cases state with
  | subscribing | stale | resubscribing => rfl
  | live => cases htest
  | _ => cases hopen

theorem legal_markResubscribing {fs : FeedSet} (h : fs.All FeedState.isOpen) (pair : TradingPair)
    (datatype : FeedDatatype) :
    ∀ t ∈ (fs.markResubscribing pair datatype).2, t.1.canTransitionTo t.2 = true := by
  refine FeedSet.legal_markOne h (fun state hopen htest => ?_)
  cases state with
  | subscribing | live | stale => rfl
  | resubscribing => cases htest
  | _ => cases hopen

theorem legal_markStale {fs : FeedSet} (h : fs.All FeedState.isOpen) (pair : TradingPair)
    (datatype : FeedDatatype) :
    ∀ t ∈ (fs.markStale pair datatype).2, t.1.canTransitionTo t.2 = true := by
  refine FeedSet.legal_markOne h (fun state _ htest => ?_)
  rw [of_decide_eq_true htest]
  rfl

variable (cfg nowUs) in
/-- **An effect keeps the feeds open, by legal transitions.** -/
theorem open_note (h : s.feeds.All FeedState.isOpen) (e : Effect) :
    (s.note cfg nowUs e).1.feeds.All FeedState.isOpen ∧
      ∀ t ∈ (s.note cfg nowUs e).2, t.1.canTransitionTo t.2 = true := by
  rcases (note_cases cfg nowUs s e).2 with ⟨hfeeds, hnone, -⟩ |
    ⟨pair, datatype, -, hfeeds, htaken⟩ | ⟨pair, -, hfeeds, htaken⟩
  · rw [hfeeds, hnone]
    exact ⟨h, fun t ht => absurd ht List.not_mem_nil⟩
  · rw [hfeeds, htaken]
    exact ⟨FeedSet.all_markOne h rfl, legal_markLive h pair datatype⟩
  · rw [hfeeds, htaken]
    exact ⟨FeedSet.all_markOne h rfl, legal_markResubscribing h pair .orders⟩

/-- **An effect is a word on the orders feed of its pair**, and on no other. -/
theorem told_note (h : s.feeds.All FeedState.isOpen) (e : Effect) {f' : Feed}
    (hf' : f' ∈ (s.note cfg nowUs e).1.feeds.feeds) (horders : f'.datatype = .orders) :
    ∃ f ∈ s.feeds.feeds, f'.key = f.key ∧
      (e.ordersNote? = some (f'.instrument, .live) → f'.state = f.state ∨ f'.state = .live) ∧
      (e.ordersNote? = some (f'.instrument, .resubscribing) → f'.state = .resubscribing) ∧
      ((∀ n, e.ordersNote? ≠ some (f'.instrument, n)) → f'.state = f.state) := by
  rcases (note_cases cfg nowUs s e).2 with ⟨hfeeds, -, hne⟩ | ⟨pair, datatype, rfl, hfeeds, -⟩ |
    ⟨pair, rfl, hfeeds, -⟩
  · rw [hfeeds] at hf'
    refine ⟨f', hf', rfl, fun _ => .inl rfl, fun hnote => ?_, fun _ => rfl⟩
    cases e with
    | noteResubscribing pair => exact absurd rfl (hne pair)
    | noteLive pair datatype => cases datatype <;> cases hnote
    | _ => cases hnote
  · rw [hfeeds] at hf'
    obtain ⟨f, hmem, hkey, hstate⟩ := FeedSet.mem_markOne hf'
    refine ⟨f, hmem, hkey, fun _ => ?_, fun hnote => ?_, fun hother => ?_⟩
    · rw [hstate]
      split
      · exact .inr rfl
      · exact .inl rfl
    · cases datatype <;> cases hnote
    · rw [hstate, if_neg]
      rintro ⟨hkey', -⟩
      rw [← hkey] at hkey'
      have hdatatype : datatype = .orders := (congrArg Prod.snd hkey').symm.trans horders
      have hpair : pair = f'.instrument := (congrArg Prod.fst hkey').symm
      rw [hdatatype, hpair] at hother
      exact hother .live rfl
  · rw [hfeeds] at hf'
    obtain ⟨f, hmem, hkey, hstate⟩ := FeedSet.mem_markOne hf'
    refine ⟨f, hmem, hkey, fun hnote => (by cases hnote), fun hnote => ?_, fun hother => ?_⟩
    · have hpair : pair = f'.instrument := congrArg Prod.fst (Option.some.inj hnote)
      have hkey' : f.key = (pair, .orders) := by
        rw [← hkey, hpair, ← horders]
        rfl
      -- the mark skips a feed that says so already, and none of these is over
      by_cases htest : f.state = .resubscribing
      · rw [hstate]
        split
        · rfl
        · exact htest
      · have hpasses : (!f.state.isTerminal && decide (f.state ≠ .resubscribing)) = true := by
          have hopen := h f hmem
          revert hopen htest
          cases f.state <;> decide
        rw [hstate, if_pos ⟨hkey', hpasses⟩]
        rfl
    · rw [hstate, if_neg]
      rintro ⟨hkey', -⟩
      rw [← hkey] at hkey'
      have hpair : pair = f'.instrument := (congrArg Prod.fst hkey').symm
      rw [hpair] at hother
      exact hother .resubscribing rfl

variable (cfg nowUs) in
/-- **The effects of a turn keep the feeds open, by legal transitions, and tell
each orders feed the words on its pair.** -/
theorem told_notes (h : s.feeds.All FeedState.isOpen) (es : List Effect) :
    ((notes cfg nowUs).run s es).1.runtime = s.runtime ∧
      ((notes cfg nowUs).run s es).1.feeds.All FeedState.isOpen ∧
      (∀ t ∈ ((notes cfg nowUs).run s es).2, t.1.canTransitionTo t.2 = true) ∧
      ∀ f' ∈ ((notes cfg nowUs).run s es).1.feeds.feeds, f'.datatype = .orders →
        ∃ f ∈ s.feeds.feeds, f'.key = f.key ∧ Told (words f'.instrument es) f.state f'.state := by
  induction es using List.reverseRecOn with
  | nil =>
    refine ⟨rfl, h, fun t ht => absurd ht List.not_mem_nil, fun f' hf' _ => ⟨f', hf', rfl, ?_⟩⟩
    exact ⟨fun _ => rfl, fun _ => .inl rfl, fun hlast => by cases hlast⟩
  | append_singleton es e ih =>
    obtain ⟨hruntime, hopen, hlegal, htold⟩ := ih
    rw [Machine.run_append]
    generalize (notes cfg nowUs).run s es = r at hruntime hopen hlegal htold
    show (r.1.note cfg nowUs e).1.runtime = s.runtime ∧
      (r.1.note cfg nowUs e).1.feeds.All FeedState.isOpen ∧
      (∀ t ∈ r.2 ++ ((r.1.note cfg nowUs e).2 ++ []), t.1.canTransitionTo t.2 = true) ∧
      ∀ f' ∈ (r.1.note cfg nowUs e).1.feeds.feeds, _
    obtain ⟨hopen', hlegal'⟩ := open_note cfg nowUs hopen e
    refine ⟨(note_cases cfg nowUs r.1 e).1.trans hruntime, hopen', ?_, fun f' hf' horders => ?_⟩
    · rw [List.append_nil]
      exact List.forall_mem_append.mpr ⟨hlegal, hlegal'⟩
    · obtain ⟨f, hmem, hkey, hlive, hresub, hother⟩ := told_note hopen e hf' horders
      have hinstrument := Feed.instrument_of_key hkey
      obtain ⟨f₀, hmem₀, hkey₀, htold₀⟩ :=
        htold f hmem ((Feed.datatype_of_key hkey).trans horders)
      rw [hinstrument] at htold₀
      refine ⟨f₀, hmem₀, hkey.trans hkey₀, ?_⟩
      cases hword : word f'.instrument e with
      | none =>
        rw [words_concat, hword, Option.toList_none, List.append_nil,
          hother (fun n hn => by rw [word_eq_some_iff.mpr hn] at hword; cases hword)]
        exact htold₀
      | some n =>
        rw [words_concat, hword, Option.toList_some]
        have hnote := word_eq_some_iff.mp hword
        cases n with
        | live =>
          refine ⟨fun hnil => absurd hnil (List.append_ne_nil_of_right_ne_nil _ (by decide)),
            fun hone => ?_, fun hlast => ?_⟩
          · have hnil : words f'.instrument es = [] :=
              List.append_cancel_right (hone.trans (List.nil_append _).symm)
            exact (hlive hnote).imp (fun hsame => hsame.trans (htold₀.nothing hnil)) id
          · rw [List.getLast?_concat] at hlast
            cases hlast
        | resubscribing =>
          refine ⟨fun hnil => absurd hnil (List.append_ne_nil_of_right_ne_nil _ (by decide)),
            fun hone => ?_, fun _ => hresub hnote⟩
          have hlast := congrArg List.getLast? hone
          rw [List.getLast?_concat] at hlast
          cases hlast

/-! ## What a turn keeps -/

/-- **The feeds of a connection are open, and agree with the books** as long as
the run goes on. -/
structure Sound (s : FeedRuntime) : Prop where
  isOpen : s.feeds.All FeedState.isOpen
  agrees : s.runtime.outcome = none → s.Agrees

/-- The words a pair tells are on its own feed. -/
theorem words_of_tells {pair other : TradingPair} {b : PairBook} {r : Handled}
    (h : PairBook.Tells pair b r) (hres : r.resync = false) (hne : other ≠ pair) :
    words other r.effects = [] := by
  have hdrop : ∀ l : List OrdersNote,
      (l.map (pair, ·)).filterMap (fun n => if n.1 = other then some n.2 else none) = [] := by
    intro l
    refine List.filterMap_eq_nil_iff.mpr (fun n hn => ?_)
    obtain ⟨n', -, rfl⟩ := List.mem_map.mp hn
    exact if_neg (Ne.symm hne)
  unfold words
  cases h with
  | nothing notes => rw [notes]; rfl
  | live notes => rw [notes]; exact hdrop [.live]
  | resubscribing before notes =>
    rw [notes, List.filterMap_append, hdrop before]
    exact hdrop [.resubscribing]
  | ends resync => rw [hres] at resync; cases resync

theorem words_self (pair : TradingPair) (l : List OrdersNote) :
    (l.map (pair, ·)).filterMap (fun n => if n.1 = pair then some n.2 else none) = l := by
  rw [List.filterMap_map]
  refine (List.filterMap_congr (fun n _ => if_pos rfl)).trans ?_
  exact List.filterMap_some

/-- **A pair that tells agrees with its feed** afterwards, if it did before. -/
theorem ordersAgree_of_tells {pair : TradingPair} {b : PairBook} {r : Handled}
    {state state' : FeedState} (h : PairBook.Tells pair b r) (hres : r.resync = false)
    (hagree : OrdersAgree (some b) state) (htold : Told (words pair r.effects) state state') :
    OrdersAgree (some r.pairBook) state' := by
  cases h with
  | nothing notes phase booked =>
    have hsame : state' = state := htold.nothing (by unfold words; rw [notes]; rfl)
    rw [hsame]
    refine ⟨fun hlive => ?_, fun b' hb' hbuffers => ?_⟩
    · obtain ⟨b', hb', hphase, hsynced⟩ := hagree.live hlive
      cases hb'
      refine ⟨r.pairBook, rfl, ?_, booked.trans hsynced⟩
      rw [hphase] at phase
      cases hp : r.pairBook.phase with
      | passthrough => rfl
      | buffering buffer =>
        rw [hp] at phase
        cases phase
    · cases hb'
      exact hagree.buffering b rfl (phase ▸ hbuffers)
  | live notes phase synced =>
    refine ⟨fun _ => ⟨r.pairBook, rfl, phase, synced⟩, fun b' hb' hbuffers => ?_⟩
    cases hb'
    rw [phase] at hbuffers
    cases hbuffers
  | resubscribing before notes =>
    have hlast : (words pair r.effects).getLast? = some .resubscribing := by
      have hmap : before.map (pair, ·) ++ [(pair, .resubscribing)]
          = (before ++ [OrdersNote.resubscribing]).map (pair, ·) := by
        rw [List.map_append]
        rfl
      unfold words
      rw [notes, hmap, words_self, List.getLast?_concat]
    rw [htold.resubscribing hlast]
    exact ⟨fun hlive => (by rcases hlive with hl | hl <;> cases hl), fun _ _ _ => .inr rfl⟩
  | ends resync => rw [hres] at resync; cases resync

/-- A feed after an input agrees with a pair the input left alone. -/
theorem ordersAgree_of_silent {b? : Option PairBook} {pair : TradingPair} {es : List Effect}
    {state state' : FeedState} (hagree : OrdersAgree b? state) (hnone : words pair es = [])
    (htold : Told (words pair es) state state') : OrdersAgree b? state' := by
  rw [htold.nothing hnone]
  exact hagree

/-- **What an input leaves agrees**, if its words are told to the feeds. -/
theorem agrees_handle (hs : s.Sound) {body : InputBody} (hbefore : s.runtime.outcome = none)
    (hout : (s.runtime.handle cfg.runtime nowUs body).1.outcome = none) {f f' : Feed}
    (hf : f ∈ s.feeds.feeds) (hkey : f'.key = f.key) (horders : f'.datatype = .orders)
    (htold : Told (words f'.instrument (s.runtime.handle cfg.runtime nowUs body).2) f.state
      f'.state) :
    OrdersAgree ((s.runtime.handle cfg.runtime nowUs body).1.books.get? f'.instrument)
      f'.state := by
  have hinstrument := Feed.instrument_of_key hkey
  have hagree := hs.agrees hbefore f hf ((Feed.datatype_of_key hkey).trans horders)
  rw [hinstrument] at hagree
  rcases s.runtime.handle_cases cfg.runtime nowUs body with ⟨n, pair, i, -, -, heq⟩ |
    ⟨done, es, hes, heq⟩ | hover
  · rw [heq] at hout htold ⊢
    cases hb : s.runtime.books.get? pair with
    | none =>
      have hsame : ({ s.runtime with inFlight := n } : SourceRuntime).onPair pair
          (fun b => b.handle cfg.runtime pair nowUs i)
            = ({ s.runtime with inFlight := n }, []) := by
        unfold SourceRuntime.onPair
        dsimp only
        rw [hb]
      rw [hsame] at htold ⊢
      exact ordersAgree_of_silent hagree rfl htold
    | some b =>
      rw [SourceRuntime.onPair_of_get? (s := { s.runtime with inFlight := n }) _ hb]
        at hout htold ⊢
      dsimp only at hout htold ⊢
      have htells := PairBook.tells_handle cfg.runtime pair nowUs b i
      have hgoes : (b.handle cfg.runtime pair nowUs i).resync = false := by
        by_contra h
        rw [if_pos (Bool.eq_true_of_not_eq_false h)] at hout
        cases hout
      rw [HashMap.get?_insert]
      split
      · next hpair =>
        rw [hpair] at htold hagree
        rw [hb] at hagree
        exact ordersAgree_of_tells htells hgoes hagree htold
      · next hpair =>
        exact ordersAgree_of_silent hagree (words_of_tells htells hgoes hpair) htold
  · rw [heq] at htold ⊢
    refine ordersAgree_of_silent hagree ?_ htold
    unfold words
    rw [Effect.ordersNotes_eq_nil_of_aside hes]
    rfl
  · exact absurd hout hover

/-- **A turn of the loop keeps the feeds sound, by legal transitions.** -/
theorem sound_turn (hs : s.Sound) (input : Input) :
    (s.step cfg (.turn input)).1.Sound ∧
      ∀ t ∈ (s.step cfg (.turn input)).2, t.1.canTransitionTo t.2 = true := by
  obtain ⟨hruntime, hopen, hlegal, htold⟩ := told_notes cfg input.nowUs
    (s := { s with runtime := (s.runtime.step cfg.runtime input).1 }) hs.isOpen
    (s.runtime.step cfg.runtime input).2
  refine ⟨⟨hopen, fun hout f' hf' horders => ?_⟩, hlegal⟩
  obtain ⟨f, hf, hkey, hwords⟩ := htold f' hf' horders
  have hafter : (s.runtime.step cfg.runtime input).1.outcome = none :=
    (congrArg SourceRuntime.outcome hruntime).symm.trans hout
  have hbefore : s.runtime.outcome = none := by
    by_contra h
    unfold SourceRuntime.step at hafter
    rw [if_pos (Option.isSome_iff_ne_none.mpr h)] at hafter
    exact h hafter
  have hstep : s.runtime.step cfg.runtime input
      = s.runtime.handle cfg.runtime input.nowUs input.body := by
    rw [SourceRuntime.step_eq_endTurn hbefore] at hafter ⊢
    exact SourceRuntime.endTurn_of_goesOn hafter
  show OrdersAgree (((notes cfg input.nowUs).run _ _).1.runtime.books.get? f'.instrument) _
  rw [hruntime]
  dsimp only
  rw [hstep] at hafter hwords ⊢
  exact agrees_handle hs hbefore hafter hf hkey horders hwords

/-- **A sweep keeps the feeds open, by legal transitions**: a feed is as it
was, or was live and is stale. -/
theorem swept {fs : FeedSet} (h : fs.All FeedState.isOpen)
    (overdue : List (TradingPair × FeedDatatype)) :
    (sweeper.run fs overdue).1.All FeedState.isOpen ∧
      (∀ t ∈ (sweeper.run fs overdue).2, t.1.canTransitionTo t.2 = true) ∧
      ∀ f' ∈ (sweeper.run fs overdue).1.feeds, ∃ f ∈ fs.feeds, f'.key = f.key ∧
        (f'.state = f.state ∨ (f.state = .live ∧ f'.state = .stale)) := by
  induction overdue generalizing fs with
  | nil =>
    exact ⟨h, fun t ht => absurd ht List.not_mem_nil, fun f' hf' => ⟨f', hf', rfl, .inl rfl⟩⟩
  | cons key overdue ih =>
    have hmark : (fs.markStale key.1 key.2).1.All FeedState.isOpen := FeedSet.all_markOne h rfl
    obtain ⟨hopen, hlegal, hswept⟩ := ih hmark
    refine ⟨hopen, ?_, fun f' hf' => ?_⟩
    · show ∀ t ∈ (fs.markStale key.1 key.2).2 ++ (sweeper.run _ overdue).2, _
      exact List.forall_mem_append.mpr ⟨legal_markStale h key.1 key.2, hlegal⟩
    · obtain ⟨f₁, hf₁, hkey₁, hstate₁⟩ := hswept f' hf'
      obtain ⟨f, hf, hkey, hstate⟩ := FeedSet.mem_markOne hf₁
      refine ⟨f, hf, hkey₁.trans hkey, ?_⟩
      split at hstate
      · next htest =>
        -- this mark made it stale, and no later one changes that
        have hlive : f.state = .live := of_decide_eq_true htest.2
        rcases hstate₁ with hsame | ⟨hlive₁, -⟩
        · exact .inr ⟨hlive, hsame.trans hstate⟩
        · rw [hstate] at hlive₁
          cases hlive₁
      · rw [hstate] at hstate₁
        exact hstate₁

theorem sound_sweep (hs : s.Sound) (nowUs : ℕ) :
    (s.step cfg (.cadenceSweep nowUs)).1.Sound ∧
      ∀ t ∈ (s.step cfg (.cadenceSweep nowUs)).2, t.1.canTransitionTo t.2 = true := by
  unfold step
  dsimp only
  split
  · exact ⟨hs, fun t ht => absurd ht List.not_mem_nil⟩
  · obtain ⟨hopen, hlegal, hswept⟩ := swept hs.isOpen (s.overdue cfg nowUs)
    refine ⟨⟨hopen, fun hout f' hf' horders => ?_⟩, hlegal⟩
    obtain ⟨f, hf, hkey, hstate⟩ := hswept f' hf'
    have hagree := hs.agrees hout f hf ((Feed.datatype_of_key hkey).trans horders)
    rw [Feed.instrument_of_key hkey] at hagree
    rcases hstate with hsame | ⟨hlive, hstale⟩
    · rw [hsame]
      exact hagree
    · refine ⟨fun _ => hagree.live (.inl hlive), fun b hb hbuffers => ?_⟩
      have hwaits := hagree.buffering b hb hbuffers
      rw [hlive] at hwaits
      rcases hwaits with h | h <;> cases h

/-- **Every input keeps the feeds sound, by legal transitions.** -/
theorem sound_step (hs : s.Sound) (i : FeedInput) :
    (s.step cfg i).1.Sound ∧ ∀ t ∈ (s.step cfg i).2, t.1.canTransitionTo t.2 = true := by
  cases i with
  | turn input => exact sound_turn hs input
  | cadenceSweep nowUs => exact sound_sweep hs nowUs

/-- **A runtime attached to feeds that are being subscribed is sound.** -/
theorem sound_start (cfg : FeedConfig) (hasher : RandomState TradingPair)
    (seenHasher : RandomState (TradingPair × FeedDatatype)) (nowUs : ℕ) (wireSymbols : List String)
    {feeds : FeedSet} (h : feeds.All (fun state => decide (state = .subscribing))) :
    (start cfg hasher seenHasher nowUs wireSymbols feeds).Sound := by
  have hstate : ∀ f ∈ feeds.feeds, f.state = .subscribing := fun f hf => of_decide_eq_true (h f hf)
  refine ⟨fun f hf => ?_, fun _ f hf _ => ⟨fun hlive => ?_, fun _ _ _ => .inl (hstate f hf)⟩⟩
  · rw [hstate f hf]
    rfl
  · rw [hstate f hf] at hlive
    rcases hlive with h | h <;> cases h

end FeedRuntime

end Telemetry
