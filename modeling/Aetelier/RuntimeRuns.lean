import Aetelier.SourceRuntime

/-!
# Runs of the runtime, pair by pair

Almost everything a runtime does, it does to one pair. An input is *for* a
pair if it is a book event or a trade of that pair, or the result of its seed
fetch (`SourceRuntime.brings`); any other input leaves the pair and its book
alone, or ends the run (`SourceRuntime.handle_cases`).

A property of the book of one pair is a monitor that takes no notice of
effects on other pairs (`BookMonitor`). `SourceRuntime.accepts_of_pair` turns
an invariant of the pair – kept by the three functions that handle its inputs
– into acceptance of every run of the whole runtime.
-/

/-- The pair whose book was updated or emitted. -/
def Effect.pair? : Effect → Option TradingPair
  | applied pair _ _ => some pair
  | sent (.book pair _ _) => some pair
  | _ => none

/-- The effect is on no book: it starts no fetch, and says nothing of a book. -/
def Effect.aside : Effect → Bool
  | sent (.book _ _ _) => false
  | sent _ => true
  | noteLive _ datatype => decide (datatype ≠ .orders)
  | metric _ => true
  | _ => false

/-- **A monitor of a book**: a state driven by the updates applied to it, and
what each emitted book must show. -/
structure BookMonitor (μ : Type) where
  /-- The state after an apply. -/
  next : μ → NormalizedDelta → Except ResyncNeeded BookOutput → μ
  /-- The test of an emitted book. -/
  ok : μ → Orderbook → Prop

namespace BookMonitor

variable {μ : Type} (A : BookMonitor μ) (pair : TradingPair)

/-- The monitor over the book of a pair. It takes no notice of other
effects. -/
def on : Monitor μ Effect where
  next m
    | .applied p delta result => if p = pair then A.next m delta result else m
    | _ => m
  ok m
    | .sent (.book p _ book) => p = pair → A.ok m book
    | _ => True

variable {pair}

theorem next_other (m : μ) {e : Effect} (he : e.pair? ≠ some pair) :
    (A.on pair).next m e = m := by
  cases e with
  | applied p d r => exact if_neg (fun h => he (congrArg some h))
  | _ => rfl

theorem ok_other (m : μ) {e : Effect} (he : e.pair? ≠ some pair) : (A.on pair).ok m e := by
  cases e with
  | sent ev =>
    cases ev with
    | book p ts book => exact fun h => absurd (congrArg some h) he
    | _ => trivial
  | _ => trivial

/-- A trace of other effects passes unnoticed. -/
theorem accepts_other {t : List Effect} (ht : ∀ e ∈ t, e.pair? ≠ some pair) (m : μ) :
    (A.on pair).Accepts m t ∧ (A.on pair).after m t = m := by
  induction t with
  | nil => exact ⟨trivial, rfl⟩
  | cons e t ih =>
    have he := ht e List.mem_cons_self
    obtain ⟨hacc, hafter⟩ := ih (fun e' he' => ht e' (List.mem_cons_of_mem _ he'))
    rw [Monitor.accepts_cons, Monitor.after_cons, A.next_other m he]
    exact ⟨⟨A.ok_other m he, hacc⟩, hafter⟩

theorem accepts_none (pair : TradingPair) {t : List Effect} (ht : ∀ e ∈ t, e.pair? = none) (m : μ) :
    (A.on pair).Accepts m t ∧ (A.on pair).after m t = m :=
  A.accepts_other (fun e he => by rw [ht e he]; exact nofun) m

end BookMonitor

/-- A handled input wrote accepted effects and, unless the run is over, left
the invariant. -/
def Handled.Kept {μ : Type} (A : BookMonitor μ) (pair : TradingPair) (I : PairBook → μ → Prop)
    (m : μ) (r : Handled) : Prop :=
  (A.on pair).Accepts m r.effects ∧
    (r.resync = false → I r.pairBook ((A.on pair).after m r.effects))

/-! ## What a pair does -/

/-- **What reaches a pair.** -/
inductive PairInput where
  /-- A book event, its symbol in canonical form. -/
  | book (delta : NormalizedDelta)
  /-- The result of a seed fetch. -/
  | fetched (result : Except String NormalizedDelta)
  /-- A trade. -/
  | trade (trade : Trade) (sequence : Option ℕ)

/-- Handle an input of a pair. -/
def PairBook.handle (cfg : RuntimeConfig) (pair : TradingPair) (nowUs : ℕ) (b : PairBook) :
    PairInput → Handled
  | .book delta => b.onBook cfg pair nowUs delta
  | .fetched result => b.onFetched cfg pair nowUs result
  | .trade trade sequence => b.onTrade trade sequence

namespace PairBook

variable {cfg : RuntimeConfig} {pair other : TradingPair} {nowUs : ℕ}

/-- Every effect is about the given pair, or about no pair. -/
def Only (pair : TradingPair) (effects : List Effect) : Prop :=
  ∀ e ∈ effects, e.pair? = none ∨ e.pair? = some pair

@[simp] theorem only_nil : Only pair [] := fun _ h => absurd h List.not_mem_nil

@[simp] theorem only_cons {e : Effect} {es : List Effect} :
    Only pair (e :: es) ↔ (e.pair? = none ∨ e.pair? = some pair) ∧ Only pair es := by
  unfold Only
  exact List.forall_mem_cons

@[simp] theorem only_append {es es' : List Effect} :
    Only pair (es ++ es') ↔ Only pair es ∧ Only pair es' := by
  unfold Only
  exact List.forall_mem_append

theorem gapMetrics_pair? (e : ResyncNeeded) : ∀ e' ∈ gapMetrics e, e'.pair? = none := by
  unfold gapMetrics
  split <;> simp [Effect.pair?]

theorem requestReseed_pair? (b : PairBook) :
    ∀ e ∈ (b.requestReseed cfg pair).2, e.pair? = none := by
  unfold requestReseed
  split <;> simp [Effect.pair?]

theorem only_of_none {es : List Effect} (h : ∀ e ∈ es, e.pair? = none) : Only pair es :=
  fun e he => Or.inl (h e he)

theorem droppedOldest_pair? (pair : TradingPair) (l : List NormalizedDelta) :
    ∀ e ∈ l.map (Effect.droppedOldest pair), e.pair? = none := by
  intro e he
  obtain ⟨d, -, rfl⟩ := List.mem_map.mp he
  rfl

theorem only_applyLive (b : PairBook) (d : NormalizedDelta) :
    Only pair (b.applyLive cfg pair nowUs d).effects := by
  unfold applyLive
  split
  · simp [Effect.pair?, emitBook]
  · dsimp only
    split <;> simp [Effect.pair?, only_of_none (gapMetrics_pair? _),
      only_of_none (requestReseed_pair? _)]

theorem only_replay (snapId : ℕ) (l : List NormalizedDelta) (b : PairBook) :
    Only pair (b.replay cfg pair nowUs snapId l).2.1 := by
  induction l generalizing b with
  | nil => exact only_nil
  | cons d rest ih =>
    unfold replay
    split
    · exact ih b
    · split
      · simp only [only_cons]
        exact ⟨Or.inr rfl, Or.inr rfl, ih _⟩
      · dsimp only
        split
        · simp only [List.cons_append, only_cons, only_append]
          exact ⟨Or.inr rfl, only_of_none (gapMetrics_pair? _),
            only_of_none (droppedOldest_pair? _ _)⟩
        · simp [Effect.pair?, only_of_none (gapMetrics_pair? _)]

theorem only_applySeed (b : PairBook) (seed : NormalizedDelta) :
    Only pair (b.applySeed cfg pair nowUs seed).effects := by
  unfold applySeed
  dsimp only
  split
  · split <;> simp [Effect.pair?, only_of_none (requestReseed_pair? _)]
  · split <;> simp [Effect.pair?, emitBook, only_replay,
      only_of_none (requestReseed_pair? _)]

/-- **Handling an input of a pair touches no other pair.** -/
theorem only_handle (b : PairBook) (i : PairInput) :
    Only pair (b.handle cfg pair nowUs i).effects := by
  cases i with
  | book d =>
    simp only [handle, onBook]
    split
    · split
      · exact only_applySeed b d
      · unfold pushBuffered
        split
        · exact only_of_none (droppedOldest_pair? _ _)
        · exact only_nil
    · exact only_applyLive b d
  | fetched result =>
    simp only [handle, onFetched]
    split
    · exact only_applySeed _ _
    · split <;> simp [Effect.pair?, only_of_none (requestReseed_pair? _)]
  | trade t sequence =>
    simp only [handle, onTrade]
    simp only [only_append]
    refine ⟨⟨?_, ?_⟩, by simp [Effect.pair?]⟩
    · split <;> simp [Effect.pair?]
    · split <;> simp [Effect.pair?]

theorem pair?_ne_of_only {es : List Effect} (h : Only other es) (hne : other ≠ pair) :
    ∀ e ∈ es, e.pair? ≠ some pair := by
  intro e he heq
  rcases h e he with h | h
  · rw [h] at heq
    cases heq
  · rw [h] at heq
    exact hne (Option.some.inj heq)

end PairBook

/-! ## What an emitted book shows -/

namespace PairBook

variable {cfg : RuntimeConfig} {pair : TradingPair} {nowUs : ℕ}

theorem map_price_captureSide (side : OrderSide) (levels : List (Decimal × Decimal)) :
    (captureSide side levels).map (fun l => (l.price, l.volume)) = levels := by
  refine List.ext_getElem? (fun i => ?_)
  simp only [captureSide, List.getElem?_map, List.getElem?_mapIdx, Option.map_map]
  exact Option.map_id'

/-- The level shown at a price, as the price and the size it carries. -/
def shownAt (side : PriceMap Level) (q : ℚ) : Option (ℚ × ℚ) :=
  (side.get? q).map (fun l => (l.price.value, l.volume.value))

/-- A side captured in any order shows the sizes it holds. -/
theorem shownAt_captureSide (side : OrderSide) {m : PriceMap Decimal}
    {levels : List (Decimal × Decimal)} (hl : levels.Perm m.entries) (q : ℚ) :
    shownAt (OrdMap.ofList ((captureSide side levels).map (fun l => (l.price, l)))) q
      = (OrderbookDelta.sizeAt m q).map (Prod.mk q) := by
  have hlevels := map_price_captureSide side levels
  have hdistinct : ((captureSide side levels).map (fun l => (l.price, l))).Pairwise
      (fun a b => a.1.value ≠ b.1.value) := by
    have hpair : levels.Pairwise (fun a b => a.1.value ≠ b.1.value) :=
      hl.symm.pairwise (m.sorted.imp (fun h => h.ne)) (fun h => Ne.symm h)
    rw [← hlevels, List.pairwise_map] at hpair
    exact List.pairwise_map.mpr hpair
  have hget := OrdMap.get?_ofList hdistinct
  apply Option.ext
  rintro ⟨p, s⟩
  unfold shownAt OrderbookDelta.sizeAt
  rw [Option.map_map, Option.map_eq_some_iff, Option.map_eq_some_iff]
  constructor
  · rintro ⟨l, hl', hps⟩
    cases hps
    obtain ⟨k, hk, hmem⟩ := (hget q l).mp hl'
    obtain ⟨l', hl', he⟩ := List.mem_map.mp hmem
    cases he
    have hmem' : (l.price, l.volume) ∈ levels := by
      rw [← hlevels]
      exact List.mem_map_of_mem hl'
    exact ⟨l.volume, OrdMap.get?_eq_some_iff.mpr ⟨l.price, hk, hl.mem_iff.mp hmem'⟩,
      by rw [hk]; rfl⟩
  · rintro ⟨v, hv, hps⟩
    cases hps
    obtain ⟨k, hk, hmem⟩ := OrdMap.mem_of_get? hv
    have hmem' := hl.mem_iff.mpr hmem
    rw [← hlevels] at hmem'
    obtain ⟨l, hl', he⟩ := List.mem_map.mp hmem'
    cases he
    exact ⟨l, (hget q l).mpr ⟨l.price, hk, List.mem_map_of_mem hl'⟩, by rw [hk]⟩

/-- **An emitted book shows what the maintained book holds.** -/
theorem shownAt_capture (b : PairBook) (q : ℚ) :
    shownAt (b.capture cfg pair nowUs).bids q
        = (OrderbookDelta.sizeAt b.book.book.bids q).map (Prod.mk q) ∧
      shownAt (b.capture cfg pair nowUs).asks q
        = (OrderbookDelta.sizeAt b.book.book.asks q).map (Prod.mk q) := by
  constructor
  · refine shownAt_captureSide .bids ?_ q
    unfold OrderbookDelta.topBids OrdMap.len
    rw [← List.length_reverse, List.take_length]
    exact List.reverse_perm _
  · refine shownAt_captureSide .asks ?_ q
    unfold OrderbookDelta.topAsks OrdMap.len
    rw [List.take_length]

end PairBook

/-! ## What a step does to a pair -/

namespace SourceRuntime

variable {cfg : RuntimeConfig} {pair : TradingPair} {nowUs : ℕ}

theorem takeSends_initial (n : ℕ) (es : List Effect) : takeSends n es <+: es := by
  induction es generalizing n with
  | nil => exact List.prefix_refl _
  | cons e es ih =>
    unfold takeSends
    split
    · cases n with
      | zero => exact List.nil_prefix
      | succ n => exact List.cons_prefix_cons.mpr ⟨rfl, ih n⟩
    · exact List.cons_prefix_cons.mpr ⟨rfl, ih n⟩

/-- **What an input brings to a pair**, if it is for that pair. -/
def brings (cfg : RuntimeConfig) (pair : TradingPair) (s : SourceRuntime) (b : PairBook) :
    InputBody → Option PairInput
  | .event (.book delta) =>
    if s.eventsDone = false ∧ .orderbook ∈ cfg.declared ∧
        cfg.codec.decode cfg.unicode delta.symbol = some pair then
      some (.book (delta.canonical pair))
    else none
  | .event (.trade trade sequence) =>
    if s.eventsDone = false ∧ .trades ∈ cfg.declared ∧ trade.pair = pair then
      some (.trade trade sequence)
    else none
  | .fetched p result => if b.seeding = true ∧ p = pair then some (.fetched result) else none
  | _ => none

/-- What is brought to a pair is a book event or a trade of the pair, or the
result of a fetch it awaits. -/
theorem brings_cases {s : SourceRuntime} {b : PairBook} {body : InputBody} {i : PairInput}
    (h : s.brings cfg pair b body = some i) :
    (∃ d, body = .event (.book d) ∧ cfg.codec.decode cfg.unicode d.symbol = some pair ∧
        i = .book (d.canonical pair)) ∨
      (∃ t sequence, body = .event (.trade t sequence) ∧ i = .trade t sequence) ∨
      ∃ result, body = .fetched pair result ∧ b.seeding = true ∧ i = .fetched result := by
  unfold brings at h
  split at h
  · next d =>
    obtain ⟨⟨-, -, hdec⟩, hi⟩ := Option.ite_none_right_eq_some.mp h
    cases hi
    exact Or.inl ⟨d, rfl, hdec, rfl⟩
  · next t sequence =>
    cases (Option.ite_none_right_eq_some.mp h).2
    exact Or.inr (Or.inl ⟨t, sequence, rfl, rfl⟩)
  · next p result =>
    obtain ⟨⟨hseed, hp⟩, hi⟩ := Option.ite_none_right_eq_some.mp h
    cases hi
    exact Or.inr (Or.inr ⟨result, by rw [hp], hseed, rfl⟩)
  · cases h

/-- The pair is left alone, unless the run is over. -/
def Spared (pair : TradingPair) (s : SourceRuntime) (r : SourceRuntime × List Effect) : Prop :=
  (∀ e ∈ r.2, e.pair? ≠ some pair) ∧
    (r.1.outcome = none → r.1.books.get? pair = s.books.get? pair)

/-- The pair has handled an input. -/
def Handles (pair : TradingPair) (h : Handled) (r : SourceRuntime × List Effect) : Prop :=
  r.2 = h.effects ∧
    (r.1.outcome = none → h.resync = false ∧ r.1.books.get? pair = some h.pairBook)

theorem spared_of_none (s : SourceRuntime) {es : List Effect} (h : ∀ e ∈ es, e.pair? = none) :
    Spared pair s (s, es) :=
  ⟨fun e he => by rw [h e he]; exact nofun, fun _ => rfl⟩

theorem spared_nil (s : SourceRuntime) : Spared pair s (s, []) :=
  spared_of_none s (fun _ he => absurd he List.not_mem_nil)

/-- An input handed to another pair, or to a pair that is not tracked, spares
this one. -/
theorem spared_onPair (cfg : RuntimeConfig) (nowUs : ℕ) {other : TradingPair} {s : SourceRuntime}
    (h : other = pair → s.books.get? pair = none) (i : PairInput) :
    Spared pair s (s.onPair other (fun b => b.handle cfg other nowUs i)) := by
  unfold onPair
  cases hb : s.books.get? other with
  | none => exact spared_nil s
  | some b =>
    have hne : other ≠ pair := by
      rintro rfl
      rw [h rfl] at hb
      cases hb
    refine ⟨PairBook.pair?_ne_of_only (PairBook.only_handle b i) hne, fun _ => ?_⟩
    dsimp only
    rw [HashMap.get?_insert, if_neg (Ne.symm hne)]

theorem handles_onPair (cfg : RuntimeConfig) (nowUs : ℕ) {s : SourceRuntime} {b : PairBook}
    (hb : s.books.get? pair = some b) (i : PairInput) :
    Handles pair (b.handle cfg pair nowUs i)
      (s.onPair pair (fun b => b.handle cfg pair nowUs i)) := by
  unfold onPair
  rw [hb]
  refine ⟨rfl, fun hout => ⟨?_, ?_⟩⟩
  · dsimp only at hout
    split at hout
    · cases hout
    · next h => exact Bool.not_eq_true _ ▸ h
  · dsimp only
    rw [HashMap.get?_insert, if_pos rfl]

theorem spared_declaredOnly {s : SourceRuntime} {datatype : DeclaredDatatype}
    {handled : SourceRuntime × List Effect}
    (h : datatype ∈ cfg.declared → Spared pair s handled) :
    Spared pair s (s.declaredOnly cfg datatype handled) := by
  unfold declaredOnly
  split
  · next hd => exact h hd
  · exact spared_of_none s (by simp [Effect.pair?])

/-- An event that brings a pair nothing spares it. -/
theorem handleEvent_of_not_brings (nowUs : ℕ) {s : SourceRuntime} {ev : DomainEvent}
    (hdone : s.eventsDone = false)
    (h : ∀ b, s.books.get? pair = some b → s.brings cfg pair b (.event ev) = none) :
    Spared pair s (s.handleEvent cfg nowUs ev) := by
  cases ev with
  | book delta =>
    refine spared_declaredOnly (fun hdecl => ?_)
    cases hdec : cfg.codec.decode cfg.unicode delta.symbol with
    | none => exact spared_nil s
    | some q =>
      refine spared_onPair cfg nowUs (fun hq => ?_) (.book _)
      by_contra hne
      obtain ⟨b, hb⟩ := Option.ne_none_iff_exists'.mp hne
      have hnone := h b hb
      rw [brings, if_pos ⟨hdone, hdecl, by rw [hdec, hq]⟩] at hnone
      cases hnone
  | trade t sequence =>
    refine spared_declaredOnly (fun hdecl => ?_)
    refine spared_onPair cfg nowUs (fun hq => ?_) (.trade t sequence)
    by_contra hne
    obtain ⟨b, hb⟩ := Option.ne_none_iff_exists'.mp hne
    have hnone := h b hb
    rw [brings, if_pos ⟨hdone, hdecl, hq⟩] at hnone
    cases hnone
  | connectionGap dropped =>
    refine ⟨?_, fun hout => by cases hout⟩
    simp [handleEvent, onConnectionGap, Effect.pair?]
  | fundingRate fr =>
    exact spared_declaredOnly (fun _ => spared_of_none s (by simp [Effect.pair?]))
  | openInterest oi =>
    exact spared_declaredOnly (fun _ => spared_of_none s (by simp [Effect.pair?]))
  | fundingSettlement fs =>
    exact spared_declaredOnly (fun _ => spared_of_none s (by simp [Effect.pair?]))

/-- **An input that brings a pair nothing spares it.** -/
theorem handle_of_not_brings (nowUs : ℕ) {s : SourceRuntime} {body : InputBody}
    (h : ∀ b, s.books.get? pair = some b → s.brings cfg pair b body = none) :
    Spared pair s (s.handle cfg nowUs body) := by
  cases body with
  | event ev =>
    simp only [handle]
    split
    · exact spared_nil s
    · next hdone => exact handleEvent_of_not_brings nowUs (Bool.not_eq_true _ ▸ hdone) h
  | eventsClosed => exact ⟨fun e he => absurd he List.not_mem_nil, fun _ => rfl⟩
  | fetched p result =>
    simp only [handle]
    split
    · next hfetch =>
      refine spared_onPair cfg nowUs (s := { s with inFlight := s.inFlight - 1 }) (fun hp => ?_)
        (.fetched result)
      by_contra hne
      obtain ⟨b, hb⟩ := Option.ne_none_iff_exists'.mp hne
      have hnone := h b hb
      unfold fetching at hfetch
      rw [hp, show s.books.get? pair = some b from hb] at hfetch
      rw [brings, if_pos ⟨hfetch, hp⟩] at hnone
      cases hnone
    · exact spared_nil s
  | seedDeadline =>
    simp only [handle]
    split
    · exact ⟨by simp [Effect.pair?], fun hout => by cases hout⟩
    · exact spared_nil s
  | shutdown => exact ⟨fun e he => absurd he List.not_mem_nil, fun hout => by cases hout⟩

/-- An input that brings a pair something is handed to the pair. -/
theorem handle_eq_onPair (nowUs : ℕ) {s : SourceRuntime} {body : InputBody} {b : PairBook}
    {i : PairInput} (hb : s.books.get? pair = some b) (h : s.brings cfg pair b body = some i) :
    ∃ n, s.handle cfg nowUs body
      = { s with inFlight := n }.onPair pair (fun b => b.handle cfg pair nowUs i) := by
  cases body with
  | event ev =>
    cases ev with
    | book delta =>
      obtain ⟨⟨hdone, hdecl, hdec⟩, hi⟩ := Option.ite_none_right_eq_some.mp h
      cases hi
      refine ⟨s.inFlight, ?_⟩
      rw [handle, if_neg (by rw [hdone]; simp)]
      simp only [handleEvent, declaredOnly, if_pos hdecl, hdec]
      rfl
    | trade t sequence =>
      obtain ⟨⟨hdone, hdecl, hpair⟩, hi⟩ := Option.ite_none_right_eq_some.mp h
      cases hi
      refine ⟨s.inFlight, ?_⟩
      rw [handle, if_neg (by rw [hdone]; simp)]
      simp only [handleEvent, declaredOnly, if_pos hdecl, hpair]
      rfl
    | connectionGap _ | fundingRate _ | openInterest _ | fundingSettlement _ => cases h
  | fetched p result =>
    obtain ⟨⟨hseed, hpair⟩, hi⟩ := Option.ite_none_right_eq_some.mp h
    cases hi
    subst hpair
    refine ⟨s.inFlight - 1, ?_⟩
    simp only [handle, fetching, hb, Option.any_some, if_pos hseed]
    rfl
  | eventsClosed | seedDeadline | shutdown => cases h

/-- **An input that brings a pair something is handled by it.** -/
theorem handle_of_brings (nowUs : ℕ) {s : SourceRuntime} {body : InputBody} {b : PairBook}
    {i : PairInput} (hb : s.books.get? pair = some b) (h : s.brings cfg pair b body = some i) :
    Handles pair (b.handle cfg pair nowUs i) (s.handle cfg nowUs body) := by
  obtain ⟨n, hn⟩ := handle_eq_onPair nowUs hb h
  rw [hn]
  exact handles_onPair cfg nowUs (s := { s with inFlight := n }) hb i

/-- **What an input does**: it is handed to a pair, or leaves the pairs and has
no effect on a book, or ends the run. -/
theorem handle_cases (cfg : RuntimeConfig) (nowUs : ℕ) (s : SourceRuntime) (body : InputBody) :
    (∃ n pair i, ((∀ result, i ≠ .fetched result) → n = s.inFlight) ∧
        (∀ result, i = .fetched result → body = .fetched pair result) ∧
        s.handle cfg nowUs body
          = { s with inFlight := n }.onPair pair (fun b => b.handle cfg pair nowUs i)) ∨
      (∃ done es, (∀ e ∈ es, e.aside = true) ∧
        s.handle cfg nowUs body = ({ s with eventsDone := done }, es)) ∨
      (s.handle cfg nowUs body).1.outcome ≠ none := by
  have hquiet : ∀ es : List Effect, (∀ e ∈ es, e.aside = true) → ∀ r, r = (s, es) → ∃ done es',
      (∀ e ∈ es', e.aside = true) ∧ r = ({ s with eventsDone := done }, es') := by
    rintro es hes r rfl
    exact ⟨s.eventsDone, es, hes, rfl⟩
  have hnil : ∀ e ∈ ([] : List Effect), e.aside = true := fun e he => absurd he List.not_mem_nil
  have hdropped : ∀ e ∈ [Effect.metric .undeclaredDropped], e.aside = true :=
    List.forall_mem_singleton.mpr rfl
  -- a declared event is handed on, an undeclared one is counted
  have hdeclared : ∀ datatype {r : SourceRuntime × List Effect} {P : Prop},
      (s.declaredOnly cfg datatype r = r → P) →
      (s.declaredOnly cfg datatype r = (s, [.metric .undeclaredDropped]) → P) → P := by
    intro datatype r P hyes hno
    by_cases h : datatype ∈ cfg.declared
    · exact hyes (if_pos h)
    · exact hno (if_neg h)
  cases body with
  | event ev =>
    by_cases hdone : s.eventsDone = true
    · exact .inr (.inl (hquiet [] hnil _ (if_pos hdone)))
    · rw [show s.handle cfg nowUs (.event ev) = s.handleEvent cfg nowUs ev from if_neg hdone]
      cases ev with
      | book delta =>
        cases hdec : cfg.codec.decode cfg.unicode delta.symbol with
        | none =>
          have heq : s.handleEvent cfg nowUs (.book delta)
              = s.declaredOnly cfg .orderbook (s, []) := by simp only [handleEvent, hdec]
          rw [heq]
          exact hdeclared .orderbook (fun h => .inr (.inl (hquiet _ hnil _ h)))
            (fun h => .inr (.inl (hquiet _ hdropped _ h)))
        | some pair =>
          have heq : s.handleEvent cfg nowUs (.book delta) = s.declaredOnly cfg .orderbook
              (s.onPair pair (fun b => b.onBook cfg pair nowUs (delta.canonical pair))) := by
            simp only [handleEvent, hdec]
          rw [heq]
          exact hdeclared .orderbook
            (fun h => .inl ⟨_, pair, .book (delta.canonical pair), fun _ => rfl,
              fun _ hi => (by cases hi), h⟩)
            (fun h => .inr (.inl (hquiet _ hdropped _ h)))
      | trade trade sequence =>
        exact hdeclared .trades
          (fun h => .inl ⟨_, trade.pair, .trade trade sequence, fun _ => rfl,
            fun _ hi => (by cases hi), h⟩)
          (fun h => .inr (.inl (hquiet _ hdropped _ h)))
      | connectionGap dropped => exact .inr (.inr (fun h => by cases h))
      | fundingRate fr =>
        exact hdeclared .fundingRates
          (fun h => .inr (.inl (hquiet _ (by simp [Effect.aside]) _ h)))
          (fun h => .inr (.inl (hquiet _ hdropped _ h)))
      | openInterest oi =>
        exact hdeclared .openInterest
          (fun h => .inr (.inl (hquiet _ (by simp [Effect.aside]) _ h)))
          (fun h => .inr (.inl (hquiet _ hdropped _ h)))
      | fundingSettlement fs =>
        exact hdeclared .fundingRates
          (fun h => .inr (.inl (hquiet _ (by simp [Effect.aside]) _ h)))
          (fun h => .inr (.inl (hquiet _ hdropped _ h)))
  | eventsClosed => exact .inr (.inl ⟨true, [], hnil, rfl⟩)
  | fetched pair result =>
    by_cases hfetch : s.fetching pair = true
    · refine .inl ⟨s.inFlight - 1, pair, .fetched result, fun h => absurd rfl (h result),
        fun result' hi => ?_, if_pos hfetch⟩
      cases hi
      rfl
    · exact .inr (.inl (hquiet [] hnil _ (if_neg hfetch)))
  | seedDeadline =>
    by_cases hexpired : cfg.seedsOutOfBand ∧ cfg.needsRest = false ∧ s.inBandSeedExpired nowUs
    · refine .inr (.inr (fun h => ?_))
      rw [show s.handle cfg nowUs .seedDeadline = _ from if_pos hexpired] at h
      cases h
    · exact .inr (.inl (hquiet [] hnil _ (if_neg hexpired)))
  | shutdown => exact .inr (.inr (fun h => by cases h))

theorem settle_books (s : SourceRuntime) : s.settle.books = s.books := by
  unfold settle
  split <;> rfl

theorem outcome_of_settle {s : SourceRuntime} (h : s.settle.outcome = none) :
    s.outcome = none := by
  unfold settle at h
  split at h
  · cases h
  · exact h

theorem abandoned_pair? (s : SourceRuntime) : ∀ e ∈ s.abandoned, e.pair? = none := by
  unfold abandoned
  split <;> simp [Effect.pair?]

/-- The loop's own bookkeeping after an input: the effects are cut short only
where the run ends. -/
theorem step_eq (cfg : RuntimeConfig) {s : SourceRuntime} (hs : s.outcome = none)
    (input : Input) :
    ∃ tail, (∀ e ∈ tail, e.pair? = none) ∧
      (s.step cfg input).2 <+: (s.handle cfg input.nowUs input.body).2 ++ tail ∧
      ((s.step cfg input).1.outcome = none →
        (s.step cfg input).2 = (s.handle cfg input.nowUs input.body).2 ++ tail ∧
        (s.handle cfg input.nowUs input.body).1.outcome = none ∧
        (s.step cfg input).1.books = (s.handle cfg input.nowUs input.body).1.books) := by
  unfold step
  rw [hs, if_neg (by simp)]
  dsimp only
  refine ⟨_, abandoned_pair? (s.handle cfg input.nowUs input.body).1.settle, ?_⟩
  have hend (h : (s.handle cfg input.nowUs input.body).1.settle.outcome = none) :=
    And.intro (outcome_of_settle h) (settle_books (s.handle cfg input.nowUs input.body).1)
  split
  · exact ⟨List.prefix_refl _, fun h => ⟨rfl, hend h⟩⟩
  · split
    · exact ⟨List.prefix_refl _, fun h => ⟨rfl, hend h⟩⟩
    · exact ⟨(takeSends_initial _ _).trans (List.prefix_append _ _), fun h => by cases h⟩

/-- The loop is waiting for events, and tracks the pair. -/
structure Running (pair : TradingPair) (s : SourceRuntime) (b : PairBook) : Prop where
  /-- The run is not over. -/
  outcome : s.outcome = none
  /-- The event stream has not ended. -/
  eventsDone : s.eventsDone = false
  /-- The pair is tracked. -/
  book : s.books.get? pair = some b

/-- **A turn of the loop that is for a pair**, while the receiver takes what
is sent: the effects are those of the pair, and unless the pair asks for a
reconnect the loop goes on. -/
theorem step_running {s : SourceRuntime} {b : PairBook} {input : Input} {i : PairInput}
    (hs : Running pair s b) (hcap : input.capacity = none)
    (hi : s.brings cfg pair b input.body = some i) :
    (b.handle cfg pair input.nowUs i).effects <+: (s.step cfg input).2 ∧
      ((b.handle cfg pair input.nowUs i).resync = false →
        (s.step cfg input).2 = (b.handle cfg pair input.nowUs i).effects ∧
          Running pair (s.step cfg input).1 (b.handle cfg pair input.nowUs i).pairBook) := by
  obtain ⟨n, hn⟩ := handle_eq_onPair input.nowUs hs.book hi
  unfold step
  rw [hs.outcome, if_neg (by simp), hcap]
  dsimp only
  rw [hn]
  unfold onPair
  rw [show ({ s with inFlight := n } : SourceRuntime).books.get? pair = some b from hs.book]
  dsimp only
  refine ⟨List.prefix_append _ _, fun hres => ?_⟩
  rw [hres, hs.outcome, hs.eventsDone]
  simp only [settle, abandoned, Bool.false_eq_true, false_and, and_false, if_false,
    Option.isSome_none, List.append_nil]
  exact ⟨trivial, rfl, rfl, by rw [HashMap.get?_insert, if_pos rfl]⟩

/-! ## A pair that awaits its seed -/

section Buffering

variable {s : SourceRuntime} {b : PairBook}

/-- Deltas delivered one by one, to a runtime whose receiver takes what is
sent. -/
def Delivers (ds : List NormalizedDelta) (inputs : List Input) : Prop :=
  List.Forall₂ (fun d input => input.body = .event (.book d) ∧ input.capacity = none) ds inputs

/-- The deltas are of a pair, on a channel that is declared. -/
structure OfPair (cfg : RuntimeConfig) (pair : TradingPair) (ds : List NormalizedDelta) : Prop where
  /-- Book events are declared. -/
  declared : .orderbook ∈ cfg.declared
  /-- The symbols decode to the pair. -/
  decode : ∀ d ∈ ds, cfg.codec.decode cfg.unicode d.symbol = some pair

theorem OfPair.tail {d : NormalizedDelta} {ds : List NormalizedDelta}
    (ho : OfPair cfg pair (d :: ds)) : OfPair cfg pair ds :=
  ⟨ho.declared, fun e he => ho.decode e (List.mem_cons_of_mem _ he)⟩

theorem brings_book {d : NormalizedDelta} {ds : List NormalizedDelta} {body : InputBody}
    (ho : OfPair cfg pair (d :: ds)) (hs : Running pair s b) (hbody : body = .event (.book d)) :
    s.brings cfg pair b body = some (.book (d.canonical pair)) := by
  subst hbody
  exact if_pos ⟨hs.eventsDone, ho.declared, ho.decode d List.mem_cons_self⟩

/-- **While a pair awaits its seed, its deltas are buffered** and nothing is
heard of it. -/
theorem run_buffering {ds : List NormalizedDelta} {inputs : List Input}
    {buffer : List NormalizedDelta} (hin : Delivers ds inputs) (ho : OfPair cfg pair ds)
    (hdelta : ∀ d ∈ ds, d.isSnapshot = false) (hs : Running pair s b)
    (hphase : b.phase = .buffering buffer)
    (hlen : buffer.length + ds.length ≤ maxBufferedDeltas) :
    ((machine cfg).run s inputs).2 = [] ∧
      Running pair ((machine cfg).run s inputs).1
        { b with phase := .buffering (buffer ++ ds.map (·.canonical pair)) } := by
  induction hin generalizing s b buffer with
  | nil =>
    refine ⟨rfl, hs.outcome, hs.eventsDone, ?_⟩
    rw [List.map_nil, List.append_nil, ← hphase]
    exact hs.book
  | @cons d input ds inputs hd hin ih =>
    have hpush : b.handle cfg pair input.nowUs (.book (d.canonical pair))
        = { pairBook := { b with phase := .buffering (buffer ++ [d.canonical pair]) }
            effects := [] } := by
      simp only [PairBook.handle, PairBook.onBook, hphase]
      rw [if_neg (show ¬ (d.canonical pair).isSnapshot = true by
        rw [show (d.canonical pair).isSnapshot = d.isSnapshot from rfl,
          hdelta d List.mem_cons_self]
        simp)]
      unfold PairBook.pushBuffered
      rw [if_neg (by rw [List.length_cons] at hlen; omega)]
    obtain ⟨-, hstep⟩ := step_running hs hd.2 (brings_book ho hs hd.1)
    rw [hpush] at hstep
    obtain ⟨heffects, hs'⟩ := hstep rfl
    obtain ⟨hnil, hrun⟩ := ih ho.tail (fun e he => hdelta e (List.mem_cons_of_mem _ he)) hs' rfl
      (by rw [List.length_append, List.length_singleton]; rw [List.length_cons] at hlen; omega)
    simp only [Machine.run, machine] at hnil hrun ⊢
    rw [heffects, List.nil_append]
    refine ⟨hnil, ?_⟩
    rw [List.append_assoc] at hrun
    exact hrun

end Buffering

/-! ## The rule -/

section Rule

variable {μ γ : Type} (cfg : RuntimeConfig) (pair : TradingPair)

/-- A ghost driven by what reaches a pair. -/
def ghostOf (ghost : γ → PairInput → γ) (g : γ) (s : SourceRuntime) (input : Input) : γ :=
  match (s.books.get? pair).bind (fun b => s.brings cfg pair b input.body) with
  | none => g
  | some i => ghost g i

/-- What reaches a pair is admitted in the state it finds the pair in. -/
def AdmitsPair (P : γ → PairBook → PairInput → Prop) (g : γ) (s : SourceRuntime)
    (input : Input) : Prop :=
  ∀ b i, s.outcome = none → s.books.get? pair = some b →
    s.brings cfg pair b input.body = some i → P g b i

variable {cfg pair}

/-- **The pair rule.** An invariant that a pair keeps at every input it may
meet makes every run of the runtime accepted, whatever the other pairs do. -/
theorem accepts_of_pair (A : BookMonitor μ) (ghost : γ → PairInput → γ)
    {P : γ → PairBook → PairInput → Prop} {I : γ → PairBook → μ → Prop}
    (hkept : ∀ g b m nowUs i, I g b m → P g b i →
      (∀ result, i = .fetched result → b.seeding = true) →
      (b.handle cfg pair nowUs i).Kept A pair (I (ghost g i)) m)
    {g : γ} {s : SourceRuntime} {m : μ} (h : ∀ b, s.books.get? pair = some b → I g b m)
    {inputs : List Input}
    (hin : (machine cfg).Along (ghostOf cfg pair ghost) (AdmitsPair cfg pair P) g s inputs) :
    (A.on pair).Accepts m ((machine cfg).run s inputs).2 := by
  refine (machine cfg).accepts_of_invariant (A.on pair)
    (I := fun g s m => s.outcome = none → ∀ b, s.books.get? pair = some b → I g b m)
    ?_ (fun _ => h) hin
  intro g s m input hinv hadm
  simp only [machine]
  by_cases hs : s.outcome = none
  · obtain ⟨tail, htail, hpre, hend⟩ := step_eq cfg hs input
    have htail' : ∀ e ∈ tail, e.pair? ≠ some pair := fun e he => by
      rw [htail e he]
      exact (Option.some_ne_none pair).symm
    cases hi : (s.books.get? pair).bind (fun b => s.brings cfg pair b input.body) with
    | none =>
      -- the input is none of this pair's: the monitor sees nothing of it
      obtain ⟨hother, hbooks⟩ :=
        handle_of_not_brings input.nowUs (Option.bind_eq_none_iff.mp hi)
      have hother' : ∀ e ∈ (s.step cfg input).2, e.pair? ≠ some pair := fun e he =>
        (List.mem_append.mp (hpre.mem he)).elim (hother e) (htail' e)
      obtain ⟨hacc, hafter⟩ := A.accepts_other hother' m
      refine ⟨hacc, fun hout b hb => ?_⟩
      obtain ⟨-, hout', hsame⟩ := hend hout
      rw [hsame, hbooks hout'] at hb
      rw [hafter, ghostOf, hi]
      exact hinv hs b hb
    | some i =>
      obtain ⟨b, hb, hbrings⟩ := Option.bind_eq_some_iff.mp hi
      obtain ⟨heffects, hdone⟩ := handle_of_brings input.nowUs hb hbrings
      obtain ⟨hacc, hI⟩ := hkept g b m input.nowUs i (hinv hs b hb) (hadm b i hs hb hbrings)
        (fun result hr => by
          rcases brings_cases hbrings with ⟨d, -, -, h⟩ | ⟨t, sq, -, h⟩ | ⟨r, -, hseed, -⟩
          · rw [h] at hr
            cases hr
          · rw [h] at hr
            cases hr
          · exact hseed)
      rw [heffects] at hpre hend
      -- a receiver that hangs up sees a first part of the effects only
      have hall := ((A.on pair).accepts_append m _ tail).mpr ⟨hacc, (A.accepts_other htail' _).1⟩
      obtain ⟨cut, hcut⟩ := hpre
      refine ⟨Monitor.Accepts.of_append (u := cut) (by rw [hcut]; exact hall), ?_⟩
      intro hout b' hb'
      obtain ⟨heq, hout', hsame⟩ := hend hout
      obtain ⟨hres, hget⟩ := hdone hout'
      rw [hsame, hget] at hb'
      cases hb'
      rw [heq, Monitor.after_append, (A.accepts_other htail' _).2, ghostOf, hi]
      exact hI hres
  · have hstep : s.step cfg input = (s, []) :=
      if_pos (Option.isSome_iff_ne_none.mpr hs)
    rw [hstep]
    exact ⟨trivial, fun hout => absurd hout hs⟩

/-- **The pair rule, without a ghost**: what may reach the pair is said input
by input. -/
theorem accepts_of_pair_inputs (A : BookMonitor μ) {P : PairInput → Prop}
    {I : PairBook → μ → Prop}
    (hkept : ∀ b m nowUs i, I b m → P i → (∀ result, i = .fetched result → b.seeding = true) →
      (b.handle cfg pair nowUs i).Kept A pair I m)
    {s : SourceRuntime} {m : μ} (h : ∀ b, s.books.get? pair = some b → I b m)
    {inputs : List Input}
    (hbook : ∀ input ∈ inputs, ∀ d, input.body = .event (.book d) →
      cfg.codec.decode cfg.unicode d.symbol = some pair → P (.book (d.canonical pair)))
    (hfetched : ∀ input ∈ inputs, ∀ result, input.body = .fetched pair result →
      P (.fetched result))
    (htrade : ∀ t sequence, P (.trade t sequence)) :
    (A.on pair).Accepts m ((machine cfg).run s inputs).2 := by
  refine accepts_of_pair A (fun _ _ => ()) (g := ()) (P := fun _ _ i => P i)
    (fun _ => hkept) h (Machine.along_of_forall (fun input hin _ s b i _ _ hi => ?_) _ _)
  rcases brings_cases hi with ⟨d, hbody, hdec, rfl⟩ | ⟨t, sequence, -, rfl⟩ | ⟨r, hbody, -, rfl⟩
  · exact hbook input hin d hbody hdec
  · exact htrade t sequence
  · exact hfetched input hin r hbody

end Rule

end SourceRuntime
