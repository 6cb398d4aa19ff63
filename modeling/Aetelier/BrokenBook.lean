import Aetelier.PairInvariants

/-!
# No book is emitted from a broken book

An update that does not apply leaves a book that cannot be trusted: the sides
may be half changed and the last id is the old one. Nothing in the book
prevents the next delta from being applied on top. What prevents it is the
runtime: a pair whose update failed buffers what follows until a seed has been
applied, or the run ends.

The argument is an invariant on two flags of a pair. A broken book is in the
buffering phase, and so is a pair with a seed fetch in flight – the second is
what keeps a seed that arrives, and fails, from breaking the book of a live
pair. It holds as long as a pair with a seeder gets no snapshots from the
stream: one would take the pair live while its fetch is still out.
-/

/-- The best bid of an emitted book is below its best ask. -/
def Orderbook.Uncrossed (book : Orderbook) : Prop :=
  ∀ bid ask, book.bids.last? = some bid → book.asks.first? = some ask →
    bid.1.value < ask.1.value

/-- **The monitor of broken books.** The state says whether the last snapshot
applied has been followed by a failed apply; an emitted book must find it
unset, and be uncrossed. -/
def brokenBook : BookMonitor Bool where
  next broken _
    | .error _ => true
    | .ok .snapshot => false
    | .ok .applied => broken
  ok broken book := broken = false ∧ book.Uncrossed

namespace PairBook

variable {cfg : RuntimeConfig} {pair : TradingPair} {nowUs : ℕ}

/-- An uncrossed book is emitted uncrossed. -/
theorem uncrossed_capture {b : PairBook} (h : SourcedOrderbook.crossed? b.book.book = none) :
    (b.capture cfg pair nowUs).Uncrossed := by
  intro bid ask hbid hask
  have hheld : ∀ (side : PriceMap Level) (held : PriceMap Decimal) (e : Decimal × Level),
      (∀ q, shownAt side q = (OrderbookDelta.sizeAt held q).map (Prod.mk q)) →
      e ∈ side.entries → (OrderbookDelta.sizeAt held e.1.value).isSome := by
    intro side held e hshown he
    have hq := hshown e.1.value
    rw [shownAt, side.get?_of_mem he] at hq
    rw [← Option.isSome_map (f := Prod.mk e.1.value), ← hq]
    rfl
  exact SourcedOrderbook.crossed?_eq_none_iff.mp h _ _
    (hheld _ _ bid (fun q => (b.shownAt_capture q).1) (OrdMap.mem_of_last? hbid))
    (hheld _ _ ask (fun q => (b.shownAt_capture q).2) (OrdMap.mem_of_first? hask))

/-- **The invariant**: a broken book buffers, and so does a pair with a fetch
in flight. -/
structure Quarantined (cfg : RuntimeConfig) (b : PairBook) (broken : Bool) : Prop where
  /-- A broken book is in the buffering phase. -/
  broken : broken = true → b.phase.isBuffering = true
  /-- A pair that awaits a fetch is in the buffering phase, and has a seeder. -/
  seeding : b.seeding = true → b.phase.isBuffering = true ∧ cfg.hasSeeder = true

/-- What reaches a pair: no snapshot from the stream where there is a seeder,
and nothing but snapshots from the seeder. -/
def SeededApart (cfg : RuntimeConfig) : PairInput → Prop
  | .book d => cfg.hasSeeder = true → d.isSnapshot = false
  | .fetched result => ∀ seed, result = .ok seed → seed.isSnapshot = true
  | .trade _ _ => True

/-- A pair that buffers stays quarantined, whatever happened to its book. -/
theorem quarantined_of_reseeds {b b' : PairBook} {broken : Bool} (h : Reseeds cfg b b')
    (hphase : b.phase.isBuffering = true)
    (hseeding : b.seeding = true → cfg.hasSeeder = true) : Quarantined cfg b' broken := by
  have hphase' : b'.phase.isBuffering = true := by rw [h.phase, hphase]
  exact ⟨fun _ => hphase', fun hs => ⟨hphase', (h.seeding hs).elim hseeding id⟩⟩

/-- A snapshot seeds a quarantined pair. -/
theorem quarantined_applySeed {b : PairBook} {broken : Bool} {seed : NormalizedDelta}
    (hphase : b.phase.isBuffering = true) (hseeding : b.seeding = false)
    (hsnap : seed.isSnapshot = true) :
    (b.applySeed cfg pair nowUs seed).Kept brokenBook pair (Quarantined cfg) broken := by
  refine kept_applySeed
    (J := fun b broken _ => b.phase = .passthrough ∧ b.seeding = false ∧ broken = false)
    ?_ ?_ ?_ ?_ ?_ ?_
  · intro book e b' _ hb'
    exact quarantined_of_reseeds hb' hphase (fun h => by rw [hseeding] at h; cases h)
  · intro book output b' happly hbook hphase' hseeding'
    have hsnap' : (seed.canonical pair).isSnapshot = true := hsnap
    have houtput : output = .snapshot := SourcedOrderbook.apply_snapshot hsnap' happly
    subst houtput
    refine ⟨⟨rfl, uncrossed_capture ?_⟩, hphase', hseeding'.trans hseeding, rfl⟩
    rw [hbook]
    exact (SourcedOrderbook.apply_ok happly).2
  · rintro b m ⟨hphase, hseeding, rfl⟩
    exact ⟨(fun h => by cases h), fun h => by rw [hseeding] at h; cases h⟩
  · exact fun b m d rest h _ => h
  · rintro b m d rest book output ⟨hphase, hseeding, rfl⟩ _ happly
    have hnext : brokenBook.next false d (.ok output) = false := by cases output <;> rfl
    rw [hnext]
    exact ⟨⟨rfl, uncrossed_capture (SourcedOrderbook.apply_ok happly).2⟩, hphase, hseeding, rfl⟩
  · rintro b m d rest book e b' ⟨hphase, hseeding, rfl⟩ _ _ hb'
    exact quarantined_of_reseeds hb' rfl (fun h => by rw [hseeding] at h; cases h)

/-- **A pair stays quarantined** at everything that reaches it. -/
theorem quarantined_handle {b : PairBook} {broken : Bool} {i : PairInput}
    (h : Quarantined cfg b broken) (hi : SeededApart cfg i)
    (hfetched : ∀ result, i = .fetched result → b.seeding = true) :
    (b.handle cfg pair nowUs i).Kept brokenBook pair (Quarantined cfg) broken := by
  cases i with
  | book d =>
    simp only [handle, onBook]
    cases hphase : b.phase with
    | buffering buffer =>
      have hbuf : b.phase.isBuffering = true := by rw [hphase]; rfl
      dsimp only
      split
      · next hsnap =>
        refine quarantined_applySeed hbuf (Bool.eq_false_iff.mpr (fun hs => ?_)) hsnap
        rw [hi (h.seeding hs).2] at hsnap
        cases hsnap
      · refine kept_pushBuffered (fun b' _ hseeding hphase' => ?_)
        have hbuf' : b'.phase.isBuffering = true := by rw [hphase']; rfl
        exact ⟨fun _ => hbuf', fun hs => ⟨hbuf', (h.seeding (hseeding ▸ hs)).2⟩⟩
    | passthrough =>
      have hlive : b.phase.isBuffering = false := by rw [hphase]; rfl
      have hbroken : broken = false :=
        Bool.eq_false_iff.mpr (fun hb => by rw [h.broken hb] at hlive; cases hlive)
      have hseeding : b.seeding = false :=
        Bool.eq_false_iff.mpr (fun hs => by rw [(h.seeding hs).1] at hlive; cases hlive)
      subst hbroken
      refine kept_applyLive (fun book output happly => ?_) (fun book e b' _ hb' => ?_)
      · have hnext : brokenBook.next false d (.ok output) = false := by cases output <;> rfl
        rw [hnext]
        refine ⟨⟨rfl, uncrossed_capture (SourcedOrderbook.apply_ok happly).2⟩, ?_⟩
        exact ⟨(fun hb => by cases hb), h.seeding⟩
      · exact quarantined_of_reseeds hb' rfl (fun hs => by rw [hseeding] at hs; cases hs)
  | fetched result =>
    have hbuf := (h.seeding (hfetched result rfl)).1
    refine kept_onFetched (fun seed hseed => ?_) (fun b' hb' => ?_)
    · exact quarantined_applySeed hbuf rfl (hi seed hseed)
    · exact quarantined_of_reseeds hb' hbuf (fun hs => by cases hs)
  | trade t sequence => exact kept_onTrade (fun _ => ⟨h.broken, h.seeding⟩)

end PairBook

namespace SourceRuntime

variable {cfg : RuntimeConfig}

/-- **No emission from a broken book.** In every run, under every model, once
an update of a pair has failed to apply no book of the pair is emitted until a
snapshot has been applied, and every emitted book is uncrossed. -/
theorem broken_never_emitted (pair : TradingPair) (hasher : RandomState TradingPair) (nowUs : ℕ)
    (wireSymbols : List String) (inputs : List Input)
    (hstream : cfg.hasSeeder = true → ∀ input ∈ inputs, ∀ d, input.body = .event (.book d) →
      cfg.codec.decode cfg.unicode d.symbol = some pair → d.isSnapshot = false)
    (hseeds : ∀ input ∈ inputs, ∀ seed, input.body = .fetched pair (.ok seed) →
      seed.isSnapshot = true) :
    (brokenBook.on pair).Accepts false
      ((machine cfg).run (start cfg hasher nowUs wireSymbols).1 inputs).2 := by
  refine accepts_of_pair_inputs brokenBook (P := PairBook.SeededApart cfg)
    (I := PairBook.Quarantined cfg) (fun b m nowUs i h hi hf => PairBook.quarantined_handle h hi hf)
    (fun b hb => ⟨(fun h => by cases h), (start_get? hb).2.2⟩) ?_ ?_ (fun _ _ => trivial)
  · exact fun input hin d hbody hdec hseeder => hstream hseeder input hin d hbody hdec
  · rintro input hin result hbody seed rfl
    exact hseeds input hin seed hbody

/-- A gap at id 9 breaks the book; what follows waits for the next seed. -/
theorem broken_never_emitted_of_gap :
    Effect.applies ((machine .restVenue).run
        (start .restVenue RandomState.table 0 ["BTCUSDT"]).1
        [.seed 5 [("99", "1")] [("101", "2")], .frame 9 9 [("100", "1")] [],
          .frame 10 10 [("100", "3")] [], .seed 9 [("100", "1")] [("101", "2")],
          .frame 11 11 [] [("101", "0")]]).2
      = [(5, true), (9, false), (9, true), (10, true), (11, true)] ∧
    (brokenBook.on ⟨"BTC", "USDT"⟩).Accepts false ((machine .restVenue).run
        (start .restVenue RandomState.table 0 ["BTCUSDT"]).1
        [.seed 5 [("99", "1")] [("101", "2")], .frame 9 9 [("100", "1")] [],
          .frame 10 10 [("100", "3")] [], .seed 9 [("100", "1")] [("101", "2")],
          .frame 11 11 [] [("101", "0")]]).2 := by
  refine ⟨by decide, ?_⟩
  with_reducible apply broken_never_emitted
  · intro _ input hin d hd _
    simp only [List.mem_cons, List.not_mem_nil, or_false] at hin
    rcases hin with rfl | rfl | rfl | rfl | rfl <;> cases hd <;> rfl
  · intro input hin seed hseed
    simp only [List.mem_cons, List.not_mem_nil, or_false] at hin
    rcases hin with rfl | rfl | rfl | rfl | rfl <;> cases hseed <;> rfl

end SourceRuntime
