import Aetelier.RuntimeRuns

/-!
# Invariants of a pair

What has to be shown of an invariant of one pair, function by function: a
live apply, a replay, a seed. A replay is a loop over the buffer, so its rule
asks for a loop invariant – a property of the pair, the monitor and what is
left to replay – and the rule of a seed starts that loop.
-/

variable {cfg : RuntimeConfig} {pair : TradingPair} {nowUs : ℕ} {μ : Type} {A : BookMonitor μ}

namespace BookMonitor

@[simp] theorem accepts_applied (m : μ) (d : NormalizedDelta)
    (r : Except ResyncNeeded BookOutput) (t : List Effect) :
    (A.on pair).Accepts m (.applied pair d r :: t) ↔ (A.on pair).Accepts (A.next m d r) t := by
  rw [Monitor.accepts_cons]
  simp [on]

@[simp] theorem after_applied (m : μ) (d : NormalizedDelta)
    (r : Except ResyncNeeded BookOutput) (t : List Effect) :
    (A.on pair).after m (.applied pair d r :: t) = (A.on pair).after (A.next m d r) t := by
  rw [Monitor.after_cons]
  simp [on]

@[simp] theorem accepts_emitBook (m : μ) (b : PairBook) (t : List Effect) :
    (A.on pair).Accepts m (b.emitBook cfg pair nowUs :: t) ↔
      A.ok m (b.capture cfg pair nowUs) ∧ (A.on pair).Accepts m t := by
  rw [Monitor.accepts_cons]
  simp [on, PairBook.emitBook]

@[simp] theorem after_emitBook (m : μ) (b : PairBook) (t : List Effect) :
    (A.on pair).after m (b.emitBook cfg pair nowUs :: t) = (A.on pair).after m t := by
  rw [Monitor.after_cons]
  simp [on, PairBook.emitBook]

end BookMonitor

namespace PairBook

variable {I : PairBook → μ → Prop} {m : μ}

@[simp] theorem requestReseed_book (b : PairBook) :
    (b.requestReseed cfg pair).1.book = b.book := by
  unfold requestReseed
  split <;> rfl

@[simp] theorem requestReseed_phase (b : PairBook) :
    (b.requestReseed cfg pair).1.phase = b.phase := by
  unfold requestReseed
  split <;> rfl

theorem requestReseed_seeding (b : PairBook) (h : (b.requestReseed cfg pair).1.seeding = true) :
    b.seeding = true ∨ cfg.hasSeeder = true := by
  unfold requestReseed at h
  split at h
  · next hc => exact Or.inr hc.1
  · exact Or.inl h

theorem mem_of_mem_capBuffer {d : NormalizedDelta} {buffer : List NormalizedDelta}
    (h : d ∈ capBuffer buffer) : d ∈ buffer :=
  List.mem_of_mem_drop h

/-- Two pairs are alike if nothing an invariant speaks of tells them apart:
the book, the phase, and whether a fetch is in flight, which a new fetch may
set where there is a seeder. -/
structure Reseeds (cfg : RuntimeConfig) (b b' : PairBook) : Prop where
  /-- The book is the same. -/
  book : b'.book = b.book
  /-- The phase is the same. -/
  phase : b'.phase = b.phase
  /-- A fetch in flight was there before, or a seeder is. -/
  seeding : b'.seeding = true → b.seeding = true ∨ cfg.hasSeeder = true

theorem reseeds_requestReseed (cfg : RuntimeConfig) (pair : TradingPair) (b : PairBook) :
    Reseeds cfg b (b.requestReseed cfg pair).1 :=
  ⟨requestReseed_book b, requestReseed_phase b, requestReseed_seeding b⟩

/-- Handling without a word about books. -/
theorem kept_of_none {r : Handled} (heffects : ∀ e ∈ r.effects, e.pair? = none)
    (h : r.resync = false → I r.pairBook m) : r.Kept A pair I m := by
  obtain ⟨hacc, hafter⟩ := A.accepts_none pair heffects m
  exact ⟨hacc, fun hres => by rw [hafter]; exact h hres⟩

/-- After a refused update only bookkeeping follows. -/
theorem kept_error {r : Handled} {d : NormalizedDelta} {e : ResyncNeeded} {t : List Effect}
    (heffects : r.effects = .applied pair d (.error e) :: t) (ht : ∀ e' ∈ t, e'.pair? = none)
    (h : r.resync = false → I r.pairBook (A.next m d (.error e))) : r.Kept A pair I m := by
  obtain ⟨hacc, hafter⟩ := A.accepts_none pair ht (A.next m d (.error e))
  unfold Handled.Kept
  rw [heffects, BookMonitor.accepts_applied, BookMonitor.after_applied, hafter]
  exact ⟨hacc, h⟩

/-- After an update that was applied the book is emitted; more applies may
follow, and then only bookkeeping. -/
theorem kept_ok {r : Handled} {b : PairBook} {d : NormalizedDelta} {output : BookOutput}
    {t tail : List Effect}
    (heffects : r.effects
      = .applied pair d (.ok output) :: b.emitBook cfg pair nowUs :: t ++ tail)
    (htail : ∀ e ∈ tail, e.pair? = none)
    (hshow : A.ok (A.next m d (.ok output)) (b.capture cfg pair nowUs))
    (hacc : (A.on pair).Accepts (A.next m d (.ok output)) t)
    (h : r.resync = false → I r.pairBook ((A.on pair).after (A.next m d (.ok output)) t)) :
    r.Kept A pair I m := by
  unfold Handled.Kept
  rw [heffects]
  simp only [List.cons_append, BookMonitor.accepts_applied, BookMonitor.accepts_emitBook,
    BookMonitor.after_applied, BookMonitor.after_emitBook, Monitor.accepts_append,
    Monitor.after_append]
  rw [(A.accepts_none pair htail _).2]
  exact ⟨⟨hshow, hacc, (A.accepts_none pair htail _).1⟩, h⟩

/-- **The rule of a live apply.** -/
theorem kept_applyLive {b : PairBook} {d : NormalizedDelta}
    (hok : ∀ book output, b.book.apply cfg.crates cfg.unicode d = (book, .ok output) →
      A.ok (A.next m d (.ok output)) ((({ b with book := book }).stamp d).capture cfg pair nowUs) ∧
        I (({ b with book := book }).stamp d) (A.next m d (.ok output)))
    (herror : ∀ book e b', b.book.apply cfg.crates cfg.unicode d = (book, .error e) →
      Reseeds cfg { b with book := book, phase := .buffering [d] } b' →
      I b' (A.next m d (.error e))) :
    (b.applyLive cfg pair nowUs d).Kept A pair I m := by
  unfold applyLive
  split
  · next book output happly =>
    obtain ⟨hshow, hI⟩ := hok book output happly
    exact kept_ok (t := []) rfl (List.forall_mem_singleton.mpr rfl) hshow trivial (fun _ => hI)
  · next book e happly =>
    dsimp only
    split
    · refine kept_error rfl ?_ (fun _ => herror book e _ happly ?_)
      · refine List.forall_mem_append.mpr ⟨gapMetrics_pair? e, ?_⟩
        exact List.forall_mem_cons.mpr ⟨rfl, requestReseed_pair? _⟩
      · obtain ⟨hbook, hphase, hseeding⟩ := reseeds_requestReseed cfg pair
          { b with book := book, phase := .buffering [d], bufferingSince := some nowUs }
        exact ⟨hbook, hphase, hseeding⟩
    · exact kept_error rfl (gapMetrics_pair? e) (fun h => by cases h)

/-- What a replay leaves, by how it ended. -/
def ReplayKept (cfg : RuntimeConfig) (I : PairBook → μ → Prop) (b : PairBook) (m : μ) :
    Replay → Prop
  | .clean => I b m
  | .reseed => ∀ b', Reseeds cfg b b' → I b' m
  | .resync => True

section Replay

variable {J : PairBook → μ → List NormalizedDelta → Prop} {snapId : ℕ}

/-- **The rule of a replay.** `J` is the invariant of the loop, about the pair
and the deltas still to be replayed. -/
theorem kept_replay
    (hdone : ∀ b m, J b m [] → I { b with reseeds := 0 } m)
    (hskip : ∀ b m d rest, J b m (d :: rest) → d.updateId ≤ snapId → J b m rest)
    (hok : ∀ b m d rest book output, J b m (d :: rest) → ¬ d.updateId ≤ snapId →
      b.book.apply cfg.crates cfg.unicode d = (book, .ok output) →
      A.ok (A.next m d (.ok output)) ((({ b with book := book }).stamp d).capture cfg pair nowUs) ∧
        J (({ b with book := book }).stamp d) (A.next m d (.ok output)) rest)
    (herror : ∀ b m d rest book e b', J b m (d :: rest) → ¬ d.updateId ≤ snapId →
      b.book.apply cfg.crates cfg.unicode d = (book, .error e) →
      Reseeds cfg { b with
        book := book
        phase := .buffering (capBuffer (d :: rest)) } b' →
      I b' (A.next m d (.error e)))
    (l : List NormalizedDelta) (b : PairBook) (m : μ) (h : J b m l) :
    (A.on pair).Accepts m (b.replay cfg pair nowUs snapId l).2.1 ∧
      ReplayKept cfg I (b.replay cfg pair nowUs snapId l).1
        ((A.on pair).after m (b.replay cfg pair nowUs snapId l).2.1)
        (b.replay cfg pair nowUs snapId l).2.2 := by
  induction l generalizing b m with
  | nil => exact ⟨trivial, hdone b m h⟩
  | cons d rest ih =>
    unfold replay
    split
    · next hle => exact ih b m (hskip b m d rest h hle)
    · next hgt =>
      split
      · next book output happly =>
        obtain ⟨hshow, hJ⟩ := hok b m d rest book output h hgt happly
        obtain ⟨hacc, hkept⟩ := ih _ _ hJ
        simp only [BookMonitor.accepts_applied, BookMonitor.accepts_emitBook,
          BookMonitor.after_applied, BookMonitor.after_emitBook]
        exact ⟨⟨hshow, hacc⟩, hkept⟩
      · next book e happly =>
        -- the rest of the buffer waits for a reseed, unless the budget is spent
        dsimp only
        split
        · have ht := List.forall_mem_append.mpr ⟨gapMetrics_pair? e,
            droppedOldest_pair? pair (excessOf (d :: rest))⟩
          obtain ⟨hacc, hafter⟩ := A.accepts_none pair ht (A.next m d (.error e))
          simp only [List.cons_append, BookMonitor.accepts_applied, BookMonitor.after_applied]
          rw [hafter]
          exact ⟨hacc, fun b' hb' => herror b m d rest book e b' h hgt happly
            ⟨hb'.book, hb'.phase, hb'.seeding⟩⟩
        · have ht := List.forall_mem_append.mpr ⟨gapMetrics_pair? e,
            List.forall_mem_singleton.mpr
              (show (Effect.metric .reseedExhausted).pair? = none from rfl)⟩
          simp only [List.cons_append, BookMonitor.accepts_applied]
          exact ⟨(A.accepts_none pair ht _).1, trivial⟩

/-- **The rule of a seed.** -/
theorem kept_applySeed {b : PairBook} {seed : NormalizedDelta}
    (hseedError : ∀ book e b',
      b.book.apply cfg.crates cfg.unicode (seed.canonical pair)
        = (book, .error e) →
      Reseeds cfg { b with book := book } b' →
      I b' (A.next m (seed.canonical pair) (.error e)))
    (hseed : ∀ book output b',
      b.book.apply cfg.crates cfg.unicode (seed.canonical pair)
        = (book, .ok output) →
      b'.book = book → b'.phase = .passthrough → b'.seeding = b.seeding →
      A.ok (A.next m (seed.canonical pair) (.ok output))
          (b'.capture cfg pair nowUs) ∧
        J b' (A.next m (seed.canonical pair) (.ok output)) b.phase.buffered)
    (hdone : ∀ b m, J b m [] → I { b with reseeds := 0 } m)
    (hskip : ∀ b m d rest, J b m (d :: rest) → d.updateId ≤ seed.updateId → J b m rest)
    (hok : ∀ b m d rest book output, J b m (d :: rest) → ¬ d.updateId ≤ seed.updateId →
      b.book.apply cfg.crates cfg.unicode d = (book, .ok output) →
      A.ok (A.next m d (.ok output)) ((({ b with book := book }).stamp d).capture cfg pair nowUs) ∧
        J (({ b with book := book }).stamp d) (A.next m d (.ok output)) rest)
    (herror : ∀ b m d rest book e b', J b m (d :: rest) → ¬ d.updateId ≤ seed.updateId →
      b.book.apply cfg.crates cfg.unicode d = (book, .error e) →
      Reseeds cfg { b with
        book := book
        phase := .buffering (capBuffer (d :: rest)) } b' →
      I b' (A.next m d (.error e))) :
    (b.applySeed cfg pair nowUs seed).Kept A pair I m := by
  unfold applySeed
  dsimp only
  split
  · next book e happly =>
    split
    · refine kept_error rfl ?_
        (fun _ => hseedError book e _ happly (reseeds_requestReseed cfg pair _))
      refine List.forall_mem_cons.mpr ⟨rfl, List.forall_mem_cons.mpr ⟨rfl, ?_⟩⟩
      exact requestReseed_pair? _
    · refine kept_error rfl ?_ (fun h => by cases h)
      simp [Effect.pair?]
  · next book output happly =>
    obtain ⟨hshow, hJ⟩ := hseed book output
      (({ b with book := book }).stamp (seed.canonical pair)).goLive happly rfl rfl rfl
    obtain ⟨hacc, hkept⟩ := kept_replay hdone hskip hok herror _ _ _ hJ
    have hlive : ∀ e ∈ [Effect.noteLive pair .orders], e.pair? = none :=
      List.forall_mem_singleton.mpr rfl
    -- how the replay of the buffer ended: a reseed, live, or the budget spent
    split
    · next hend =>
      rw [hend] at hkept
      refine kept_ok (b := ({ b with book := book }).stamp (seed.canonical pair))
        (List.append_assoc _ _ _) ?_ hshow hacc
        (fun _ => hkept _ (reseeds_requestReseed cfg pair _))
      refine List.forall_mem_append.mpr ⟨hlive, ?_⟩
      exact List.forall_mem_cons.mpr ⟨rfl, requestReseed_pair? _⟩
    · next hend =>
      rw [hend] at hkept
      exact kept_ok rfl hlive hshow hacc (fun _ => hkept)
    · exact kept_ok rfl hlive hshow hacc (fun h => by cases h)

end Replay

/-- **The rule of a buffered delta.** -/
theorem kept_pushBuffered {b : PairBook} {buffer : List NormalizedDelta} {d : NormalizedDelta}
    (h : ∀ b' : PairBook, b'.book = b.book → b'.seeding = b.seeding →
      b'.phase = .buffering
        (if maxBufferedDeltas ≤ buffer.length then buffer.tail ++ [d] else buffer ++ [d]) →
      I b' m) :
    (b.pushBuffered pair buffer d).Kept A pair I m := by
  unfold pushBuffered
  split
  · next hfull =>
    rw [if_pos hfull] at h
    exact kept_of_none (droppedOldest_pair? pair _) (fun _ => h _ rfl rfl rfl)
  · next hfull =>
    rw [if_neg hfull] at h
    exact kept_of_none (fun e he => absurd he List.not_mem_nil) (fun _ => h _ rfl rfl rfl)

/-- **The rule of a seed fetch**: a failed one leaves the pair as it is. -/
theorem kept_onFetched {b : PairBook} {result : Except String NormalizedDelta}
    (hseed : ∀ seed, result = .ok seed →
      ({ b with seeding := false }.applySeed cfg pair nowUs seed).Kept A pair I m)
    (hfail : ∀ b', Reseeds cfg { b with seeding := false } b' → I b' m) :
    (b.onFetched cfg pair nowUs result).Kept A pair I m := by
  unfold onFetched
  cases result with
  | ok seed => exact hseed seed rfl
  | error e =>
    dsimp only
    split
    · refine kept_of_none ?_ (fun _ => hfail _ (reseeds_requestReseed cfg pair _))
      exact List.forall_mem_cons.mpr ⟨rfl, requestReseed_pair? _⟩
    · exact kept_of_none (by simp [Effect.pair?]) (fun h => by cases h)

/-- **The rule of a trade.** -/
theorem kept_onTrade {b : PairBook} {trade : Trade} {sequence : Option ℕ}
    (h : ∀ trades, I { b with trades := trades } m) :
    (b.onTrade trade sequence).Kept A pair I m := by
  refine kept_of_none (fun e he => ?_) (fun _ => h _)
  simp only [onTrade, List.mem_append] at he
  rcases he with (he | he) | he
  · split at he
    · rw [List.mem_singleton.mp he]
      rfl
    · cases he
  · split at he
    · revert e
      simp [Effect.pair?]
    · cases he
  · revert e
    simp [Effect.pair?]

/-! ## Invariants of the book alone

An invariant that every apply of an admitted update keeps, whether it succeeds
or fails, needs nothing of the phase. The pair keeps it as long as what it
buffers is admitted. -/

section Book

variable {J : SourcedOrderbook → μ → Prop} {D : NormalizedDelta → Prop}

/-- The book keeps an invariant, and only admitted updates are buffered. -/
def Admitted (J : SourcedOrderbook → μ → Prop) (D : NormalizedDelta → Prop) (b : PairBook)
    (m : μ) : Prop :=
  J b.book m ∧ ∀ d ∈ b.phase.buffered, D d

/-- What reaches a pair is admitted. -/
def AdmittedInput (D : NormalizedDelta → Prop) : PairInput → Prop
  | .book d => D d
  | .fetched result => ∀ seed, result = .ok seed → D seed
  | .trade _ _ => True

/-- A seed, and the replay after it, keep an invariant of the book. -/
theorem admitted_applySeed (hcanonical : ∀ d, D d → D (d.canonical pair))
    (happly : ∀ sb m d sb' result, J sb m → D d →
      sb.apply cfg.crates cfg.unicode d = (sb', result) → J sb' (A.next m d result))
    (hok : ∀ (b : PairBook) m d output, J b.book (A.next m d (.ok output)) →
      A.ok (A.next m d (.ok output)) (b.capture cfg pair nowUs))
    {b : PairBook} {seed : NormalizedDelta} (hb : Admitted J D b m) (hseed : D seed) :
    (b.applySeed cfg pair nowUs seed).Kept A pair (Admitted J D) m := by
  have hseed' := hcanonical seed hseed
  refine kept_applySeed (J := fun b m rest => b.phase = .passthrough ∧ J b.book m ∧
    ∀ d ∈ rest, D d) ?_ ?_ ?_ ?_ ?_ ?_
  · intro book e b' hresult hb'
    refine ⟨?_, ?_⟩
    · rw [hb'.book]
      exact happly _ _ _ _ _ hb.1 hseed' hresult
    · rw [hb'.phase]
      exact hb.2
  · intro book output b' hresult hbook hphase _
    have hJ := happly _ _ _ _ _ hb.1 hseed' hresult
    rw [← hbook] at hJ
    exact ⟨hok b' m _ output hJ, hphase, hJ, hb.2⟩
  · rintro b m ⟨hphase, hJ, -⟩
    refine ⟨hJ, fun d hd => ?_⟩
    dsimp only at hd
    rw [hphase] at hd
    cases hd
  · rintro b m d rest ⟨hphase, hJ, hrest⟩ _
    exact ⟨hphase, hJ, fun d' hd' => hrest d' (List.mem_cons_of_mem _ hd')⟩
  · rintro b m d rest book output ⟨hphase, hJ, hrest⟩ _ hresult
    have hJ' := happly _ _ _ _ _ hJ (hrest d List.mem_cons_self) hresult
    exact ⟨hok (({ b with book := book }).stamp d) m d output hJ', hphase, hJ',
      fun d' hd' => hrest d' (List.mem_cons_of_mem _ hd')⟩
  · rintro b m d rest book e b' ⟨hphase, hJ, hrest⟩ _ hresult hb'
    refine ⟨?_, ?_⟩
    · rw [hb'.book]
      exact happly _ _ _ _ _ hJ (hrest d List.mem_cons_self) hresult
    · rw [hb'.phase, Phase.buffered_buffering]
      exact fun d' hd' => hrest d' (mem_of_mem_capBuffer hd')

/-- **The book rule**: a pair keeps an invariant of its book at everything
admitted that reaches it. -/
theorem admitted_handle (hcanonical : ∀ d, D d → D (d.canonical pair))
    (happly : ∀ sb m d sb' result, J sb m → D d →
      sb.apply cfg.crates cfg.unicode d = (sb', result) → J sb' (A.next m d result))
    (hok : ∀ (b : PairBook) m d output, J b.book (A.next m d (.ok output)) →
      A.ok (A.next m d (.ok output)) (b.capture cfg pair nowUs))
    {b : PairBook} {i : PairInput} (hb : Admitted J D b m) (hi : AdmittedInput D i) :
    (b.handle cfg pair nowUs i).Kept A pair (Admitted J D) m := by
  cases i with
  | book d =>
    simp only [handle, onBook]
    cases hphase : b.phase with
    | buffering buffer =>
      dsimp only
      split
      · exact admitted_applySeed hcanonical happly hok hb hi
      · refine kept_pushBuffered (fun b' hbook _ hphase' => ⟨hbook ▸ hb.1, fun d' hd' => ?_⟩)
        have hbuffer : ∀ d' ∈ buffer, D d' := fun d' hd' =>
          hb.2 d' (by rw [hphase, Phase.buffered_buffering]; exact hd')
        rw [hphase', Phase.buffered_buffering] at hd'
        split at hd'
        · rcases List.mem_append.mp hd' with hd' | hd'
          · exact hbuffer d' (List.mem_of_mem_tail hd')
          · exact List.mem_singleton.mp hd' ▸ hi
        · rcases List.mem_append.mp hd' with hd' | hd'
          · exact hbuffer d' hd'
          · exact List.mem_singleton.mp hd' ▸ hi
    | passthrough =>
      refine kept_applyLive (fun book output hresult => ?_) (fun book e b' hresult hb' => ?_)
      · have hJ := happly _ _ _ _ _ hb.1 hi hresult
        exact ⟨hok (({ b with book := book }).stamp d) m d output hJ, hJ, hb.2⟩
      · refine ⟨?_, ?_⟩
        · rw [hb'.book]
          exact happly _ _ _ _ _ hb.1 hi hresult
        · rw [hb'.phase]
          exact List.forall_mem_singleton.mpr hi
  | fetched result =>
    refine kept_onFetched (fun seed hseed => ?_) (fun b' hb' => ?_)
    · exact admitted_applySeed hcanonical happly hok hb (hi seed hseed)
    · refine ⟨?_, ?_⟩
      · rw [hb'.book]
        exact hb.1
      · rw [hb'.phase]
        exact hb.2
  | trade t sequence => exact kept_onTrade (fun _ => hb)

end Book

end PairBook

/-! ## Where a run starts -/

namespace SourceRuntime

theorem new_get? {hasher : RandomState TradingPair} {wireSymbols : List String} {b : PairBook}
    (h : (new cfg hasher nowUs wireSymbols).get? pair = some b) :
    ∃ wire, b = PairBook.new cfg pair nowUs wire := by
  unfold new at h
  have hbooks : ∀ b, (HashMap.empty hasher : HashMap TradingPair PairBook).get? pair = some b →
      ∃ wire, b = PairBook.new cfg pair nowUs wire := fun b hb => by cases hb
  generalize HashMap.empty hasher = books at h hbooks
  induction wireSymbols generalizing books with
  | nil => exact hbooks b h
  | cons wire rest ih =>
    refine ih _ h (fun b hb => ?_)
    dsimp only at hb
    split at hb
    · exact hbooks b hb
    · next q hq =>
      rw [HashMap.get?_insert] at hb
      split at hb
      · next hpair =>
        cases hb
        exact ⟨wire, by rw [hpair]⟩
      · exact hbooks b hb

/-- A pair that some symbol decodes to is tracked. -/
theorem new_isSome (cfg : RuntimeConfig) (hasher : RandomState TradingPair) (nowUs : ℕ)
    {wireSymbols : List String}
    (h : ∃ wire ∈ wireSymbols, cfg.codec.decode cfg.unicode wire = some pair) :
    ((new cfg hasher nowUs wireSymbols).get? pair).isSome := by
  unfold new
  have hbooks : ((HashMap.empty hasher : HashMap TradingPair PairBook).get? pair).isSome ∨
      ∃ wire ∈ wireSymbols, cfg.codec.decode cfg.unicode wire = some pair := Or.inr h
  clear h
  generalize HashMap.empty hasher = books at hbooks ⊢
  induction wireSymbols generalizing books with
  | nil => exact hbooks.resolve_right (by simp)
  | cons wire rest ih =>
    refine ih _ ?_
    by_cases hwire : cfg.codec.decode cfg.unicode wire = some pair
    · left
      simp only [hwire]
      rw [HashMap.get?_insert, if_pos rfl]
      rfl
    · rcases hbooks with hbooks | ⟨w, hw, hdec⟩
      · left
        dsimp only
        cases hdec : cfg.codec.decode cfg.unicode wire with
        | none => exact hbooks
        | some q =>
          dsimp only
          rw [HashMap.get?_insert, if_neg (fun hq => hwire (by rw [hdec, hq]))]
          exact hbooks
      · right
        rcases List.mem_cons.mp hw with rfl | hw
        · exact absurd hdec hwire
        · exact ⟨w, hw, hdec⟩

/-- **A pair before the loop**: a new book, nothing buffered, and a fetch in
flight only where the pair buffers for it. -/
theorem start_get? {hasher : RandomState TradingPair} {wireSymbols : List String} {b : PairBook}
    (h : (start cfg hasher nowUs wireSymbols).1.books.get? pair = some b) :
    b.book = (SourcedOrderbook.new pair cfg.model cfg.recovery).armConfigDepth cfg.maxDepth ∧
      b.phase.buffered = [] ∧
      (b.seeding = true → b.phase.isBuffering = true ∧ cfg.hasSeeder = true) := by
  have hphase : ∀ wire, (PairBook.new cfg pair nowUs wire).phase.buffered = [] := by
    intro wire
    unfold PairBook.new
    dsimp only
    split <;> rfl
  unfold start at h
  dsimp only at h
  split at h
  · next hrest =>
    split at h
    · next hseeder =>
      rw [HashMap.get?_mapValues] at h
      obtain ⟨b', hb', rfl⟩ := Option.map_eq_some_iff.mp h
      obtain ⟨wire, rfl⟩ := new_get? hb'
      refine ⟨rfl, hphase wire, fun _ => ⟨?_, hseeder⟩⟩
      have hout : cfg.seedsOutOfBand = true := by
        unfold RuntimeConfig.needsRest ReconstructionModel.needsRest at hrest
        unfold RuntimeConfig.seedsOutOfBand ReconstructionModel.seedsOutOfBand
        simp only [Bool.and_eq_true, decide_eq_true_eq] at hrest ⊢
        exact ⟨Or.inl hrest.1, hrest.2⟩
      simp [PairBook.new, hout, Phase.isBuffering]
    · rw [HashMap.get?_mapValues] at h
      obtain ⟨b', hb', rfl⟩ := Option.map_eq_some_iff.mp h
      obtain ⟨wire, rfl⟩ := new_get? hb'
      exact ⟨rfl, rfl, fun hs => by cases hs⟩
  · obtain ⟨wire, rfl⟩ := new_get? h
    exact ⟨rfl, hphase wire, fun hs => by cases hs⟩

/-- **The book rule for runs.** An invariant of the book that holds of a new
book and that every apply of an admitted update keeps makes every run
accepted, if only admitted updates reach the pair. -/
theorem accepts_of_book {J : SourcedOrderbook → μ → Prop} {D : NormalizedDelta → Prop} {m : μ}
    (hcanonical : ∀ d, D d → D (d.canonical pair))
    (happly : ∀ sb m d sb' result, J sb m → D d →
      sb.apply cfg.crates cfg.unicode d = (sb', result) → J sb' (A.next m d result))
    (hok : ∀ (b : PairBook) nowUs m d output, J b.book (A.next m d (.ok output)) →
      A.ok (A.next m d (.ok output)) (b.capture cfg pair nowUs))
    (hstart : J ((SourcedOrderbook.new pair cfg.model cfg.recovery).armConfigDepth cfg.maxDepth) m)
    {hasher : RandomState TradingPair} {wireSymbols : List String} {inputs : List Input}
    (hframes : ∀ input ∈ inputs, ∀ d, input.body = .event (.book d) →
      cfg.codec.decode cfg.unicode d.symbol = some pair → D d)
    (hseeds : ∀ input ∈ inputs, ∀ seed, input.body = .fetched pair (.ok seed) → D seed) :
    (A.on pair).Accepts m
      ((machine cfg).run (start cfg hasher nowUs wireSymbols).1 inputs).2 := by
  refine accepts_of_pair_inputs A (P := PairBook.AdmittedInput D) (I := PairBook.Admitted J D)
    (fun b m nowUs i hb hi _ =>
      PairBook.admitted_handle hcanonical happly (fun b => hok b nowUs) hb hi)
    (fun b hb => ?_) ?_ ?_ (fun _ _ => trivial)
  · obtain ⟨hbook, hbuffered, -⟩ := start_get? hb
    unfold PairBook.Admitted
    rw [hbook, hbuffered]
    exact ⟨hstart, fun d hd => by cases hd⟩
  · exact fun input hin d hbody hdec => hcanonical d (hframes input hin d hbody hdec)
  · rintro input hin result hbody seed rfl
    exact hseeds input hin seed hbody

end SourceRuntime

/-! ## A REST-seeded venue -/

namespace RuntimeConfig

/-- A venue whose deltas cover ranges of ids and whose books are seeded over
REST. -/
def restVenue : RuntimeConfig where
  crates := Crates.plain
  unicode := ⟨id, id⟩
  exchange := "binance"
  codec := .concat true
  model := .seqDelta .rangeInclusive .restSnapshot
  recovery := .restSnapshot
  maxDepth := none
  declared := [.orderbook]
  hasSeeder := true

end RuntimeConfig

/-- A delta of `BTCUSDT` over a range of ids. -/
def NormalizedDelta.diff (first last : ℕ) (bids asks : List (String × String)) :
    NormalizedDelta where
  symbol := "BTCUSDT"
  bids := bids
  asks := asks
  updateId := last
  sequence := first
  isSnapshot := false

/-- A snapshot of `BTCUSDT`. -/
def NormalizedDelta.snap (id : ℕ) (bids asks : List (String × String)) : NormalizedDelta where
  symbol := "BTCUSDT"
  bids := bids
  asks := asks
  updateId := id
  sequence := 0
  isSnapshot := true

/-- The arrival of a delta of `BTCUSDT`. -/
def Input.frame (first last : ℕ) (bids asks : List (String × String)) : Input :=
  { body := .event (.book (.diff first last bids asks)) }

/-- The arrival of a seed of `BTCUSDT`. -/
def Input.seed (id : ℕ) (bids asks : List (String × String)) : Input :=
  { body := .fetched ⟨"BTC", "USDT"⟩ (.ok (.snap id bids asks)) }

/-- The updates applied in a trace, by id, and whether they applied. -/
def Effect.applies (t : List Effect) : List (ℕ × Bool) :=
  t.filterMap (fun e => match e with
    | .applied _ d (.ok _) => some (d.updateId, true)
    | .applied _ d (.error _) => some (d.updateId, false)
    | _ => none)
