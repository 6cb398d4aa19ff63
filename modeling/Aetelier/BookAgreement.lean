import Aetelier.LegacyFeed
import Aetelier.RuntimeRuns
import Aetelier.StatedSides

/-!
# The legacy path beside the framework

A worker of the legacy path passes the levels of a frame on as a book. The
framework keeps a book, and passes it on after the frame. For a stream that
loses nothing the two agree on every frame exactly if every frame states the
book by itself: what its converter keeps of a side states the side the frame
leaves, and the converter passes the time on in microseconds.

Full books do. A change does if it lists the whole book, or a full depth of
it, and removes nothing; a frame of Binance with the time in milliseconds
never does.
-/

open OrderbookDelta

/-! ## What a converted frame says -/

/-- Price and volume of a level, as numbers. -/
def Level.valued (l : Level) : ℚ × ℚ := (l.price.value, l.volume.value)

namespace Orderbook

/-- A side of a book. -/
def levelsOf (ob : Orderbook) : OrderSide → PriceMap Level
  | .bids => ob.bids
  | .asks => ob.asks

/-- The volume a book has at a price, if it has a level there. -/
def volumeAt (ob : Orderbook) (side : OrderSide) (q : ℚ) : Option ℚ :=
  ((ob.levelsOf side).get? q).map (·.volume.value)

/-- A book has at a price what its levels say last of it. -/
theorem volumeAt_fromLevels (id tsUs : ℕ) (pair : TradingPair) (exchange : String)
    (bids asks : List Level) (side : OrderSide) (q : ℚ) :
    (fromLevels id tsUs pair exchange bids asks).volumeAt side q
      = said ((match side with | .bids => bids | .asks => asks).map Level.valued) q := by
  have hsaid : ∀ levels : List Level,
      ((OrdMap.ofList (levels.map (fun l => (l.price, l))) : PriceMap Level).get? q).map
        (·.volume.value) = said (levels.map Level.valued) q := by
    intro levels
    unfold said
    rw [OrdMap.get?_ofList_last, ← List.map_reverse, ← List.map_reverse, List.find?_map,
      List.find?_map, Option.map_map, Option.map_map, Option.map_map]
    rfl
  cases side with
  | bids => exact hsaid bids
  | asks => exact hsaid asks

end Orderbook

/-- **The book of a call shows quotes**: it has the time of the call, and at a
price what the quotes of the side say last of it. -/
def OrderbookCall.Shows (call : OrderbookCall) (K : OrderSide → List (ℚ × ℚ)) : Prop :=
  call.snapshot.orderbookTsUs = call.exchangeTsUs ∧
    ∀ side q, call.snapshot.volumeAt side q = said (K side) q

namespace LegacyConfig

variable (cfg : LegacyConfig)

/-- An entry of a frame as the legacy converters read it. -/
def readQuote (entry : String × String) : ℚ × ℚ :=
  ((cfg.readFloat entry.1).value, (cfg.readFloat entry.2).value)

/-- The entries of a frame for a side that its converter keeps. -/
def keptEntries (ev : ExchangeEvent) (side : OrderSide) : List (String × String) :=
  match ev, side with
  | .bybit resp, .bids => resp.bids
  | .bybit resp, .asks => resp.asks
  | .coinbase resp, side =>
    ((resp.events.head?.map (fun event => entriesOf event side)).getD []).take cfg.obDepth
  | .kraken resp, .bids => (resp.data.head?.map KrakenBookData.bids).getD []
  | .kraken resp, .asks => (resp.data.head?.map KrakenBookData.asks).getD []
  | .binance (.depthUpdate upd), .bids => upd.bids
  | .binance (.depthUpdate upd), .asks => upd.asks
  | .binance (.depthSnapshot snap), .bids => snap.bids.take cfg.obDepth
  | .binance (.depthSnapshot snap), .asks => snap.asks.take cfg.obDepth
  | _, _ => []

/-- The quotes a converted frame states for a side. -/
def quotesOf (ev : ExchangeEvent) (side : OrderSide) : List (ℚ × ℚ) :=
  (cfg.keptEntries ev side).map cfg.readQuote

variable {cfg}

theorem valued_mapIdx (side : OrderSide) (entries : List (String × String)) :
    (entries.mapIdx (cfg.toLevel side)).map Level.valued = entries.map cfg.readQuote := by
  rw [List.mapIdx_eq_zipIdx_map, List.map_map]
  conv_rhs => rw [← List.zipIdx_map_fst 0 entries, List.map_map]
  rfl

/-- The levels of a Coinbase event, whatever their numbers. -/
theorem valued_updates (event : CoinbaseL2Event) (side : OrderSide) :
    (event.updates.zipIdx.filterMap (fun ui => if sideOf ui.1 = some side then
        some (cfg.toLevel side ui.2 (ui.1.priceLevel, ui.1.newQuantity)) else none)).map
          Level.valued
      = (entriesOf event side).map cfg.readQuote := by
  have hfst : ∀ l : List (CoinbaseL2Update × ℕ),
      (l.filterMap (fun ui => if sideOf ui.1 = some side then
          some (cfg.toLevel side ui.2 (ui.1.priceLevel, ui.1.newQuantity)) else none)).map
            Level.valued
        = (((l.map Prod.fst).filter (fun update => sideOf update = some side)).map
            (fun update => (update.priceLevel, update.newQuantity))).map cfg.readQuote := by
    intro l
    induction l with
    | nil => rfl
    | cons ui l ih =>
      by_cases hside : sideOf ui.1 = some side
      · simp only [List.filterMap_cons, hside, if_true, List.map_cons, List.filter_cons,
          decide_true, ih]
        rfl
      · simp only [List.filterMap_cons, hside, if_false, List.map_cons, List.filter_cons,
          decide_false, Bool.false_eq_true, ih]
  unfold entriesOf
  rw [hfst, List.zipIdx_map_fst]

/-- A converted book shows, at the time of the call, what the quotes of its
sides say last. -/
theorem toCall_shows {K : OrderSide → List (ℚ × ℚ)} {exchange : String} {tsUs : ℕ}
    {bids asks : List Level} (hbids : bids.map Level.valued = K .bids)
    (hasks : asks.map Level.valued = K .asks) : (cfg.toCall exchange tsUs bids asks).Shows K := by
  refine ⟨rfl, fun side q => ?_⟩
  refine (Orderbook.volumeAt_fromLevels 0 tsUs cfg.pair exchange bids asks side q).trans ?_
  cases side with
  | bids => exact congrArg (said · q) hbids
  | asks => exact congrArg (said · q) hasks

/-- The same of sides that are converted entry by entry. -/
theorem toCall_mapIdx_shows {K : OrderSide → List (ℚ × ℚ)} {exchange : String} {tsUs : ℕ}
    {bids asks : List (String × String)} (hbids : K .bids = bids.map cfg.readQuote)
    (hasks : K .asks = asks.map cfg.readQuote) :
    (cfg.toCall exchange tsUs (bids.mapIdx (cfg.toLevel .bids))
      (asks.mapIdx (cfg.toLevel .asks))).Shows K :=
  toCall_shows ((valued_mapIdx .bids bids).trans hbids.symm)
    ((valued_mapIdx .asks asks).trans hasks.symm)

/-- **What a frame is turned into**: a book at the time of the call that has
at a price what the kept entries, read as floats, say last of it. -/
theorem feedEvent_shows {ev : ExchangeEvent} {call : OrderbookCall}
    (h : cfg.feedEvent ev = some call) : call.Shows (cfg.quotesOf ev) := by
  cases ev with
  | bybit resp =>
    obtain rfl := (Option.some.inj h).symm
    exact toCall_mapIdx_shows rfl rfl
  | coinbase resp =>
    obtain ⟨event, hevent, rfl⟩ := Option.map_eq_some_iff.mp h
    have hkept : ∀ side, cfg.quotesOf (.coinbase resp) side
        = ((entriesOf event side).take cfg.obDepth).map cfg.readQuote := by
      intro side
      unfold quotesOf keptEntries
      cases side <;> dsimp only <;> rw [hevent] <;> rfl
    refine toCall_shows ?_ ?_
    · rw [hkept, List.map_take, List.map_take, valued_updates]
    · rw [hkept, List.map_take, List.map_take, valued_updates]
  | kraken resp =>
    obtain ⟨book, hbook, rfl⟩ := Option.map_eq_some_iff.mp h
    refine toCall_mapIdx_shows ?_ ?_
    · unfold quotesOf keptEntries
      dsimp only
      rw [hbook]
      rfl
    · unfold quotesOf keptEntries
      dsimp only
      rw [hbook]
      rfl
  | binance event =>
    cases event with
    | depthUpdate upd =>
      obtain rfl := (Option.some.inj h).symm
      exact toCall_mapIdx_shows rfl rfl
    | depthSnapshot snap =>
      obtain rfl := (Option.some.inj h).symm
      exact toCall_mapIdx_shows rfl rfl
    | tradeData => exact nomatch h
  | other => exact nomatch h

end LegacyConfig

/-! ## What becomes of the book -/

/-- A side of an incremental book. -/
def OrderbookDelta.sideLevels (ob : OrderbookDelta) : OrderSide → PriceMap Decimal
  | .bids => ob.bids
  | .asks => ob.asks

/-- The entries of a delta for a side. -/
def NormalizedDelta.entriesFor (d : NormalizedDelta) : OrderSide → List (String × String)
  | .bids => d.bids
  | .asks => d.asks

theorem cut_cut (depth : Option ℕ) (side : OrderSide) (m : PriceMap Decimal) :
    cut depth side (cut depth side m) = cut depth side m := by
  cases depth with
  | none => rfl
  | some n =>
    refine windowOf_eq (fun e' he' => ⟨e', mem_of_mem_windowOf he', rfl⟩) (fun e he => he)

namespace SourcedOrderbook

variable {x : Crates} {u : Unicode} {sb : SourcedOrderbook} {d : NormalizedDelta}
  {depth : Option ℕ}

/-- The models that feed every update to the book as it comes. -/
inductive Incremental : ReconstructionModel → Prop where
  | seqDelta (predicate : SeqPredicate) (source : SnapshotSource) :
    Incremental (.seqDelta predicate source)
  | checksumDelta (fmt : ChecksumFmt) : Incremental (.checksumDelta fmt)

/-- An update that applies is processed. -/
theorem process_of_apply (hmodel : Incremental sb.model) (h : (sb.apply x u d).2.isOk = true) :
    ∃ r, (sb.book.process x u d).2 = .ok r ∧
      (sb.apply x u d).1.book = (sb.book.process x u d).1 := by
  obtain ⟨output, hok⟩ : ∃ output, (sb.apply x u d).2 = .ok output := by
    cases hres : (sb.apply x u d).2 with
    | error e =>
      rw [hres] at h
      exact Bool.noConfusion h
    | ok output => exact ⟨output, rfl⟩
  cases hm : sb.model with
  | checksumDelta fmt =>
    obtain ⟨r, hr⟩ := process_of_apply_ok hm hok
    exact ⟨r, hr, apply_checksummed_book hm⟩
  | seqDelta predicate source =>
    have happly := (apply_ok (Prod.ext rfl hok)).1
    unfold applyModel at happly
    rw [hm] at happly
    dsimp only at happly
    have hprocessed : ∀ out, sb.processed x u d (synced out) = ((sb.apply x u d).1, .ok output) →
        ∃ r, (sb.book.process x u d).2 = .ok r ∧
          (sb.apply x u d).1.book = (sb.book.process x u d).1 := by
      intro out hout
      obtain ⟨r, hr, hnext⟩ := processed_ok hout
      exact ⟨r, hr, (congrArg (fun applied => applied.1.book) hnext).symm⟩
    unfold applySeqDelta at happly
    split at happly
    · exact hprocessed _ happly
    · split at happly
      · cases (Prod.ext_iff.mp happly).2
      · split at happly
        · cases (Prod.ext_iff.mp happly).2
        · exact hprocessed _ happly
  | fullRefresh =>
    rw [hm] at hmodel
    cases hmodel
  | l3 source =>
    rw [hm] at hmodel
    cases hmodel

/-- Every update of a list applies. -/
def AppliesAll (x : Crates) (u : Unicode) : SourcedOrderbook → List NormalizedDelta → Prop
  | _, [] => True
  | sb, d :: ds => (sb.apply x u d).2.isOk = true ∧ AppliesAll x u (sb.apply x u d).1 ds

instance decidableAppliesAll (x : Crates) (u : Unicode) :
    (sb : SourcedOrderbook) → (ds : List NormalizedDelta) → Decidable (AppliesAll x u sb ds)
  | _, [] => .isTrue trivial
  | sb, d :: ds =>
    have := decidableAppliesAll x u (sb.apply x u d).1 ds
    inferInstanceAs (Decidable (_ ∧ AppliesAll x u (sb.apply x u d).1 ds))

/-- The last of a list of updates that apply. -/
theorem AppliesAll.last {ds : List NormalizedDelta} (h : AppliesAll x u sb (ds ++ [d])) :
    ((sb.applyAll x u ds).apply x u d).2.isOk = true := by
  induction ds generalizing sb with
  | nil => exact h.1
  | cons d' ds ih => exact ih h.2

/-- A side as a list of updates leaves it, before the last cut. -/
def uncut (x : Crates) (u : Unicode) (sb : SourcedOrderbook) :
    List NormalizedDelta → OrderSide → PriceMap Decimal
  | [], side => sb.book.sideLevels side
  | [d], side => sideAfter x d (d.entriesFor side) (sb.book.sideLevels side)
  | d :: ds, side => uncut x u (sb.apply x u d).1 ds side

/-- A book that is kept at a depth. -/
structure KeptAt (depth : Option ℕ) (sb : SourcedOrderbook) : Prop where
  model : Incremental sb.model
  maxDepth : sb.book.maxDepth = depth
  fits : ∀ side, cut depth side (sb.book.sideLevels side) = sb.book.sideLevels side

/-- **An update that applies**: each side takes its entries and is cut. -/
theorem KeptAt.apply (h : KeptAt depth sb) (hok : (sb.apply x u d).2.isOk = true) :
    KeptAt depth (sb.apply x u d).1 ∧ ∀ side, (sb.apply x u d).1.book.sideLevels side
      = cut depth side (sideAfter x d (d.entriesFor side) (sb.book.sideLevels side)) := by
  obtain ⟨r, hr, hbook⟩ := process_of_apply h.model hok
  obtain ⟨-, -, hbids, hasks⟩ := process_of_acceptable (acceptable_of_ok hr)
  have hsides : ∀ side, (sb.apply x u d).1.book.sideLevels side
      = cut depth side (sideAfter x d (d.entriesFor side) (sb.book.sideLevels side)) := by
    rw [hbook, ← h.maxDepth]
    rintro (_ | _)
    · exact hbids
    · exact hasks
  refine ⟨⟨?_, ?_, fun side => ?_⟩, hsides⟩
  · rw [apply_model]
    exact h.model
  · rw [hbook, process_maxDepth]
    exact h.maxDepth
  · rw [hsides side]
    exact cut_cut depth side _

/-- **A list of updates that apply**: only the last cut remains to be made. -/
theorem KeptAt.applyAll (h : KeptAt depth sb) {ds : List NormalizedDelta}
    (hds : AppliesAll x u sb ds) :
    KeptAt depth (applyAll x u sb ds) ∧ ∀ side, (applyAll x u sb ds).book.sideLevels side
      = cut depth side (uncut x u sb ds side) := by
  induction ds generalizing sb with
  | nil => exact ⟨h, fun side => (h.fits side).symm⟩
  | cons d ds ih =>
    obtain ⟨hkept, hsides⟩ := h.apply hds.1
    cases ds with
    | nil => exact ⟨hkept, hsides⟩
    | cons d' ds => exact ih hkept hds.2

end SourcedOrderbook

/-! ## What the runtime emits -/

namespace PairBook

variable {cfg : RuntimeConfig} {pair : TradingPair} {nowUs : ℕ}

/-- A captured book has the levels of the book kept. -/
theorem volumeAt_capture (b : PairBook) (side : OrderSide) (q : ℚ) :
    (b.capture cfg pair nowUs).volumeAt side q = sizeAt (b.book.book.sideLevels side) q := by
  have hshown : ∀ (levels : PriceMap Level) (m : PriceMap Decimal),
      shownAt levels q = (sizeAt m q).map (Prod.mk q) →
      (levels.get? q).map (·.volume.value) = sizeAt m q := by
    intro levels m h
    have hsnd := congrArg (Option.map Prod.snd) h
    unfold shownAt at hsnd
    rw [Option.map_map, Option.map_map] at hsnd
    exact hsnd.trans Option.map_id'
  cases side with
  | bids => exact hshown _ _ (b.shownAt_capture q).1
  | asks => exact hshown _ _ (b.shownAt_capture q).2

/-- **An update a live pair applies** is followed by the book it leaves, at
the time of the update. -/
theorem applyLive_emits {b : PairBook} {d : NormalizedDelta}
    (hok : (b.book.apply cfg.crates cfg.unicode d).2.isOk = true) :
    ∃ tsUs snapshot, .sent (.book pair tsUs snapshot) ∈ (b.applyLive cfg pair nowUs d).effects ∧
      (∀ side q, snapshot.volumeAt side q
        = sizeAt ((b.book.apply cfg.crates cfg.unicode d).1.book.sideLevels side) q) ∧
      (0 < d.sourceOrderbookTsUs →
        snapshot.orderbookTsUs = d.sourceOrderbookTsUs ∧ tsUs = d.sourceOrderbookTsUs) := by
  unfold applyLive
  split
  · next book output happly =>
    rw [happly]
    refine ⟨_, _, List.mem_cons_of_mem _ List.mem_cons_self, volumeAt_capture _, fun hpos => ?_⟩
    have hts : (({ b with book := book } : PairBook).stamp d).bookTs nowUs
        = d.sourceOrderbookTsUs := by
      unfold stamp bookTs
      dsimp only
      rw [if_pos hpos, if_pos hpos]
    exact ⟨hts, hts⟩
  · next book e happly =>
    rw [happly] at hok
    exact Bool.noConfusion hok

end PairBook

/-! ## The two paths of a stream -/

/-- A book passed to the synchronizer, beside what it should be: the book
accumulated so far, and the time of the event. -/
structure PassedBook where
  /-- The call. -/
  call : OrderbookCall
  /-- The book after the frame. -/
  accumulated : OrderbookDelta
  /-- The venue's event time, in microseconds. -/
  eventTimeUs : ℕ

/-- **The book passed is the accumulated one**: it has its levels, and both
its time and that of the call are the event's. -/
def PassedBook.Right (p : PassedBook) : Prop :=
  (∀ side q, p.call.snapshot.volumeAt side q = sizeAt (p.accumulated.sideLevels side) q) ∧
    p.call.snapshot.orderbookTsUs = p.eventTimeUs ∧ p.call.exchangeTsUs = p.eventTimeUs

namespace LegacyConfig

variable (cfg : LegacyConfig)

/-- **One frame** on both paths. -/
def step (sb : SourcedOrderbook) (ev : ExchangeEvent) : SourcedOrderbook × List PassedBook :=
  let sb' := sb.applyAll cfg.crates cfg.unicode (cfg.deltasOf ev)
  (sb', ((cfg.feedEvent ev).map (fun call => ⟨call, sb'.book, cfg.eventTimeUs ev⟩)).toList)

/-- A stream of frames as a machine. -/
def machine : Machine SourcedOrderbook ExchangeEvent PassedBook := ⟨cfg.step⟩

/-- **A frame that is well formed and loses nothing**: all of it applies to
the book. -/
def LossFree (sb : SourcedOrderbook) (ev : ExchangeEvent) : Prop :=
  sb.AppliesAll cfg.crates cfg.unicode (cfg.deltasOf ev)

/-- A frame has a book in it. -/
def HasBook : ExchangeEvent → Prop
  | .bybit _ => True
  | .coinbase resp => resp.events ≠ []
  | .kraken resp => resp.data ≠ []
  | .binance event => event ≠ .tradeData
  | .other => False

/-- The event time of a frame is in the unit its converter takes it to be
in. -/
def KeepsTime : ExchangeEvent → Prop
  | .bybit resp => resp.cts.getD resp.orderbookTsMs = resp.orderbookTsMs
  | .binance (.depthUpdate upd) => epochToUs upd.eventTime = upd.eventTime
  | _ => True

/-- **A frame that states the book by itself**: what its converter keeps of a
side states the side, and its time is kept. -/
def StatesBook (sb : SourcedOrderbook) (ev : ExchangeEvent) : Prop :=
  HasBook ev → KeepsTime ev ∧ ∀ side, States cfg.depth side (cfg.quotesOf ev side)
    (sb.uncut cfg.crates cfg.unicode (cfg.deltasOf ev) side)

instance : (ev : ExchangeEvent) → Decidable (HasBook ev)
  | .bybit _ => .isTrue trivial
  | .coinbase resp => inferInstanceAs (Decidable (resp.events ≠ []))
  | .kraken resp => inferInstanceAs (Decidable (resp.data ≠ []))
  | .binance event => inferInstanceAs (Decidable (event ≠ .tradeData))
  | .other => .isFalse id

instance : (ev : ExchangeEvent) → Decidable (KeepsTime ev)
  | .bybit resp => inferInstanceAs (Decidable (resp.cts.getD resp.orderbookTsMs = _))
  | .binance (.depthUpdate upd) => inferInstanceAs (Decidable (epochToUs upd.eventTime = _))
  | .binance (.depthSnapshot _) | .binance .tradeData => .isTrue trivial
  | .coinbase _ | .kraken _ | .other => .isTrue trivial

instance (sb : SourcedOrderbook) (ev : ExchangeEvent) : Decidable (cfg.LossFree sb ev) :=
  SourcedOrderbook.decidableAppliesAll _ _ _ _

instance (sb : SourcedOrderbook) (ev : ExchangeEvent) : Decidable (cfg.StatesBook sb ev) :=
  decidable_of_iff (HasBook ev → KeepsTime ev ∧ ∀ side ∈ [OrderSide.bids, OrderSide.asks],
      States cfg.depth side (cfg.quotesOf ev side)
        (sb.uncut cfg.crates cfg.unicode (cfg.deltasOf ev) side)) (by
    refine imp_congr_right (fun _ => and_congr_right (fun _ => ?_))
    exact ⟨fun h side => h side (by cases side <;> decide), fun h side _ => h side⟩)

variable {cfg}

theorem feedEvent_isSome_iff {ev : ExchangeEvent} : (cfg.feedEvent ev).isSome ↔ HasBook ev := by
  cases ev with
  | bybit resp => exact iff_of_true rfl trivial
  | coinbase resp =>
    show (resp.events.head?.map _).isSome ↔ _
    rw [Option.isSome_map, List.isSome_head?]
    rfl
  | kraken resp =>
    show (resp.data.head?.map _).isSome ↔ _
    rw [Option.isSome_map, List.isSome_head?]
    rfl
  | binance event => cases event <;> simp [HasBook, feedEvent, feedBinance]
  | other => exact iff_of_false Bool.noConfusion id

/-- The updates of a frame have the time of its event. -/
theorem sourceTs_of_mem {ev : ExchangeEvent} {d : NormalizedDelta} (hd : d ∈ cfg.deltasOf ev) :
    d.sourceOrderbookTsUs = cfg.eventTimeUs ev := by
  obtain ⟨d, hfilter, rfl⟩ := List.mem_map.mp hd
  replace hd : d ∈ cfg.normalize ev := (List.mem_filter.mp hfilter).1
  show d.sourceOrderbookTsUs = _
  cases ev with
  | bybit resp =>
    replace hd : d ∈ normalizeBybit resp := hd
    unfold normalizeBybit at hd
    split at hd
    · exact nomatch hd
    · rw [List.mem_singleton.mp hd]
      rfl
  | coinbase resp =>
    obtain ⟨event, -, rfl⟩ := List.mem_map.mp hd
    rfl
  | kraken resp =>
    obtain ⟨data, hdata, rfl⟩ := Option.map_eq_some_iff.mp (Option.mem_toList.mp hd)
    unfold eventTimeUs
    dsimp only
    rw [hdata]
    rfl
  | binance event =>
    cases event with
    | depthUpdate upd =>
      rw [List.mem_singleton.mp hd]
      rfl
    | depthSnapshot snap =>
      rw [List.mem_singleton.mp hd]
      rfl
    | tradeData => exact nomatch hd
  | other => exact nomatch hd

/-- **What the framework emits after a frame**: a live pair that has taken its
updates emits the accumulated book, at the time of the event. -/
theorem emits_accumulated {sb : SourcedOrderbook} {ev : ExchangeEvent} {rc : RuntimeConfig}
    {b : PairBook} {nowUs : ℕ} {ds : List NormalizedDelta} {d : NormalizedDelta}
    (hcrates : rc.crates = cfg.crates) (hunicode : rc.unicode = cfg.unicode)
    (hfree : cfg.LossFree sb ev) (hds : cfg.deltasOf ev = ds ++ [d])
    (hb : b.book = sb.applyAll cfg.crates cfg.unicode ds) :
    ∃ tsUs snapshot,
      .sent (.book cfg.pair tsUs snapshot) ∈ (b.applyLive rc cfg.pair nowUs d).effects ∧
      (∀ side q, snapshot.volumeAt side q
        = sizeAt ((cfg.step sb ev).1.book.sideLevels side) q) ∧
      (0 < cfg.eventTimeUs ev →
        snapshot.orderbookTsUs = cfg.eventTimeUs ev ∧ tsUs = cfg.eventTimeUs ev) := by
  have hd : d ∈ cfg.deltasOf ev := by
    rw [hds]
    exact List.mem_append_right _ (List.mem_singleton.mpr rfl)
  have hstep : (cfg.step sb ev).1 = (b.book.apply cfg.crates cfg.unicode d).1 := by
    show sb.applyAll cfg.crates cfg.unicode (cfg.deltasOf ev) = _
    rw [hds, hb]
    exact List.foldl_append ..
  have hok : (b.book.apply rc.crates rc.unicode d).2.isOk = true := by
    unfold LossFree at hfree
    rw [hds] at hfree
    rw [hcrates, hunicode, hb]
    exact hfree.last
  rw [hstep, ← sourceTs_of_mem hd, ← hcrates, ← hunicode]
  exact PairBook.applyLive_emits hok

/-- The time of the call is the event's exactly if the converter keeps it. -/
theorem exchangeTsUs_eq_iff {ev : ExchangeEvent} {call : OrderbookCall}
    (h : cfg.feedEvent ev = some call) :
    call.exchangeTsUs = cfg.eventTimeUs ev ↔ KeepsTime ev := by
  cases ev with
  | bybit resp =>
    obtain rfl := (Option.some.inj h).symm
    show resp.orderbookTsMs * 1000 = resp.cts.getD resp.orderbookTsMs * 1000 ↔ _ = _
    exact (Nat.mul_left_inj (by decide)).trans eq_comm
  | coinbase resp =>
    obtain ⟨event, -, rfl⟩ := Option.map_eq_some_iff.mp h
    exact iff_of_true rfl trivial
  | kraken resp =>
    obtain ⟨book, hbook, rfl⟩ := Option.map_eq_some_iff.mp h
    refine iff_of_true ?_ trivial
    unfold eventTimeUs
    dsimp only
    rw [hbook]
    rfl
  | binance event =>
    cases event with
    | depthUpdate upd =>
      obtain rfl := (Option.some.inj h).symm
      exact eq_comm
    | depthSnapshot snap =>
      obtain rfl := (Option.some.inj h).symm
      exact iff_of_true rfl trivial
    | tradeData => exact nomatch h
  | other => exact nomatch h

/-- **One frame**: the book it is turned into is right exactly if the frame
states the book by itself. -/
theorem right_iff {sb : SourcedOrderbook} {ev : ExchangeEvent}
    (hkept : SourcedOrderbook.KeptAt cfg.depth sb) (hfree : cfg.LossFree sb ev) :
    (∀ p ∈ (cfg.step sb ev).2, p.Right) ↔ cfg.StatesBook sb ev := by
  unfold step StatesBook
  have hbook : HasBook ev ↔ (cfg.feedEvent ev).isSome := feedEvent_isSome_iff.symm
  rw [hbook]
  cases hcall : cfg.feedEvent ev with
  | none => exact iff_of_true (fun p hp => nomatch hp) (fun hsome => nomatch hsome)
  | some call =>
    obtain ⟨hts, hshows⟩ := feedEvent_shows hcall
    obtain ⟨-, hsides⟩ := hkept.applyAll hfree
    show (∀ p ∈ [_], PassedBook.Right p) ↔ _
    rw [List.forall_mem_singleton]
    unfold PassedBook.Right
    dsimp only
    rw [hts, and_self, exchangeTsUs_eq_iff hcall, and_comm]
    refine Iff.trans (and_congr_right (fun _ => forall_congr' (fun side => ?_)))
      (imp_iff_right rfl).symm
    rw [← said_eq_iff, ← hsides side]
    exact forall_congr' (fun q => by rw [hshows side q])

/-- **A change states the book** exactly if its time is kept, it removes
nothing, it lists no more prices than the depth, and the levels before that it
does not list are behind a full depth of them. -/
theorem statesBook_change_iff {sb : SourcedOrderbook} {ev : ExchangeEvent} {d : NormalizedDelta}
    (hds : cfg.deltasOf ev = [d]) (hchange : d.isSnapshot = false)
    (hkept : ∀ side, cfg.keptEntries ev side = d.entriesFor side)
    (hread : ∀ side, ∀ l ∈ d.entriesFor side, ∃ p s,
      parseLevel cfg.crates l = .ok (p, s) ∧ cfg.readQuote l = (p.value, s.value)) :
    cfg.StatesBook sb ev ↔ (HasBook ev → KeepsTime ev ∧ ∀ side,
      (∀ q, said (cfg.quotesOf ev side) q ≠ some 0) ∧
      (∀ n ∈ cfg.depth, (pricesOf (cfg.quotesOf ev side)).length ≤ n) ∧
      ∀ e ∈ ladder side (sb.book.sideLevels side), e.1 ∉ pricesOf (cfg.quotesOf ev side) →
        ∃ n ∈ cfg.depth, n ≤ (ahead side (cfg.quotesOf ev side) e).length) := by
  unfold StatesBook quotesOf
  refine imp_congr_right (fun _ => and_congr_right (fun _ => forall_congr' (fun side => ?_)))
  rw [hds, hkept side, ← states_applySide_iff (hread side)]
  have hafter : sb.uncut cfg.crates cfg.unicode [d] side
      = (applySide cfg.crates (sb.book.sideLevels side) (d.entriesFor side)).1 := by
    show sideAfter _ _ _ _ = _
    unfold sideAfter
    rw [hchange]
    rfl
  rw [hafter]

/-- An update of Binance with its time in milliseconds does not keep it. -/
theorem not_keepsTime_binance {upd : BinanceDepthUpdate} (hlow : 100000000000 ≤ upd.eventTime)
    (hhigh : upd.eventTime < 100000000000000) :
    ¬ KeepsTime (.binance (.depthUpdate upd)) := by
  show epochToUs upd.eventTime ≠ upd.eventTime
  unfold epochToUs
  rw [if_neg (by omega), if_neg (by omega), if_neg (by omega), if_pos hlow]
  omega

/-- The first book is empty, and kept at the depth. -/
theorem keptAt_start (cfg : LegacyConfig) : SourcedOrderbook.KeptAt cfg.depth cfg.start := by
  have hfits : ∀ depth side, cut depth side (OrdMap.empty : PriceMap Decimal) = OrdMap.empty := by
    intro depth side
    cases depth with
    | none => rfl
    | some n =>
      cases side with
      | bids => exact OrdMap.ext List.drop_nil
      | asks => exact OrdMap.ext List.take_nil
  unfold start depth
  cases cfg.venue with
  | binance => exact ⟨.seqDelta _ _, rfl, fun side => by cases side <;> exact hfits _ _⟩
  | bybit => exact ⟨.seqDelta _ _, rfl, fun side => by cases side <;> exact hfits _ _⟩
  | coinbase => exact ⟨.seqDelta _ _, rfl, fun side => by cases side <;> exact hfits _ _⟩
  | kraken => exact ⟨.checksumDelta _, rfl, fun side => by cases side <;> exact hfits _ _⟩

/-! ## A sample -/

/-- A worker of Bybit that reads plain text exactly. -/
def bybitWorker : LegacyConfig where
  crates := Crates.plain
  unicode := ⟨id, id⟩
  readFloat s := (Crates.plain.fromStr s).toOption.getD ⟨0, 0⟩
  parseFromRfc3339 _ := none
  venue := .bybit
  pair := ⟨"BTC", "USDT"⟩
  obDepth := 50

/-- The book of a bid and an ask. -/
def bothSides : ExchangeEvent :=
  .bybit ⟨"snapshot", 1672304484978, "BTCUSDT", [("100", "1")], [("101", "2")], 1, 1, none⟩

/-- The size of the bid changes. -/
def bidChanges : ExchangeEvent :=
  .bybit ⟨"delta", 1672304485078, "BTCUSDT", [("100", "3")], [], 2, 2, none⟩

/-- Both sizes change. -/
def bothChange : ExchangeEvent :=
  .bybit ⟨"delta", 1672304485078, "BTCUSDT", [("100", "3")], [("101", "4")], 2, 2, none⟩

/-! ## Whole streams -/

/-- **The legacy path feeds the books of the framework** exactly if every
frame states the book by itself. -/
theorem legacy_right_iff (cfg : LegacyConfig) (frames : List ExchangeEvent)
    (h : cfg.machine.Meets cfg.LossFree cfg.start frames) :
    (∀ p ∈ (cfg.machine.run cfg.start frames).2, p.Right)
      ↔ cfg.machine.Meets cfg.StatesBook cfg.start frames :=
  cfg.machine.meets_iff_forall_of_admitted (I := SourcedOrderbook.KeptAt cfg.depth)
    (fun _ _ hkept hfree => (hkept.applyAll hfree).1) (fun _ _ hkept hfree => right_iff hkept hfree)
    (keptAt_start cfg) h

/-- A change that lists the whole book is passed on right. -/
theorem legacy_right_bothChange :
    (bybitWorker.machine.run bybitWorker.start [bothSides, bothChange]).2.length = 2 ∧
      ∀ p ∈ (bybitWorker.machine.run bybitWorker.start [bothSides, bothChange]).2, p.Right :=
  ⟨by decide, (legacy_right_iff bybitWorker [bothSides, bothChange] (by decide)).mpr
    (by decide)⟩

/-- **A change of one side is passed on as a book without the other.** -/
theorem not_right_bidChanges :
    ¬ ∀ (cfg : LegacyConfig) (frames : List ExchangeEvent),
      cfg.machine.Meets cfg.LossFree cfg.start frames →
      ∀ p ∈ (cfg.machine.run cfg.start frames).2, p.Right := by
  intro h
  have hrun : (bybitWorker.machine.run bybitWorker.start [bothSides, bidChanges]).2.map
      (fun p => (p.call.snapshot.volumeAt .asks 101, sizeAt (p.accumulated.sideLevels .asks) 101))
      = [(some 2, some 2), (none, some 2)] := by decide
  obtain ⟨p, hp, hask⟩ := List.mem_map.mp
    (hrun ▸ List.mem_cons_of_mem _ (List.mem_singleton.mpr rfl))
  obtain ⟨hpassed, hkept⟩ := Prod.mk.inj hask
  have hright := (h bybitWorker [bothSides, bidChanges] (by decide) p hp).1 .asks 101
  rw [hpassed, hkept] at hright
  exact nomatch hright

end LegacyConfig
