import Aetelier.Checksum
import Mathlib.Data.List.AList

/-!
# Reconstructing a book from a feed

`SourcedOrderbook` feeds an incremental book under one of four models: every
frame is a full book; deltas are seeded by a snapshot and checked by their
sequence numbers; deltas are checked by a checksum; or the feed is per order
and the book is the projection of an order map. Whatever the model, an
update is applied or the book is *gapped* – `ResyncNeeded` with a reason –
and a book whose best bid reaches its best ask is gapped too.

A gap does not undo anything: the sides, the last id and the order map stay
as the failed update left them. `apply` therefore returns the state along
with its result.
-/

/-! ## Models of a feed -/

/-- Sequence-continuity predicate of a venue. -/
inductive SeqPredicate where
  /-- The id range of a delta covers the id after the last one applied. -/
  | rangeInclusive
  /-- The previous-id pointer of a delta is the last id applied. -/
  | exactPrev
  /-- The id of a delta is past the last one applied. -/
  | monotonic
deriving DecidableEq, Repr

/-- Where the seeding snapshot comes from. -/
inductive SnapshotSource where
  | restSnapshot
  | reqOnSocket
  | wssSelfSeed
deriving DecidableEq, Repr

/-- What to do when continuity breaks. -/
inductive RecoveryAction where
  | resubscribe
  | restSnapshot
  | reqOnSocket
deriving DecidableEq, Repr

/-- **The reconstruction model of a channel.** -/
inductive ReconstructionModel where
  /-- Every frame is a complete book. -/
  | fullRefresh
  /-- Deltas seeded by a snapshot, checked by sequence. -/
  | seqDelta (predicate : SeqPredicate) (source : SnapshotSource)
  /-- Deltas checked by a checksum. -/
  | checksumDelta (fmt : ChecksumFmt)
  /-- A per-order feed. -/
  | l3 (source : SnapshotSource)
deriving DecidableEq, Repr

namespace ReconstructionModel

/-- The snapshot source, if the model seeds at all. -/
def snapshotSource : ReconstructionModel → Option SnapshotSource
  | seqDelta _ source | l3 source => some source
  | fullRefresh | checksumDelta _ => none

/-- The seed is a REST snapshot. -/
def needsRest (m : ReconstructionModel) : Bool := m.snapshotSource = some .restSnapshot

/-- The seed races the deltas, so deltas are buffered until it arrives. -/
def seedsOutOfBand (m : ReconstructionModel) : Bool :=
  m.snapshotSource = some .restSnapshot ∨ m.snapshotSource = some .reqOnSocket

/-- The recovery action continuity breaks resolve through. -/
def recoveryAction (m : ReconstructionModel) : RecoveryAction :=
  if m.needsRest then .restSnapshot else .resubscribe

end ReconstructionModel

/-- The state of a reconstructed book. -/
inductive OrderBookState where
  | empty
  | synced
  | gapped
  | closed
deriving DecidableEq, Repr

/-- Why a book lost continuity. -/
inductive ResyncReason where
  | checksum (message : String)
  | other (message : String)
deriving DecidableEq, Repr

/-- A checksum-validation failure. -/
def ResyncReason.isChecksum : ResyncReason → Bool
  | checksum _ => true
  | other _ => false

/-- **A book lost continuity** and must be re-seeded. -/
structure ResyncNeeded where
  /-- Why. -/
  reason : ResyncReason
  /-- What to do about it. -/
  action : RecoveryAction
deriving DecidableEq, Repr

/-- What applying an update was. -/
inductive BookOutput where
  | applied
  | snapshot
deriving DecidableEq, Repr

/-- The position of a resting order. -/
structure L3Pos where
  /-- `true` for the ask side. -/
  isAsk : Bool
  /-- Price. -/
  price : Decimal
  /-- Size. -/
  size : Decimal
deriving DecidableEq, Repr

/-! ## The book and its updates -/

/-- Orders an order map may hold before the book is re-seeded. -/
def l3MaxOrders : ℕ := 200000

/-- **A reconstructed book.** -/
structure SourcedOrderbook where
  /-- The incremental book. -/
  book : OrderbookDelta
  /-- How the feed is reconstructed. -/
  model : ReconstructionModel
  /-- What a gap asks for. -/
  recovery : RecoveryAction
  /-- The state of the book. -/
  state : OrderBookState
  /-- Update id of the last update applied. -/
  last : Option ℕ
  /-- The order map of an L3 feed. -/
  l3Orders : AList (fun _ : String => L3Pos)
  /-- The total size per side and price of the order map. -/
  l3Levels : AList (fun _ : Bool × ℚ => Decimal)

namespace SourcedOrderbook

/-- A new book. Kraken's checksum covers ten levels, so its book is held at
that depth. -/
def new (pair : TradingPair) (model : ReconstructionModel) (recovery : RecoveryAction) :
    SourcedOrderbook where
  book := match model with
    | .checksumDelta .krakenTop10 => (OrderbookDelta.new pair).withMaxDepth (some 10)
    | _ => OrderbookDelta.new pair
  model := model
  recovery := recovery
  state := .empty
  last := none
  l3Orders := ∅
  l3Levels := ∅

/-- Set the configured depth, except on checksummed books. -/
def armConfigDepth (sb : SourcedOrderbook) (maxDepth : Option ℕ) : SourcedOrderbook :=
  match sb.model with
  | .checksumDelta _ => sb
  | _ => { sb with book := { sb.book with maxDepth := maxDepth } }

/-- What an apply returns: the book it leaves and its result. -/
abbrev Applied := SourcedOrderbook × Except ResyncNeeded BookOutput

/-- Gap the book. -/
def gap (sb : SourcedOrderbook) (reason : ResyncReason) : Applied :=
  ({ sb with state := .gapped }, .error ⟨reason, sb.recovery⟩)

/-- Gap the book from outside: its levels are untrustworthy and released. -/
def forceGap (sb : SourcedOrderbook) : SourcedOrderbook :=
  { sb with
    state := .gapped
    last := none
    book := { sb.book with bids := OrdMap.empty, asks := OrdMap.empty }
    l3Orders := ∅
    l3Levels := ∅ }

section Apply

variable (x : Crates) (u : Unicode)

/-- Feed an update to the incremental book: a refusal is a gap, otherwise the
id is recorded. -/
def processed (sb : SourcedOrderbook) (delta : NormalizedDelta)
    (next : SourcedOrderbook → Applied) : Applied :=
  match sb.book.process x u delta with
  | (book, .error e) => gap { sb with book := book } (.other e.display)
  | (book, .ok _) => next { sb with book := book, last := some delta.updateId }

/-- The book is current. -/
def synced (output : BookOutput) (sb : SourcedOrderbook) : Applied :=
  ({ sb with state := .synced }, .ok output)

/-- What an applied update is called. -/
def outputOf (isSnapshot : Bool) : BookOutput := if isSnapshot then .snapshot else .applied

/-- Apply a frame that is a full book. -/
def applyFullRefresh (sb : SourcedOrderbook) (delta : NormalizedDelta) : Applied :=
  sb.processed x u { delta with isSnapshot := true } (synced .snapshot)

/-- A delta continues the last id applied. -/
def continuous (predicate : SeqPredicate) (last : ℕ) (delta : NormalizedDelta) : Bool :=
  match predicate with
  | .rangeInclusive => delta.sequence ≤ last + 1 ∧ last < delta.updateId
  | .exactPrev => delta.sequence = last
  | .monotonic => last < delta.updateId

/-- The reason of a sequence gap. -/
def seqGapReason (last : ℕ) (delta : NormalizedDelta) : ResyncReason :=
  .other ("seq gap: last=" ++ toString last ++ " update_id=" ++ toString delta.updateId
    ++ " sequence=" ++ toString delta.sequence)

/-- Apply a delta checked by its sequence numbers. -/
def applySeqDelta (sb : SourcedOrderbook) (delta : NormalizedDelta) (predicate : SeqPredicate) :
    Applied :=
  if delta.isSnapshot then sb.processed x u delta (synced .snapshot)
  else match sb.last with
    | none => sb.gap (.other "delta received before snapshot")
    | some last =>
      if continuous predicate last delta = false then sb.gap (seqGapReason last delta)
      else sb.processed x u delta (synced .applied)

/-- Apply an update checked by a checksum: the book is hashed after the
update, and a delta without a checksum is a gap. -/
def applyChecksummed (sb : SourcedOrderbook) (delta : NormalizedDelta) (fmt : ChecksumFmt) :
    Applied :=
  sb.processed x u delta (fun sb' =>
    match delta.checksum with
    | some expected =>
      if Checksum.bookChecksum x fmt sb'.book ≠ expected then
        sb'.gap (.checksum ("checksum mismatch: computed="
          ++ toString (Checksum.bookChecksum x fmt sb'.book)
          ++ " expected=" ++ toString expected))
      else synced (outputOf delta.isSnapshot) sb'
    | none =>
      if delta.isSnapshot then synced .snapshot sb'
      else sb'.gap (.checksum "checksum absent on a checksum-model delta frame"))

/-- The order map while the orders of a frame are applied, and the levels
touched so far. -/
structure L3Fold where
  /-- The order map. -/
  orders : AList (fun _ : String => L3Pos)
  /-- Its totals. -/
  levels : AList (fun _ : Bool × ℚ => Decimal)
  /-- The levels touched, in order. -/
  touched : List (Bool × Decimal)

/-- Note a touched level. -/
def L3Fold.touch (f : L3Fold) (key : Bool × Decimal) : L3Fold :=
  if f.touched.any (fun k => k.1 = key.1 ∧ k.2.value = key.2.value) then f
  else { f with touched := f.touched ++ [key] }

/-- Take the former position of an order out of the map. -/
def L3Fold.removeOrder (f : L3Fold) (orderId : String) : L3Fold :=
  match f.orders.lookup orderId with
  | none => f
  | some old =>
    let levels := match f.levels.lookup (old.isAsk, old.price.value) with
      | none => f.levels
      | some total =>
        if (total.sub old.size).value ≤ 0 then f.levels.erase (old.isAsk, old.price.value)
        else f.levels.insert (old.isAsk, old.price.value) (total.sub old.size)
    ({ f with orders := f.orders.erase orderId, levels := levels } : L3Fold).touch
      (old.isAsk, old.price)

/-- Put an order into the map. -/
def L3Fold.addOrder (f : L3Fold) (o : L3Order) (price size : Decimal) : L3Fold :=
  ({ f with
      levels := f.levels.insert (o.isAsk, price.value)
        (((f.levels.lookup (o.isAsk, price.value)).getD Decimal.zero).add size)
      orders := f.orders.insert o.orderId ⟨o.isAsk, price, size⟩ } : L3Fold).touch (o.isAsk, price)

/-- Apply one per-order change. An open order that does not read is left out
after its former position was removed. -/
def L3Fold.step (f : L3Fold) (o : L3Order) : L3Fold :=
  let f' := f.removeOrder o.orderId
  if o.removed then f'
  else match x.fromStrExact o.price, x.fromStrExact o.size with
    | .ok price, .ok size => if size.value ≤ 0 then f' else f'.addOrder o price size
    | _, _ => f'

/-- The entry of a touched level, as text. -/
def L3Fold.entry (f : L3Fold) (key : Bool × Decimal) : String × String :=
  (x.toString key.2, x.toString ((f.levels.lookup (key.1, key.2.value)).getD Decimal.zero))

/-- The update of the touched levels. -/
def L3Fold.levelDelta (f : L3Fold) (delta : NormalizedDelta) : NormalizedDelta where
  symbol := delta.symbol
  bids := (f.touched.filter (fun k => !k.1)).map (f.entry x)
  asks := (f.touched.filter (fun k => k.1)).map (f.entry x)
  updateId := delta.updateId
  sequence := delta.sequence
  sourceOrderbookTsUs := delta.sourceOrderbookTsUs
  isSnapshot := delta.isSnapshot

/-- Apply a per-order update: the order map, then the levels it touches. A
snapshot starts from an empty map. -/
def applyL3 (sb : SourcedOrderbook) (delta : NormalizedDelta) : Applied :=
  let start : L3Fold :=
    if delta.isSnapshot then ⟨∅, ∅, []⟩ else ⟨sb.l3Orders, sb.l3Levels, []⟩
  let f := delta.orders.foldl (L3Fold.step x) start
  let sb' := { sb with l3Orders := f.orders, l3Levels := f.levels }
  if l3MaxOrders < f.orders.keys.length then
    sb'.gap (.other ("l3 order map exceeded " ++ toString l3MaxOrders ++ " entries; re-seeding"))
  else sb'.processed x u (f.levelDelta x delta) (synced (outputOf delta.isSnapshot))

/-- The apply of the book's model. -/
def applyModel (sb : SourcedOrderbook) (delta : NormalizedDelta) : Applied :=
  match sb.model with
  | .fullRefresh => sb.applyFullRefresh x u delta
  | .seqDelta predicate _ => sb.applySeqDelta x u delta predicate
  | .checksumDelta fmt => sb.applyChecksummed x u delta fmt
  | .l3 _ => sb.applyL3 x u delta

/-- The best prices of a book whose sides have met. -/
def crossed? (book : OrderbookDelta) : Option (Decimal × Decimal) :=
  match book.bestBid, book.bestAsk with
  | some (bid, _), some (ask, _) => if ask.value ≤ bid.value then some (bid, ask) else none
  | _, _ => none

/-- **Apply an update**: by the model, and then the book must not be
crossed. -/
def apply (sb : SourcedOrderbook) (delta : NormalizedDelta) : Applied :=
  match sb.applyModel x u delta with
  | (sb', .error e) => (sb', .error e)
  | (sb', .ok output) =>
    match crossed? sb'.book with
    | some (bid, ask) => sb'.gap (.other ("book crossed after apply: best_bid "
        ++ x.toString bid ++ " >= best_ask " ++ x.toString ask))
    | none => (sb', .ok output)

/-! ## What an apply leaves -/

variable {x u}

/-- **Uncrossed**: every bid is below every ask. -/
theorem crossed?_eq_none_iff {book : OrderbookDelta} :
    crossed? book = none ↔ ∀ p q, (OrderbookDelta.sizeAt book.bids p).isSome →
      (OrderbookDelta.sizeAt book.asks q).isSome → p < q := by
  unfold crossed? OrderbookDelta.bestBid OrderbookDelta.bestAsk
  have hlevel : ∀ (side : PriceMap Decimal) (p : ℚ), (OrderbookDelta.sizeAt side p).isSome →
      ∃ e ∈ side.entries, e.1.value = p := by
    intro side p hp
    rw [OrderbookDelta.sizeAt, Option.isSome_map, Option.isSome_iff_exists] at hp
    obtain ⟨v, hv⟩ := hp
    obtain ⟨k, hk, hmem⟩ := OrdMap.mem_of_get? hv
    exact ⟨(k, v), hmem, hk⟩
  have hsome : ∀ (side : PriceMap Decimal), ∀ e ∈ side.entries,
      (OrderbookDelta.sizeAt side e.1.value).isSome := by
    intro side e he
    rw [OrderbookDelta.sizeAt, side.get?_of_mem he]
    rfl
  cases hb : book.bids.last? with
  | none =>
    refine ⟨fun _ p q hp _ => ?_, fun _ => rfl⟩
    obtain ⟨e, he, -⟩ := hlevel _ _ hp
    rw [OrdMap.last?, List.getLast?_eq_none_iff] at hb
    rw [hb] at he
    cases he
  | some b =>
    cases ha : book.asks.first? with
    | none =>
      refine ⟨fun _ p q _ hq => ?_, fun _ => rfl⟩
      obtain ⟨e, he, -⟩ := hlevel _ _ hq
      rw [OrdMap.first?, List.head?_eq_none_iff] at ha
      rw [ha] at he
      cases he
    | some a =>
      dsimp only
      -- the best bid and the best ask stand for all the others
      constructor
      · intro h p q hp hq
        obtain ⟨e, he, rfl⟩ := hlevel _ _ hp
        obtain ⟨e', he', rfl⟩ := hlevel _ _ hq
        have hlt : b.1.value < a.1.value := by
          by_contra hle
          rw [if_pos (not_lt.mp hle)] at h
          cases h
        exact (OrdMap.le_last? hb he).trans_lt (hlt.trans_le (OrdMap.first?_le ha he'))
      · intro h
        exact if_neg (not_le.mpr (h _ _ (hsome _ b (OrdMap.mem_of_last? hb))
          (hsome _ a (OrdMap.mem_of_first? ha))))

/-- An update that applies leaves the book its model leaves, uncrossed. -/
theorem apply_ok {sb sb' : SourcedOrderbook} {delta : NormalizedDelta} {output : BookOutput}
    (h : sb.apply x u delta = (sb', .ok output)) :
    sb.applyModel x u delta = (sb', .ok output) ∧ crossed? sb'.book = none := by
  unfold apply at h
  split at h
  · cases h
  · next sb₁ output₁ hmodel =>
    split at h
    · unfold gap at h
      cases h
    · next hcrossed =>
      cases h
      exact ⟨hmodel, hcrossed⟩

theorem processed_of_ok {sb : SourcedOrderbook} {delta : NormalizedDelta} {r : OrderbookUpdate}
    (h : (sb.book.process x u delta).2 = .ok r) (next : SourcedOrderbook → Applied) :
    sb.processed x u delta next
      = next { sb with book := (sb.book.process x u delta).1, last := some delta.updateId } := by
  unfold processed
  split
  · next book e hp =>
    rw [hp] at h
    cases h
  · next book r' hp => rw [hp]

theorem processed_of_error {sb : SourcedOrderbook} {delta : NormalizedDelta} {e : OrderbookError}
    (h : (sb.book.process x u delta).2 = .error e) (next : SourcedOrderbook → Applied) :
    sb.processed x u delta next
      = gap { sb with book := (sb.book.process x u delta).1 } (.other e.display) := by
  unfold processed
  split
  · next book e' hp =>
    rw [hp] at h ⊢
    cases h
    rfl
  · next book r hp =>
    rw [hp] at h
    cases h

theorem processed_ok {sb sb' : SourcedOrderbook} {delta : NormalizedDelta}
    {next : SourcedOrderbook → Applied} {output : BookOutput}
    (h : sb.processed x u delta next = (sb', .ok output)) :
    ∃ r, (sb.book.process x u delta).2 = .ok r ∧
      next { sb with book := (sb.book.process x u delta).1, last := some delta.updateId }
        = (sb', .ok output) := by
  cases hp : (sb.book.process x u delta).2 with
  | error e =>
    rw [processed_of_error hp] at h
    cases h
  | ok r =>
    rw [processed_of_ok hp] at h
    exact ⟨r, rfl, h⟩

/-- An update of another symbol changes nothing but the state. -/
theorem applySeqDelta_of_not_accepts {sb : SourcedOrderbook} {delta : NormalizedDelta}
    (hsym : sb.book.acceptsSymbol u delta.symbol = false) (predicate : SeqPredicate) :
    ∃ reason, sb.applySeqDelta x u delta predicate = sb.gap reason := by
  have hgap : ∀ next, ∃ reason, sb.processed x u delta next = sb.gap reason := by
    intro next
    have hproc := OrderbookDelta.process_of_not_accepts (x := x) hsym
    rw [processed_of_error (congrArg Prod.snd hproc), hproc]
    exact ⟨_, rfl⟩
  unfold applySeqDelta
  split
  · exact hgap _
  · split
    · exact ⟨_, rfl⟩
    · split
      · exact ⟨_, rfl⟩
      · exact hgap _

/-- An update the model applies to an uncrossed book is applied. -/
theorem apply_of_model {sb sb' : SourcedOrderbook} {delta : NormalizedDelta}
    {output : BookOutput} (h : sb.applyModel x u delta = (sb', .ok output))
    (hcrossed : crossed? sb'.book = none) : sb.apply x u delta = (sb', .ok output) := by
  unfold apply
  rw [h]
  dsimp only
  rw [hcrossed]

theorem apply_of_model_error {sb sb' : SourcedOrderbook} {delta : NormalizedDelta}
    {e : ResyncNeeded} (h : sb.applyModel x u delta = (sb', .error e)) :
    sb.apply x u delta = (sb', .error e) := by
  unfold apply
  rw [h]

/-- **What an apply ends in**: the gap of a book, or a book that is current, of
the model it began with. -/
inductive Ends (model : ReconstructionModel) : Applied → Prop where
  | gap (sb : SourcedOrderbook) (h : sb.model = model) (reason : ResyncReason) :
    Ends model (sb.gap reason)
  | synced (sb : SourcedOrderbook) (h : sb.model = model) (output : BookOutput) :
    Ends model (synced output sb)

theorem Ends.model {model : ReconstructionModel} {r : Applied} (h : Ends model r) :
    r.1.model = model := by
  cases h with
  | gap sb h reason => exact h
  | synced sb h output => exact h

theorem ends_processed {model : ReconstructionModel} {sb : SourcedOrderbook}
    {delta : NormalizedDelta} {next : SourcedOrderbook → Applied} (h : sb.model = model)
    (hnext : ∀ sb', sb'.model = model → Ends model (next sb')) :
    Ends model (sb.processed x u delta next) := by
  unfold processed
  split
  · refine .gap _ ?_ _
    exact h
  · exact hnext _ h

theorem ends_applyModel (sb : SourcedOrderbook) (delta : NormalizedDelta) :
    Ends sb.model (sb.applyModel x u delta) := by
  have hsynced : ∀ output (sb' : SourcedOrderbook), sb'.model = sb.model →
      Ends sb.model (synced output sb') := fun output sb' h => .synced sb' h output
  unfold applyModel
  split
  · exact ends_processed rfl (hsynced _)
  · unfold applySeqDelta
    split
    · exact ends_processed rfl (hsynced _)
    · split
      · exact .gap sb rfl _
      · split
        · exact .gap sb rfl _
        · exact ends_processed rfl (hsynced _)
  · refine ends_processed rfl (fun sb' h => ?_)
    split
    · split
      · exact .gap sb' h _
      · exact hsynced _ sb' h
    · split
      · exact hsynced _ sb' h
      · exact .gap sb' h _
  · unfold applyL3
    generalize (if delta.isSnapshot then (⟨∅, ∅, []⟩ : L3Fold)
      else ⟨sb.l3Orders, sb.l3Levels, []⟩) = start
    dsimp only
    split
    · refine .gap _ ?_ _
      rfl
    · refine ends_processed ?_ (hsynced _)
      rfl

theorem ends_apply (sb : SourcedOrderbook) (delta : NormalizedDelta) :
    Ends sb.model (sb.apply x u delta) := by
  have hmodel := ends_applyModel (x := x) (u := u) sb delta
  unfold apply
  split
  · next sb' e h => exact h ▸ hmodel
  · next sb' output h =>
    rw [h] at hmodel
    split
    · exact .gap sb' hmodel.model _
    · exact hmodel

/-- The model of a book never changes. -/
theorem apply_model (sb : SourcedOrderbook) (delta : NormalizedDelta) :
    (sb.apply x u delta).1.model = sb.model :=
  (ends_apply sb delta).model

/-- A delta checked by sequence applies only if it continues the book, and
leaves its id. -/
theorem apply_seqDelta_ok {sb sb' : SourcedOrderbook} {delta : NormalizedDelta}
    {output : BookOutput} {predicate : SeqPredicate} {source : SnapshotSource}
    (hmodel : sb.model = .seqDelta predicate source)
    (h : sb.apply x u delta = (sb', .ok output)) :
    sb'.last = some delta.updateId ∧ (delta.isSnapshot = false →
      ∃ l, sb.last = some l ∧ continuous predicate l delta = true) := by
  have happly := (apply_ok h).1
  unfold applyModel at happly
  rw [hmodel] at happly
  dsimp only at happly
  have hlast : ∀ out s, synced out s = (sb', .ok output) → sb'.last = s.last := by
    intro out s hs
    cases hs
    rfl
  unfold applySeqDelta at happly
  split at happly
  · next hsnap =>
    obtain ⟨-, -, hs⟩ := processed_ok happly
    exact ⟨hlast _ _ hs, fun hd => by rw [hsnap] at hd; cases hd⟩
  · split at happly
    · cases happly
    · next l hl =>
      split at happly
      · cases happly
      · next hcont =>
        obtain ⟨-, -, hs⟩ := processed_ok happly
        exact ⟨hlast _ _ hs, fun _ => ⟨l, hl, Bool.not_eq_false _ ▸ hcont⟩⟩

/-- A snapshot that applies is reported as a snapshot. -/
theorem apply_snapshot {sb sb' : SourcedOrderbook} {delta : NormalizedDelta}
    {output : BookOutput} (hsnap : delta.isSnapshot = true)
    (h : sb.apply x u delta = (sb', .ok output)) : output = .snapshot := by
  have hsynced : ∀ s : SourcedOrderbook, synced .snapshot s = (sb', .ok output) →
      output = .snapshot := fun s hs => by cases hs; rfl
  have hmodel := (apply_ok h).1
  unfold applyModel at hmodel
  split at hmodel
  · obtain ⟨-, -, hs⟩ := processed_ok hmodel
    exact hsynced _ hs
  · unfold applySeqDelta at hmodel
    rw [if_pos hsnap] at hmodel
    obtain ⟨-, -, hs⟩ := processed_ok hmodel
    exact hsynced _ hs
  · obtain ⟨-, -, hs⟩ := processed_ok hmodel
    simp only [hsnap, outputOf, if_true] at hs
    split at hs
    · split at hs
      · cases hs
      · exact hsynced _ hs
    · exact hsynced _ hs
  · unfold applyL3 at hmodel
    generalize (if delta.isSnapshot then (⟨∅, ∅, []⟩ : L3Fold)
      else ⟨sb.l3Orders, sb.l3Levels, []⟩) = start at hmodel
    dsimp only at hmodel
    split at hmodel
    · cases hmodel
    · obtain ⟨-, -, hs⟩ := processed_ok hmodel
      simp only [hsnap, outputOf, if_true] at hs
      exact hsynced _ hs

end Apply

end SourcedOrderbook
