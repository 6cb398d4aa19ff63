import Aetelier.MarketTypes

/-!
# The incremental book

`OrderbookDelta` keeps the two sides of a book as ordered maps from price to
size and applies normalized updates: a snapshot resets both sides, a delta
deletes a level where the size is zero and writes it otherwise. An update is
refused for another symbol, before the first snapshot, or where a price or a
size does not read as a decimal – and in the last case the entries before
the bad one have already been applied, so `process` returns the book it
leaves together with its result.

What an update does to a side is said on the sizes the side holds
(`OrderbookDelta.sizeAt`), a partial function on prices that is defined where
there is a level.
-/

/-! ## Book and updates -/

/-- Why a book update was refused. -/
inductive OrderbookError where
  | notInitialized
  | symbolMismatch (expected received : String)
  | parseError (message : String)
deriving DecidableEq, Repr

/-- The text of a refusal. -/
def OrderbookError.display : OrderbookError → String
  | notInitialized => "Orderbook not initialized, waiting for snapshot"
  | symbolMismatch expected received =>
    "Symbol mismatch: expected " ++ expected ++ ", received " ++ received
  | parseError message => "Parse error: " ++ message

/-- The two kinds of update. -/
inductive OrderbookUpdateType where
  | snapshot
  | delta
deriving DecidableEq, Repr

/-- What an update did. -/
structure OrderbookUpdate where
  /-- Snapshot or delta. -/
  updateType : OrderbookUpdateType
  /-- Bid entries applied. -/
  bidsModified : ℕ
  /-- Ask entries applied. -/
  asksModified : ℕ
  /-- Levels deleted. -/
  levelsDeleted : ℕ
  /-- Levels created. -/
  levelsInserted : ℕ
  /-- The book was reset. -/
  wasReset : Bool
deriving DecidableEq, Repr

/-- **An incremental book.** -/
structure OrderbookDelta where
  /-- Bid sizes by price. -/
  bids : PriceMap Decimal
  /-- Ask sizes by price. -/
  asks : PriceMap Decimal
  /-- Update id of the last update applied. -/
  lastUpdateId : ℕ
  /-- Sequence number of the last update applied. -/
  sequence : ℕ
  /-- The pair the book tracks. -/
  pair : TradingPair
  /-- A snapshot has been applied. -/
  initialized : Bool
  /-- Deltas applied since the last snapshot. -/
  deltaCount : ℕ
  /-- Levels kept per side after each update, or all. -/
  maxDepth : Option ℕ
deriving DecidableEq

namespace OrderbookDelta

/-- An empty book. -/
def new (pair : TradingPair) : OrderbookDelta where
  bids := OrdMap.empty
  asks := OrdMap.empty
  lastUpdateId := 0
  sequence := 0
  pair := pair
  initialized := false
  deltaCount := 0
  maxDepth := none

/-- Set the depth of a book. -/
def withMaxDepth (ob : OrderbookDelta) (maxDepth : Option ℕ) : OrderbookDelta :=
  { ob with maxDepth := maxDepth }

/-- The highest bid. -/
def bestBid (ob : OrderbookDelta) : Option (Decimal × Decimal) := ob.bids.last?

/-- The lowest ask. -/
def bestAsk (ob : OrderbookDelta) : Option (Decimal × Decimal) := ob.asks.first?

/-- The `n` highest bids, best first. -/
def topBids (ob : OrderbookDelta) (n : ℕ) : List (Decimal × Decimal) :=
  ob.bids.entries.reverse.take n

/-- The `n` lowest asks, best first. -/
def topAsks (ob : OrderbookDelta) (n : ℕ) : List (Decimal × Decimal) := ob.asks.entries.take n

/-- Read a decimal. -/
def parseDecimal (x : Crates) (s : String) : Except OrderbookError Decimal :=
  (x.fromStr s).mapError OrderbookError.parseError

/-- Read one entry of an update, price first. -/
def parseLevel (x : Crates) (level : String × String) :
    Except OrderbookError (Decimal × Decimal) := do
  let price ← parseDecimal x level.1
  let size ← parseDecimal x level.2
  return (price, size)

/-- Fill a side from a snapshot: entries of positive size are inserted, up to
the first that does not read. The result counts the insertions. -/
def fillSide (x : Crates) (side : PriceMap Decimal) :
    List (String × String) → PriceMap Decimal × Except OrderbookError ℕ
  | [] => (side, .ok 0)
  | level :: rest =>
    match parseLevel x level with
    | .error e => (side, .error e)
    | .ok (price, size) =>
      if 0 < size.value then
        let r := fillSide x (side.insert price size) rest
        (r.1, r.2.map (· + 1))
      else fillSide x side rest

/-- Apply one level, saying whether it was deleted and whether it was
created. -/
def applyLevel (side : PriceMap Decimal) (price size : Decimal) :
    PriceMap Decimal × Bool × Bool :=
  if size.value = 0 then (side.erase price, (side.get? price.value).isSome, false)
  else (side.insert price size, false, (side.get? price.value).isNone)

/-- What applying the entries of a side did. -/
structure LevelCounts where
  /-- Entries applied. -/
  modified : ℕ := 0
  /-- Levels deleted. -/
  deleted : ℕ := 0
  /-- Levels created. -/
  inserted : ℕ := 0

/-- Count one more applied entry. -/
def LevelCounts.add (c : LevelCounts) (deleted inserted : Bool) : LevelCounts where
  modified := c.modified + 1
  deleted := c.deleted + deleted.toNat
  inserted := c.inserted + inserted.toNat

/-- Apply the entries of a delta to a side, up to the first that does not
read. -/
def applySide (x : Crates) (side : PriceMap Decimal) :
    List (String × String) → PriceMap Decimal × Except OrderbookError LevelCounts
  | [] => (side, .ok {})
  | level :: rest =>
    match parseLevel x level with
    | .error e => (side, .error e)
    | .ok (price, size) =>
      let (side', deleted, inserted) := applyLevel side price size
      let r := applySide x side' rest
      (r.1, r.2.map (·.add deleted inserted))

/-- Prune both sides to the depth of the book: the highest bids and the
lowest asks stay. -/
def pruneToDepth (ob : OrderbookDelta) : OrderbookDelta :=
  match ob.maxDepth with
  | none => ob
  | some n => { ob with bids := ob.bids.keepLast n, asks := ob.asks.keepFirst n }

/-- Apply a snapshot. -/
def applySnapshot (x : Crates) (ob : OrderbookDelta) (delta : NormalizedDelta) :
    OrderbookDelta × Except OrderbookError OrderbookUpdate :=
  let bids := fillSide x OrdMap.empty delta.bids
  let cleared := { ob with bids := bids.1, asks := OrdMap.empty }
  match bids.2 with
  | .error e => (cleared, .error e)
  | .ok bidsModified =>
    let asks := fillSide x OrdMap.empty delta.asks
    let filled := { cleared with asks := asks.1 }
    match asks.2 with
    | .error e => (filled, .error e)
    | .ok asksModified =>
      (pruneToDepth
          { filled with
            lastUpdateId := delta.updateId
            sequence := delta.sequence
            initialized := true
            deltaCount := 0 },
        .ok ⟨.snapshot, bidsModified, asksModified, 0, bidsModified + asksModified, true⟩)

/-- Apply a delta. -/
def applyDelta (x : Crates) (ob : OrderbookDelta) (delta : NormalizedDelta) :
    OrderbookDelta × Except OrderbookError OrderbookUpdate :=
  if ob.initialized = false then (ob, .error .notInitialized)
  else
    let bids := applySide x ob.bids delta.bids
    let ob' := { ob with bids := bids.1 }
    match bids.2 with
    | .error e => (ob', .error e)
    | .ok b =>
      let asks := applySide x ob'.asks delta.asks
      let ob'' := { ob' with asks := asks.1 }
      match asks.2 with
      | .error e => (ob'', .error e)
      | .ok a =>
        (pruneToDepth
            { ob'' with
              lastUpdateId := delta.updateId
              sequence := delta.sequence
              deltaCount := ob.deltaCount + 1 },
          .ok ⟨.delta, b.modified, a.modified, b.deleted + a.deleted,
            b.inserted + a.inserted, false⟩)

/-- The symbol of an update is the book's own, or does not read as a pair. -/
def acceptsSymbol (u : Unicode) (ob : OrderbookDelta) (symbol : String) : Bool :=
  match TradingPair.fromStr u symbol with
  | none => true
  | some p => decide (p = ob.pair)

/-- **Process an update**: check its symbol, then apply it as a snapshot or
as a delta. -/
def process (x : Crates) (u : Unicode) (ob : OrderbookDelta) (delta : NormalizedDelta) :
    OrderbookDelta × Except OrderbookError OrderbookUpdate :=
  if ob.acceptsSymbol u delta.symbol = false then
    (ob, .error (.symbolMismatch ob.pair.toCanonical delta.symbol))
  else if delta.isSnapshot then applySnapshot x ob delta
  else applyDelta x ob delta

/-! ## What an update does to the sizes of a side -/

/-- The level a size stands for: none if it is zero. -/
def levelOf (size : ℚ) : Option ℚ := if size = 0 then none else some size

/-- The size a side holds at a price, if it has a level there. -/
def sizeAt (side : PriceMap Decimal) (price : ℚ) : Option ℚ :=
  (side.get? price).map Decimal.value

section Sides

variable (x : Crates) (size : ℚ → ℚ)

/-- Every entry reads, and carries the size that a side is to have at its
price. -/
def Truthful (levels : List (String × String)) : Prop :=
  ∀ l ∈ levels, ∃ p s, parseLevel x l = .ok (p, s) ∧ s.value = size p.value

/-- Some entry is about a price. -/
def Mentions (levels : List (String × String)) (price : ℚ) : Prop :=
  ∃ l ∈ levels, ∃ p s, parseLevel x l = .ok (p, s) ∧ p.value = price

variable {x size}

theorem sizeAt_insert (side : PriceMap Decimal) (p s : Decimal) (q : ℚ) :
    sizeAt (side.insert p s) q = if q = p.value then some s.value else sizeAt side q := by
  unfold sizeAt
  rw [OrdMap.get?_insert]
  split <;> rfl

theorem sizeAt_erase (side : PriceMap Decimal) (p : Decimal) (q : ℚ) :
    sizeAt (side.erase p) q = if q = p.value then none else sizeAt side q := by
  unfold sizeAt
  rw [OrdMap.get?_erase]
  split <;> rfl

/-- Applying a level leaves its size at its price. -/
theorem sizeAt_applyLevel (side : PriceMap Decimal) (p s : Decimal) (q : ℚ) :
    sizeAt (applyLevel side p s).1 q
      = if q = p.value then levelOf s.value else sizeAt side q := by
  unfold applyLevel levelOf
  by_cases hs : s.value = 0
  · rw [if_pos hs, if_pos hs]
    exact sizeAt_erase side p q
  · rw [if_neg hs, if_neg hs]
    exact sizeAt_insert side p s q

theorem truthful_nil : Truthful x size [] := fun _ h => absurd h List.not_mem_nil

theorem truthful_cons {l : String × String} {levels : List (String × String)} {p s : Decimal}
    (hl : parseLevel x l = .ok (p, s)) (hs : s.value = size p.value)
    (h : Truthful x size levels) : Truthful x size (l :: levels) :=
  List.forall_mem_cons.mpr ⟨⟨p, s, hl, hs⟩, h⟩

theorem mentions_cons {l : String × String} {levels : List (String × String)} {p s : Decimal}
    (hl : parseLevel x l = .ok (p, s)) (q : ℚ) :
    Mentions x (l :: levels) q ↔ p.value = q ∨ Mentions x levels q := by
  unfold Mentions
  constructor
  · rintro ⟨l', hl', p', s', hp', rfl⟩
    rcases List.mem_cons.mp hl' with rfl | hl'
    · rw [hl] at hp'
      cases hp'
      exact Or.inl rfl
    · exact Or.inr ⟨l', hl', p', s', hp', rfl⟩
  · rintro (rfl | ⟨l', hl', h⟩)
    · exact ⟨l, List.mem_cons_self, p, s, hl, rfl⟩
    · exact ⟨l', List.mem_cons_of_mem _ hl', h⟩

/-- **A truthful delta brings a side up to date at the prices it mentions**,
and leaves the others alone. -/
theorem applySide_spec {levels : List (String × String)} (h : Truthful x size levels)
    (side : PriceMap Decimal) :
    (∃ c, (applySide x side levels).2 = .ok c) ∧
      ∀ q, (Mentions x levels q → sizeAt (applySide x side levels).1 q = levelOf (size q)) ∧
        (¬ Mentions x levels q → sizeAt (applySide x side levels).1 q = sizeAt side q) := by
  induction levels generalizing side with
  | nil => exact ⟨⟨_, rfl⟩, fun q => ⟨fun ⟨l, hl, _⟩ => absurd hl List.not_mem_nil, fun _ => rfl⟩⟩
  | cons l levels ih =>
    obtain ⟨p, s, hl, hs⟩ := h l List.mem_cons_self
    obtain ⟨⟨c, hc⟩, hq⟩ := ih (fun l' hl' => h l' (List.mem_cons_of_mem _ hl'))
      (applyLevel side p s).1
    have hstep : applySide x side (l :: levels)
        = ((applySide x (applyLevel side p s).1 levels).1,
            (applySide x (applyLevel side p s).1 levels).2.map
              (·.add (applyLevel side p s).2.1 (applyLevel side p s).2.2)) := by
      rw [applySide, hl]
    rw [hstep]
    refine ⟨⟨_, by rw [hc]; rfl⟩, fun q => ?_⟩
    rw [mentions_cons hl]
    by_cases hm : Mentions x levels q
    · exact ⟨fun _ => (hq q).1 hm, fun hn => absurd (Or.inr hm) hn⟩
    · have hrest := (hq q).2 hm
      rw [sizeAt_applyLevel] at hrest
      refine ⟨?_, fun hn => ?_⟩
      · rintro (rfl | h)
        · rw [hrest, if_pos rfl, hs]
        · exact absurd h hm
      · rw [hrest, if_neg (fun h => hn (Or.inl h.symm))]

/-- **A truthful snapshot writes the prices it mentions**, where their size
is positive. -/
theorem fillSide_spec (hsize : ∀ q, 0 ≤ size q) {levels : List (String × String)}
    (h : Truthful x size levels) (side : PriceMap Decimal) :
    (∃ n, (fillSide x side levels).2 = .ok n) ∧
      ∀ q, (Mentions x levels q → size q ≠ 0 →
          sizeAt (fillSide x side levels).1 q = some (size q)) ∧
        (¬ Mentions x levels q ∨ size q = 0 →
          sizeAt (fillSide x side levels).1 q = sizeAt side q) := by
  induction levels generalizing side with
  | nil => exact ⟨⟨_, rfl⟩, fun q => ⟨fun ⟨l, hl, _⟩ => absurd hl List.not_mem_nil, fun _ => rfl⟩⟩
  | cons l levels ih =>
    obtain ⟨p, s, hl, hs⟩ := h l List.mem_cons_self
    have ih := ih (fun l' hl' => h l' (List.mem_cons_of_mem _ hl'))
    by_cases hpos : 0 < s.value
    · have hstep : fillSide x side (l :: levels)
          = ((fillSide x (side.insert p s) levels).1,
              (fillSide x (side.insert p s) levels).2.map (· + 1)) := by
        rw [fillSide, hl]
        exact if_pos hpos
      obtain ⟨⟨n, hn⟩, hq⟩ := ih (side.insert p s)
      rw [hstep]
      refine ⟨⟨_, by rw [hn]; rfl⟩, fun q => ?_⟩
      rw [mentions_cons hl]
      have hrest := (hq q).2
      rw [sizeAt_insert] at hrest
      refine ⟨fun hm hne => ?_, ?_⟩
      · -- a later level of the same price has the last word
        by_cases hm' : Mentions x levels q
        · exact (hq q).1 hm' hne
        · obtain rfl | hm := hm
          · rw [hrest (Or.inl hm'), if_pos rfl, hs]
          · exact absurd hm hm'
      · rintro (hn | hzero)
        · rw [hrest (Or.inl (fun h => hn (Or.inr h))), if_neg (fun h => hn (Or.inl h.symm))]
        · rw [hrest (Or.inr hzero), if_neg]
          rintro rfl
          rw [hs, hzero] at hpos
          exact lt_irrefl 0 hpos
    · have hstep : fillSide x side (l :: levels) = fillSide x side levels := by
        rw [fillSide, hl]
        exact if_neg hpos
      have hzero : size p.value = 0 := by
        rw [← hs]
        exact le_antisymm (not_lt.mp hpos) (hs ▸ hsize p.value)
      obtain ⟨hok, hq⟩ := ih side
      rw [hstep]
      refine ⟨hok, fun q => ?_⟩
      rw [mentions_cons hl]
      refine ⟨fun hm hne => ?_, ?_⟩
      · obtain rfl | hm := hm
        · exact absurd hzero hne
        · exact (hq q).1 hm hne
      · rintro (hn | hq0)
        · exact (hq q).2 (Or.inl (fun h => hn (Or.inr h)))
        · exact (hq q).2 (Or.inr hq0)

end Sides

/-! ## What an update does to a book -/

/-- Both sides of a book hold the given sizes, level for level. -/
def Holds (ob : OrderbookDelta) (bids asks : ℚ → ℚ) : Prop :=
  (∀ q, sizeAt ob.bids q = levelOf (bids q)) ∧ ∀ q, sizeAt ob.asks q = levelOf (asks q)

section Process

variable {x : Crates} {u : Unicode} {ob : OrderbookDelta} {d : NormalizedDelta} {bids asks : ℚ → ℚ}

theorem pruneToDepth_of_none (h : ob.maxDepth = none) : ob.pruneToDepth = ob := by
  unfold pruneToDepth
  rw [h]

/-- A side filled from nothing by a truthful snapshot of every level. -/
theorem sizeAt_fillSide_empty {size : ℚ → ℚ} (hsize : ∀ q, 0 ≤ size q)
    {levels : List (String × String)} (h : Truthful x size levels)
    (hall : ∀ q, size q ≠ 0 → Mentions x levels q) (q : ℚ) :
    sizeAt (fillSide x OrdMap.empty levels).1 q = levelOf (size q) := by
  unfold levelOf
  have hq := (fillSide_spec hsize h OrdMap.empty).2 q
  by_cases hzero : size q = 0
  · rw [if_pos hzero, hq.2 (Or.inr hzero)]
    rfl
  · rw [if_neg hzero, hq.1 (hall q hzero) hzero]

/-- A side brought up to date by a truthful delta that mentions every level
that differs. -/
theorem sizeAt_applySide {size old : ℚ → ℚ} {side : PriceMap Decimal}
    {levels : List (String × String)} (h : Truthful x size levels)
    (hside : ∀ q, sizeAt side q = levelOf (old q))
    (hall : ∀ q, old q ≠ size q → Mentions x levels q) (q : ℚ) :
    sizeAt (applySide x side levels).1 q = levelOf (size q) := by
  have hq := (applySide_spec h side).2 q
  by_cases hm : Mentions x levels q
  · exact hq.1 hm
  · rw [hq.2 hm, hside q, not_not.mp (fun hne => hm (hall q hne))]

/-- **A true snapshot is taken over whole.** -/
theorem process_snapshot (hdepth : ob.maxDepth = none) (hsnap : d.isSnapshot = true)
    (hsym : ob.acceptsSymbol u d.symbol = true) (hb : ∀ q, 0 ≤ bids q) (ha : ∀ q, 0 ≤ asks q)
    (htb : Truthful x bids d.bids) (hta : Truthful x asks d.asks)
    (hmb : ∀ q, bids q ≠ 0 → Mentions x d.bids q) (hma : ∀ q, asks q ≠ 0 → Mentions x d.asks q) :
    (∃ r, (ob.process x u d).2 = .ok r) ∧ (ob.process x u d).1.Holds bids asks ∧
      (ob.process x u d).1.initialized = true ∧ (ob.process x u d).1.maxDepth = none := by
  obtain ⟨n, hn⟩ := (fillSide_spec hb htb OrdMap.empty).1
  obtain ⟨m, hm⟩ := (fillSide_spec ha hta OrdMap.empty).1
  unfold process
  rw [if_neg (by rw [hsym]; simp), if_pos hsnap]
  unfold applySnapshot
  simp only [hn, hm]
  rw [pruneToDepth_of_none (by exact hdepth)]
  exact ⟨⟨_, rfl⟩, ⟨sizeAt_fillSide_empty hb htb hmb, sizeAt_fillSide_empty ha hta hma⟩, rfl,
    hdepth⟩

/-- **A true delta that mentions every change brings the book up to date.** -/
theorem process_delta {oldBids oldAsks : ℚ → ℚ} (hdepth : ob.maxDepth = none)
    (hsnap : d.isSnapshot = false) (hsym : ob.acceptsSymbol u d.symbol = true)
    (hinit : ob.initialized = true) (hold : ob.Holds oldBids oldAsks)
    (htb : Truthful x bids d.bids) (hta : Truthful x asks d.asks)
    (hmb : ∀ q, oldBids q ≠ bids q → Mentions x d.bids q)
    (hma : ∀ q, oldAsks q ≠ asks q → Mentions x d.asks q) :
    (∃ r, (ob.process x u d).2 = .ok r) ∧ (ob.process x u d).1.Holds bids asks ∧
      (ob.process x u d).1.initialized = true ∧ (ob.process x u d).1.maxDepth = none := by
  obtain ⟨c, hc⟩ := (applySide_spec htb ob.bids).1
  obtain ⟨c', hc'⟩ := (applySide_spec hta ob.asks).1
  unfold process
  rw [if_neg (by rw [hsym]; simp), if_neg (by rw [hsnap]; simp)]
  unfold applyDelta
  rw [if_neg (by rw [hinit]; simp)]
  simp only [hc, hc']
  rw [pruneToDepth_of_none (by exact hdepth)]
  exact ⟨⟨_, rfl⟩, ⟨sizeAt_applySide htb hold.1 hmb, sizeAt_applySide hta hold.2 hma⟩, hinit,
    hdepth⟩

theorem pruneToDepth_pair (ob : OrderbookDelta) : ob.pruneToDepth.pair = ob.pair := by
  unfold pruneToDepth
  split <;> rfl

/-- The pair of a book never changes. -/
theorem process_pair (ob : OrderbookDelta) (d : NormalizedDelta) :
    (ob.process x u d).1.pair = ob.pair := by
  unfold process
  split
  · rfl
  · split
    · unfold applySnapshot
      dsimp only
      split
      · rfl
      · split
        · rfl
        · exact pruneToDepth_pair _
    · unfold applyDelta
      dsimp only
      split
      · rfl
      · split
        · rfl
        · split
          · rfl
          · exact pruneToDepth_pair _

/-- A refused symbol leaves the book as it is. -/
theorem process_of_not_accepts (hsym : ob.acceptsSymbol u d.symbol = false) :
    ob.process x u d = (ob, .error (.symbolMismatch ob.pair.toCanonical d.symbol)) := by
  unfold process
  rw [if_pos hsym]

end Process

end OrderbookDelta
