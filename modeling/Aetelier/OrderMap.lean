import Aetelier.SourcedOrderbook

/-!
# The order map of a per-order feed

Of an order, the last word counts. Whatever a map holds under an id, a change
leaves there the position it states, or nothing; orders of other ids it leaves
alone. So a diff that is already in a map changes nothing for good when it is
replayed onto it: the map passes through states that it never had, and is back
where it was at the end of the last diff it has seen.

A seed may therefore be older or newer than the diffs that were held back for
it, as long as all of them are replayed (`SourcedOrderbook.replay_converges`).
Nothing else of the book matters here, also not whether the updates were
refused: a refused update has changed the map like any other.
-/

/-- A position as the side, the price and the size it denotes. -/
def L3Pos.quote (p : L3Pos) : Bool × ℚ × ℚ := (p.isAsk, p.price.value, p.size.value)

namespace SourcedOrderbook

section Orders

variable (x : Crates) (u : Unicode)

/-- Where a change leaves its order, if it leaves it in the book. -/
def placed (o : L3Order) : Option L3Pos :=
  if o.removed then none
  else match x.fromStrExact o.price, x.fromStrExact o.size with
    | .ok price, .ok size => if size.value ≤ 0 then none else some ⟨o.isAsk, price, size⟩
    | _, _ => none

/-- What a change makes of the order of an id. -/
def moved (id : String) (pos : Option L3Pos) (o : L3Order) : Option L3Pos :=
  if o.orderId = id then placed x o else pos

/-- What an update makes of it. -/
def movedBy (id : String) (pos : Option L3Pos) (d : NormalizedDelta) : Option L3Pos :=
  d.orders.foldl (moved x id) (if d.isSnapshot then none else pos)

/-- The order map with the orders of an update applied. -/
def folded (sb : SourcedOrderbook) (d : NormalizedDelta) : L3Fold :=
  d.orders.foldl (L3Fold.step x)
    (if d.isSnapshot then ⟨∅, ∅, []⟩ else ⟨sb.l3Orders, sb.l3Levels, []⟩)

/-- Per-order updates, one after the other, whatever becomes of them. -/
def applyL3All (sb : SourcedOrderbook) (ds : List NormalizedDelta) : SourcedOrderbook :=
  ds.foldl (fun sb d => (sb.applyL3 x u d).1) sb

variable {x u} {id : String}

@[simp] theorem L3Fold.orders_touch (f : L3Fold) (key : Bool × Decimal) :
    (f.touch key).orders = f.orders := by
  unfold L3Fold.touch
  split <;> rfl

theorem L3Fold.orders_removeOrder (f : L3Fold) (orderId : String) :
    (f.removeOrder orderId).orders = f.orders.erase orderId := by
  unfold L3Fold.removeOrder
  split
  · next hnone =>
    rw [AList.lookup_eq_none] at hnone
    exact (AList.ext (List.kerase_of_notMem_keys hnone)).symm
  · rw [L3Fold.orders_touch]

theorem L3Fold.lookup_removeOrder (f : L3Fold) (orderId : String) :
    (f.removeOrder orderId).orders.lookup id
      = if orderId = id then none else f.orders.lookup id := by
  rw [L3Fold.orders_removeOrder]
  split
  · next h =>
    subst h
    exact AList.lookup_erase orderId f.orders
  · next h => exact AList.lookup_erase_ne (Ne.symm h)

theorem L3Fold.lookup_addOrder (f : L3Fold) (o : L3Order) (price size : Decimal) :
    (f.addOrder o price size).orders.lookup id
      = if o.orderId = id then some ⟨o.isAsk, price, size⟩ else f.orders.lookup id := by
  unfold L3Fold.addOrder
  rw [L3Fold.orders_touch]
  split
  · next h =>
    subst h
    exact AList.lookup_insert f.orders
  · next h => exact AList.lookup_insert_ne (Ne.symm h)

/-- A change that leaves its order in the book, or takes it out. -/
theorem L3Fold.step_cases (f : L3Fold) (o : L3Order) :
    (∃ price size, 0 < size.value ∧ placed x o = some ⟨o.isAsk, price, size⟩ ∧
        f.step x o = (f.removeOrder o.orderId).addOrder o price size) ∨
      placed x o = none ∧ f.step x o = f.removeOrder o.orderId := by
  unfold L3Fold.step placed
  cases o.removed with
  | true => exact Or.inr ⟨rfl, rfl⟩
  | false =>
    cases x.fromStrExact o.price with
    | error e => exact Or.inr ⟨rfl, rfl⟩
    | ok price =>
      cases x.fromStrExact o.size with
      | error e => exact Or.inr ⟨rfl, rfl⟩
      | ok size =>
        by_cases hsize : size.value ≤ 0
        · exact Or.inr ⟨if_pos hsize, if_pos hsize⟩
        · exact Or.inl ⟨price, size, not_le.mp hsize, if_neg hsize, if_neg hsize⟩

theorem L3Fold.lookup_step (f : L3Fold) (o : L3Order) :
    (f.step x o).orders.lookup id = moved x id (f.orders.lookup id) o := by
  unfold moved
  obtain ⟨price, size, -, hplaced, hstep⟩ | ⟨hplaced, hstep⟩ := L3Fold.step_cases (x := x) f o
  · rw [hstep, hplaced, L3Fold.lookup_addOrder, L3Fold.lookup_removeOrder]
    split <;> rfl
  · rw [hstep, hplaced, L3Fold.lookup_removeOrder]

theorem L3Fold.lookup_foldl (orders : List L3Order) (f : L3Fold) :
    (orders.foldl (L3Fold.step x) f).orders.lookup id
      = orders.foldl (moved x id) (f.orders.lookup id) := by
  induction orders generalizing f with
  | nil => rfl
  | cons o orders ih =>
    rw [List.foldl_cons, List.foldl_cons, ih, L3Fold.lookup_step]

theorem applyL3_eq (sb : SourcedOrderbook) (d : NormalizedDelta) : sb.applyL3 x u d =
    if l3MaxOrders < (sb.folded x d).orders.keys.length then
      gap { sb with l3Orders := (sb.folded x d).orders, l3Levels := (sb.folded x d).levels }
        (.other ("l3 order map exceeded " ++ toString l3MaxOrders ++ " entries; re-seeding"))
    else
      processed x u
        { sb with l3Orders := (sb.folded x d).orders, l3Levels := (sb.folded x d).levels }
        ((sb.folded x d).levelDelta x d) (synced (outputOf d.isSnapshot)) :=
  rfl

/-- The order map of an update and its totals are those of its orders, applied
or refused. -/
theorem maps_applyL3 (sb : SourcedOrderbook) (d : NormalizedDelta) :
    (sb.applyL3 x u d).1.l3Orders = (sb.folded x d).orders ∧
      (sb.applyL3 x u d).1.l3Levels = (sb.folded x d).levels := by
  rw [applyL3_eq]
  generalize sb.folded x d = f
  split
  · exact ⟨rfl, rfl⟩
  · unfold processed
    split <;> exact ⟨rfl, rfl⟩

theorem lookup_applyL3 (sb : SourcedOrderbook) (d : NormalizedDelta) :
    (sb.applyL3 x u d).1.l3Orders.lookup id = movedBy x id (sb.l3Orders.lookup id) d := by
  rw [(maps_applyL3 sb d).1]
  unfold folded movedBy
  rw [L3Fold.lookup_foldl]
  split <;> rfl

theorem lookup_applyL3All (sb : SourcedOrderbook) (ds : List NormalizedDelta) :
    (sb.applyL3All x u ds).l3Orders.lookup id
      = ds.foldl (movedBy x id) (sb.l3Orders.lookup id) := by
  induction ds generalizing sb with
  | nil => rfl
  | cons d ds ih =>
    show ((sb.applyL3 x u d).1.applyL3All x u ds).l3Orders.lookup id = _
    rw [ih, lookup_applyL3]
    rfl

/-! ## The last word -/

/-- Diffs change an order as all their changes in a row do. -/
theorem foldl_movedBy {ds : List NormalizedDelta} (h : ∀ d ∈ ds, d.isSnapshot = false)
    (pos : Option L3Pos) :
    ds.foldl (movedBy x id) pos = (ds.flatMap NormalizedDelta.orders).foldl (moved x id) pos := by
  induction ds generalizing pos with
  | nil => rfl
  | cons d ds ih =>
    rw [List.foldl_cons, List.flatMap_cons, List.foldl_append,
      ih (fun d' hd' => h d' (List.mem_cons_of_mem _ hd'))]
    unfold movedBy
    rw [h d List.mem_cons_self]
    rfl

/-- Changes of an order leave it where the last one says, or where it was. -/
theorem foldl_moved_cases (x : Crates) (id : String) (orders : List L3Order) :
    ((∀ o ∈ orders, o.orderId ≠ id) ∧ ∀ pos, orders.foldl (moved x id) pos = pos) ∨
      ∃ o ∈ orders, o.orderId = id ∧ ∀ pos, orders.foldl (moved x id) pos = placed x o := by
  induction orders with
  | nil => exact Or.inl ⟨fun o ho => absurd ho List.not_mem_nil, fun _ => rfl⟩
  | cons o orders ih =>
    obtain ⟨hother, hsame⟩ | ⟨o', ho', hid, hlast⟩ := ih
    · by_cases hid : o.orderId = id
      · refine Or.inr ⟨o, List.mem_cons_self, hid, fun pos => ?_⟩
        rw [List.foldl_cons, hsame]
        exact if_pos hid
      · refine Or.inl ⟨List.forall_mem_cons.mpr ⟨hid, hother⟩, fun pos => ?_⟩
        rw [List.foldl_cons, hsame]
        exact if_neg hid
    · exact Or.inr ⟨o', List.mem_cons_of_mem _ ho', hid, fun pos => hlast _⟩

/-- **Said twice is said once.** -/
theorem foldl_moved_twice (orders : List L3Order) (pos : Option L3Pos) :
    orders.foldl (moved x id) (orders.foldl (moved x id) pos) = orders.foldl (moved x id) pos := by
  obtain ⟨-, hsame⟩ | ⟨o, -, -, hlast⟩ := foldl_moved_cases x id orders
  · rw [hsame, hsame]
  · rw [hlast, hlast]

/-- Updates of two equal positions leave two equal positions. -/
theorem map_quote_foldl_moved {pos pos' : Option L3Pos}
    (h : pos.map L3Pos.quote = pos'.map L3Pos.quote) (orders : List L3Order) :
    (orders.foldl (moved x id) pos).map L3Pos.quote
      = (orders.foldl (moved x id) pos').map L3Pos.quote := by
  obtain ⟨-, hsame⟩ | ⟨o, -, -, hlast⟩ := foldl_moved_cases x id orders
  · rw [hsame, hsame, h]
  · rw [hlast, hlast]

theorem map_quote_foldl_movedBy {pos pos' : Option L3Pos}
    (h : pos.map L3Pos.quote = pos'.map L3Pos.quote) (ds : List NormalizedDelta) :
    (ds.foldl (movedBy x id) pos).map L3Pos.quote
      = (ds.foldl (movedBy x id) pos').map L3Pos.quote := by
  induction ds generalizing pos pos' with
  | nil => exact h
  | cons d ds ih =>
    refine ih ?_
    unfold movedBy
    split
    · rfl
    · exact map_quote_foldl_moved h d.orders

/-! ## Replay -/

variable (x)

/-- **A snapshot of an order map**: it lists every order of the map, where it
is, and no other. -/
structure SnapshotOf (orders : AList (fun _ : String => L3Pos)) (d : NormalizedDelta) : Prop where
  /-- It is a snapshot. -/
  snapshot : d.isSnapshot = true
  /-- It lists orders where they are. -/
  sound : ∀ o ∈ d.orders, (placed x o).map L3Pos.quote = (orders.lookup o.orderId).map L3Pos.quote
  /-- It lists every order. -/
  complete : ∀ id ∈ orders.keys, ∃ o ∈ d.orders, o.orderId = id

/-- Two maps hold the same orders at the same positions. -/
def SameOrders (m m' : AList (fun _ : String => L3Pos)) : Prop :=
  ∀ id, (m.lookup id).map L3Pos.quote = (m'.lookup id).map L3Pos.quote

variable {x}

/-- A snapshot restores the map it was taken of. -/
theorem SnapshotOf.restores {orders : AList (fun _ : String => L3Pos)} {d : NormalizedDelta}
    (h : SnapshotOf x orders d) (id : String) (pos : Option L3Pos) :
    (movedBy x id pos d).map L3Pos.quote = (orders.lookup id).map L3Pos.quote := by
  unfold movedBy
  rw [if_pos h.snapshot]
  obtain ⟨hother, hsame⟩ | ⟨o, ho, rfl, hlast⟩ := foldl_moved_cases x id d.orders
  · have habsent : id ∉ orders.keys := by
      intro hmem
      obtain ⟨o, ho, hid⟩ := h.complete id hmem
      exact hother o ho hid
    rw [hsame, AList.lookup_eq_none.mpr habsent]
  · rw [hlast]
    exact h.sound o ho

/-- **Replaying converges.** Take a snapshot of an order map that some diffs
were applied to. To apply it, and then all those diffs and whatever follows
them, leaves the same order map as to apply it and what follows. -/
theorem replay_converges (earlier sb : SourcedOrderbook) {P : List NormalizedDelta}
    (hP : ∀ d ∈ P, d.isSnapshot = false) {S : NormalizedDelta}
    (hS : SnapshotOf x (earlier.applyL3All x u P).l3Orders S) (Q : List NormalizedDelta) :
    SameOrders (sb.applyL3All x u (S :: P ++ Q)).l3Orders
      (sb.applyL3All x u (S :: Q)).l3Orders := by
  intro id
  rw [lookup_applyL3All, lookup_applyL3All, List.cons_append, List.foldl_cons, List.foldl_append,
    List.foldl_cons]
  refine map_quote_foldl_movedBy ?_ Q
  have hrestored := hS.restores id (sb.l3Orders.lookup id)
  rw [lookup_applyL3All, foldl_movedBy hP] at hrestored
  calc ((P.foldl (movedBy x id) (movedBy x id (sb.l3Orders.lookup id) S)).map L3Pos.quote)
      = ((P.flatMap NormalizedDelta.orders).foldl (moved x id)
          ((P.flatMap NormalizedDelta.orders).foldl (moved x id)
            (earlier.l3Orders.lookup id))).map L3Pos.quote := by
        rw [foldl_movedBy hP]
        exact map_quote_foldl_moved hrestored _
    _ = (movedBy x id (sb.l3Orders.lookup id) S).map L3Pos.quote := by
        rw [foldl_moved_twice, hrestored]

end Orders

/-! ## A seed that is newer than what is replayed -/

/-- A per-order update of one pair. -/
def orderUpdate (updateId : ℕ) (isSnapshot : Bool) (orders : List L3Order) : NormalizedDelta where
  symbol := "BTC/USDT"
  bids := []
  asks := []
  updateId := updateId
  sequence := updateId
  orders := orders
  isSnapshot := isSnapshot

/-- Two orders are opened; then one moves and the other leaves. -/
def openedThenMoved : List NormalizedDelta :=
  [orderUpdate 1 false [⟨"a", false, "10", "1", false⟩, ⟨"b", true, "12", "2", false⟩],
    orderUpdate 2 false [⟨"a", false, "11", "1", false⟩, ⟨"b", true, "", "", true⟩]]

/-- The book afterwards. -/
def movedSeed : NormalizedDelta := orderUpdate 2 true [⟨"a", false, "11.0", "1.0", false⟩]

/-- A book of orders. -/
def emptyOrders : SourcedOrderbook := new ⟨"BTC", "USDT"⟩ (.l3 .restSnapshot) .restSnapshot

theorem movedSeed_snapshotOf : SnapshotOf .plain
    (emptyOrders.applyL3All .plain ⟨id, id⟩ openedThenMoved).l3Orders movedSeed :=
  ⟨rfl, by decide, by decide⟩

/-- Replayed from the start, the order that left comes and leaves again. -/
theorem replay_converges_movedSeed :
    SameOrders
      (emptyOrders.applyL3All .plain ⟨id, id⟩ (movedSeed :: openedThenMoved
        ++ [orderUpdate 3 false [⟨"c", true, "13", "1", false⟩]])).l3Orders
      (emptyOrders.applyL3All .plain ⟨id, id⟩
        [movedSeed, orderUpdate 3 false [⟨"c", true, "13", "1", false⟩]]).l3Orders :=
  replay_converges emptyOrders emptyOrders (by decide) movedSeed_snapshotOf _

end SourcedOrderbook
