import Mathlib.Algebra.BigOperators.Group.List.Basic
import Mathlib.Algebra.Order.BigOperators.Group.List
import Aetelier.KrakenWindow
import Aetelier.OrderMap
import Aetelier.PrintedDecimals
import Aetelier.Trace

/-!
# The levels of a per-order book

The totals of an order map are kept one order at a time: an order that leaves
is subtracted from the level it leaves, one that comes is added to the level it
comes to, and a level at zero is dropped. They are therefore the sums of the
orders that rest there, after every update, whatever becomes of it
(`SourcedOrderbook.totalled_folded`).

The book gets only the levels an update touched, with their totals. That keeps
it the projection of the order map, as long as no update changes the map and
is then refused: the levels it touched are not told to the book, and a gapped
book takes the next delta all the same. Along every run in which a book that is
behind takes nothing but a snapshot, it is the projection after every update
that applies (`SourcedOrderbook.l3_projection`).
-/

/-- The side and the price an order rests at. -/
def L3Pos.level (p : L3Pos) : Bool × ℚ := (p.isAsk, p.price.value)

namespace SourcedOrderbook

/-! ## Orders at a level -/

section Resting

variable {orders : AList (fun _ : String => L3Pos)} {id : String} {pos : L3Pos} {k : Bool × ℚ}

/-- The sizes of the orders that rest at a level. -/
def restingAt (orders : AList (fun _ : String => L3Pos)) (k : Bool × ℚ) : List ℚ :=
  (orders.entries.filter (fun e => e.2.level = k)).map (fun e => e.2.size.value)

/-- **The projection of an order map**: at a level the sum of its orders, and
nothing where there is none. -/
def projection (orders : AList (fun _ : String => L3Pos)) (k : Bool × ℚ) : Option ℚ :=
  if restingAt orders k = [] then none else some (restingAt orders k).sum

/-- Every order of a map has a size. -/
def Sized (orders : AList (fun _ : String => L3Pos)) : Prop :=
  ∀ e ∈ orders.entries, 0 < e.2.size.value

theorem Sized.pos_of_mem (h : Sized orders) : ∀ s ∈ restingAt orders k, 0 < s := by
  intro s hs
  obtain ⟨e, he, rfl⟩ := List.mem_map.mp hs
  exact h e (List.mem_of_mem_filter he)

theorem Sized.sum_nonneg (h : Sized orders) : 0 ≤ (restingAt orders k).sum :=
  List.sum_nonneg (fun s hs => (h.pos_of_mem s hs).le)

theorem Sized.sum_pos_iff (h : Sized orders) :
    0 < (restingAt orders k).sum ↔ restingAt orders k ≠ [] := by
  refine ⟨fun hpos hnil => ?_, fun hne => List.sum_pos _ h.pos_of_mem hne⟩
  rw [hnil] at hpos
  exact lt_irrefl _ hpos

/-- The projection as a level of a book. -/
theorem Sized.projection_eq (h : Sized orders) :
    projection orders k = OrderbookDelta.levelOf (restingAt orders k).sum := by
  unfold projection OrderbookDelta.levelOf
  by_cases hnil : restingAt orders k = []
  · rw [if_pos hnil, hnil]
    exact (if_pos rfl).symm
  · rw [if_neg hnil, if_neg (h.sum_pos_iff.mpr hnil).ne']

/-- An order that comes. -/
theorem restingAt_insert (h : id ∉ orders) : restingAt (orders.insert id pos) k =
    if pos.level = k then pos.size.value :: restingAt orders k else restingAt orders k := by
  unfold restingAt
  rw [AList.entries_insert_of_notMem h, List.filter_cons]
  by_cases hk : pos.level = k
  · rw [if_pos (decide_eq_true hk), if_pos hk]
    rfl
  · rw [if_neg (fun h => hk (of_decide_eq_true h)), if_neg hk]

/-- An order that leaves. -/
theorem restingAt_perm_erase (h : orders.lookup id = some pos) : (restingAt orders k).Perm
    (if pos.level = k then pos.size.value :: restingAt (orders.erase id) k
      else restingAt (orders.erase id) k) := by
  have hmem : id ∈ orders.keys := AList.lookup_isSome.mp (by rw [h]; rfl)
  obtain ⟨pos', l, r, hl, hsplit, herase⟩ := List.exists_of_kerase hmem
  have hpos : pos' = pos := by
    have hentry : (⟨id, pos'⟩ : Sigma fun _ => L3Pos) ∈ orders.entries :=
      hsplit ▸ List.mem_append_right _ List.mem_cons_self
    have hlookup := AList.mem_lookup_iff.mpr hentry
    rw [h] at hlookup
    exact (Option.some_inj.mp hlookup).symm
  subst hpos
  unfold restingAt
  rw [show (orders.erase id).entries = l ++ r from herase, hsplit, List.filter_append,
    List.filter_cons, List.map_append, List.filter_append, List.map_append]
  by_cases hk : pos'.level = k
  · rw [if_pos (decide_eq_true hk), if_pos hk, List.map_cons]
    exact List.perm_middle
  · rw [if_neg (fun h => hk (of_decide_eq_true h)), if_neg hk]

theorem projection_of_perm {l : List ℚ} (h : (restingAt orders k).Perm l) :
    projection orders k = if l = [] then none else some l.sum := by
  unfold projection
  rw [h.sum_eq]
  exact if_congr ⟨fun hnil => List.nil_perm.mp (hnil ▸ h), fun hnil => List.perm_nil.mp (hnil ▸ h)⟩
    rfl rfl

end Resting

/-! ## The totals -/

/-- **An order map with its totals**: every order has a size, and the total
of a level is the sum of its orders. -/
structure Totalled (f : L3Fold) : Prop where
  sized : Sized f.orders
  totals : ∀ k, (f.levels.lookup k).map Decimal.value = projection f.orders k

section Totals

variable {x : Crates} {f : L3Fold} {id : String} {o : L3Order} {price size : Decimal}

@[simp] theorem L3Fold.levels_touch (f : L3Fold) (key : Bool × Decimal) :
    (f.touch key).levels = f.levels := by
  unfold L3Fold.touch
  split <;> rfl

/-- The total of a level, zero if there is none. -/
theorem Totalled.total_eq (h : Totalled f) (k : Bool × ℚ) :
    ((f.levels.lookup k).getD Decimal.zero).value = (restingAt f.orders k).sum := by
  have htotal := h.totals k
  unfold projection at htotal
  cases hlookup : f.levels.lookup k with
  | none =>
    rw [hlookup] at htotal
    split at htotal
    · next hnil =>
      rw [hnil]
      exact Decimal.value_zero
    · cases htotal
  | some total =>
    rw [hlookup] at htotal
    split at htotal
    · cases htotal
    · exact Option.some_inj.mp htotal

theorem Totalled.removeOrder (h : Totalled f) (id : String) : Totalled (f.removeOrder id) := by
  cases hold : f.orders.lookup id with
  | none =>
    have hsame : f.removeOrder id = f := by
      unfold L3Fold.removeOrder
      rw [hold]
    rw [hsame]
    exact h
  | some old =>
    have hsized : Sized (f.orders.erase id) :=
      fun e he => h.sized e ((List.kerase_sublist id f.orders.entries).subset he)
    have hlevels : (f.removeOrder id).levels
        = (f.levels.lookup old.level).elim f.levels (fun total =>
          if (total.sub old.size).value ≤ 0 then f.levels.erase old.level
          else f.levels.insert old.level (total.sub old.size)) := by
      have hlevel : old.level = (old.isAsk, old.price.value) := rfl
      unfold L3Fold.removeOrder
      rw [hold, L3Fold.levels_touch, hlevel]
      dsimp only
      cases f.levels.lookup (old.isAsk, old.price.value) <;> rfl
    refine ⟨by rw [L3Fold.orders_removeOrder]; exact hsized, fun k => ?_⟩
    rw [L3Fold.orders_removeOrder, hlevels]
    have hperm := restingAt_perm_erase (k := k) hold
    by_cases hk : old.level = k
    · subst hk
      rw [if_pos rfl] at hperm
      have htotal := h.totals old.level
      rw [projection_of_perm hperm, if_neg (List.cons_ne_nil _ _), List.sum_cons] at htotal
      obtain ⟨total, hlookup, hvalue⟩ := Option.map_eq_some_iff.mp htotal
      have hrest : (total.sub old.size).value = (restingAt (f.orders.erase id) old.level).sum := by
        rw [Decimal.value_sub, hvalue, add_sub_cancel_left]
      rw [hlookup, Option.elim_some, hrest]
      unfold projection
      by_cases hnil : restingAt (f.orders.erase id) old.level = []
      · rw [if_pos (by rw [hnil]; exact le_refl _), if_pos hnil, AList.lookup_erase]
        rfl
      · rw [if_neg (not_le.mpr (hsized.sum_pos_iff.mpr hnil)), if_neg hnil, AList.lookup_insert,
          Option.map_some, hrest]
    · rw [if_neg hk] at hperm
      have hother : projection (f.orders.erase id) k = projection f.orders k :=
        (projection_of_perm hperm).symm
      rw [hother, ← h.totals k]
      cases f.levels.lookup old.level with
      | none => rfl
      | some total =>
        rw [Option.elim_some]
        split
        · rw [AList.lookup_erase_ne (Ne.symm hk)]
        · rw [AList.lookup_insert_ne (Ne.symm hk)]

theorem Totalled.addOrder (h : Totalled f) (hnew : o.orderId ∉ f.orders) (hsize : 0 < size.value) :
    Totalled (f.addOrder o price size) := by
  have horders : (f.addOrder o price size).orders
      = f.orders.insert o.orderId ⟨o.isAsk, price, size⟩ := by
    unfold L3Fold.addOrder
    rw [L3Fold.orders_touch]
  have hlevels : (f.addOrder o price size).levels = f.levels.insert (o.isAsk, price.value)
      (((f.levels.lookup (o.isAsk, price.value)).getD Decimal.zero).add size) := by
    unfold L3Fold.addOrder
    rw [L3Fold.levels_touch]
  constructor
  · rw [horders]
    intro e he
    rw [AList.entries_insert_of_notMem hnew] at he
    rcases List.mem_cons.mp he with rfl | he
    · exact hsize
    · exact h.sized e he
  · intro k
    rw [horders, hlevels]
    unfold projection
    rw [restingAt_insert hnew]
    by_cases hk : L3Pos.level ⟨o.isAsk, price, size⟩ = k
    · subst hk
      show ((f.levels.insert (o.isAsk, price.value) _).lookup (o.isAsk, price.value)).map _ = _
      rw [if_pos rfl, if_neg (List.cons_ne_nil _ _), AList.lookup_insert, Option.map_some,
        Decimal.value_add, h.total_eq, List.sum_cons, add_comm]
      rfl
    · have hne : k ≠ (o.isAsk, price.value) := Ne.symm hk
      rw [if_neg hk, AList.lookup_insert_ne hne]
      exact h.totals k

theorem Totalled.step (h : Totalled f) (o : L3Order) : Totalled (f.step x o) := by
  obtain ⟨price, size, hsize, -, hstep⟩ | ⟨-, hstep⟩ := L3Fold.step_cases (x := x) f o
  · have hgone : o.orderId ∉ (f.removeOrder o.orderId).orders := by
      rw [← AList.lookup_eq_none, L3Fold.lookup_removeOrder, if_pos rfl]
    rw [hstep]
    exact (h.removeOrder o.orderId).addOrder hgone hsize
  · rw [hstep]
    exact h.removeOrder o.orderId

theorem Totalled.foldl (h : Totalled f) (orders : List L3Order) :
    Totalled (orders.foldl (L3Fold.step x) f) := by
  induction orders generalizing f with
  | nil => exact h
  | cons o orders ih => exact ih (h.step o)

theorem totalled_empty (touched : List (Bool × Decimal)) : Totalled ⟨∅, ∅, touched⟩ :=
  ⟨fun _ he => absurd he List.not_mem_nil, fun _ => rfl⟩

/-- **The totals are the sums**, whatever the update does to the map. -/
theorem totalled_folded {sb : SourcedOrderbook} (h : Totalled ⟨sb.l3Orders, sb.l3Levels, []⟩)
    (d : NormalizedDelta) : Totalled (sb.folded x d) := by
  unfold folded
  refine Totalled.foldl ?_ d.orders
  split
  · exact totalled_empty []
  · exact h

end Totals

/-! ## The levels touched -/

/-- A level was touched. -/
def L3Fold.Touches (f : L3Fold) (k : Bool × ℚ) : Prop := ∃ t ∈ f.touched, (t.1, t.2.value) = k

/-- The levels that were not touched are as they were. -/
def Spared (f f' : L3Fold) : Prop :=
  ∀ k, ¬ f'.Touches k → ¬ f.Touches k ∧ (restingAt f'.orders k).Perm (restingAt f.orders k)

section Touched

variable {x : Crates} {f f' f'' : L3Fold} {k : Bool × ℚ}

theorem Spared.refl (f : L3Fold) : Spared f f := fun _ h => ⟨h, List.Perm.refl _⟩

theorem Spared.trans (h : Spared f f') (h' : Spared f' f'') : Spared f f'' := by
  intro k hk
  obtain ⟨hk', hperm'⟩ := h' k hk
  obtain ⟨hk'', hperm⟩ := h k hk'
  exact ⟨hk'', hperm'.trans hperm⟩

theorem L3Fold.touches_touch {key : Bool × Decimal} :
    (f.touch key).Touches k ↔ f.Touches k ∨ (key.1, key.2.value) = k := by
  unfold L3Fold.Touches L3Fold.touch
  split
  · next hany =>
    obtain ⟨t, ht, hkey⟩ := List.any_eq_true.mp hany
    obtain ⟨hside, hprice⟩ := of_decide_eq_true hkey
    refine (or_iff_left_of_imp ?_).symm
    rintro rfl
    exact ⟨t, ht, Prod.ext hside hprice⟩
  · constructor
    · rintro ⟨t, ht, rfl⟩
      rcases List.mem_append.mp ht with ht | ht
      · exact Or.inl ⟨t, ht, rfl⟩
      · rw [List.mem_singleton.mp ht]
        exact Or.inr rfl
    · rintro (⟨t, ht, rfl⟩ | rfl)
      · exact ⟨t, List.mem_append_left _ ht, rfl⟩
      · exact ⟨key, List.mem_append_right _ (List.mem_singleton.mpr rfl), rfl⟩

theorem spared_removeOrder (f : L3Fold) (id : String) : Spared f (f.removeOrder id) := by
  cases hold : f.orders.lookup id with
  | none =>
    have hsame : f.removeOrder id = f := by
      unfold L3Fold.removeOrder
      rw [hold]
    rw [hsame]
    exact Spared.refl f
  | some old =>
    intro k hk
    have htouches : (f.removeOrder id).Touches k ↔ f.Touches k ∨ old.level = k := by
      unfold L3Fold.removeOrder
      rw [hold]
      exact L3Fold.touches_touch
    rw [htouches, not_or] at hk
    have hperm := restingAt_perm_erase (k := k) hold
    rw [if_neg hk.2] at hperm
    rw [L3Fold.orders_removeOrder]
    exact ⟨hk.1, hperm.symm⟩

theorem spared_addOrder {o : L3Order} {price size : Decimal} (hnew : o.orderId ∉ f.orders) :
    Spared f (f.addOrder o price size) := by
  intro k hk
  have htouches : (f.addOrder o price size).Touches k ↔ f.Touches k ∨ (o.isAsk, price.value) = k :=
    L3Fold.touches_touch
  rw [htouches, not_or] at hk
  refine ⟨hk.1, ?_⟩
  unfold L3Fold.addOrder
  rw [L3Fold.orders_touch, restingAt_insert hnew]
  exact (if_neg hk.2) ▸ List.Perm.refl _

theorem spared_step (f : L3Fold) (o : L3Order) : Spared f (f.step x o) := by
  obtain ⟨price, size, -, -, hstep⟩ | ⟨-, hstep⟩ := L3Fold.step_cases (x := x) f o
  · have hgone : o.orderId ∉ (f.removeOrder o.orderId).orders := by
      rw [← AList.lookup_eq_none, L3Fold.lookup_removeOrder, if_pos rfl]
    rw [hstep]
    exact (spared_removeOrder f o.orderId).trans (spared_addOrder hgone)
  · rw [hstep]
    exact spared_removeOrder f o.orderId

/-- **A level that an update does not touch keeps its orders**; a snapshot
touches every level it leaves. -/
theorem restingAt_folded {sb : SourcedOrderbook} {d : NormalizedDelta}
    (hk : ¬ (sb.folded x d).Touches k) : (restingAt (sb.folded x d).orders k).Perm
      (if d.isSnapshot then [] else restingAt sb.l3Orders k) := by
  have hspared : ∀ (orders : List L3Order) (f : L3Fold),
      Spared f (orders.foldl (L3Fold.step x) f) := by
    intro orders
    induction orders with
    | nil => exact Spared.refl
    | cons o orders ih => exact fun f => (spared_step f o).trans (ih _)
  have hperm := (hspared d.orders _ k hk).2
  unfold folded
  split at hperm
  · next hsnap =>
    rw [if_pos hsnap]
    rw [if_pos hsnap]
    exact hperm
  · next hsnap =>
    rw [if_neg hsnap]
    rw [if_neg hsnap]
    exact hperm

/-! ## The update of the levels -/

theorem parseLevel_printed (hx : x.PrintsBack) (price size : Decimal) :
    ∃ p s, OrderbookDelta.parseLevel x (x.toString price, x.toString size) = .ok (p, s) ∧
      p.value = price.value ∧ s.value = size.value := by
  obtain ⟨p, hp, hpv⟩ := hx price
  obtain ⟨s, hs, hsv⟩ := hx size
  refine ⟨p, s, ?_, hpv, hsv⟩
  unfold OrderbookDelta.parseLevel OrderbookDelta.parseDecimal
  dsimp only
  rw [hp, hs]
  rfl

/-- The entries of a side say what rests at the levels touched. -/
theorem truthful_entries (hx : x.PrintsBack) (h : Totalled f) (isAsk : Bool)
    (side : Bool × Decimal → Bool) (hside : ∀ t, side t = true ↔ t.1 = isAsk) :
    OrderbookDelta.Truthful x (fun q => (restingAt f.orders (isAsk, q)).sum)
        ((f.touched.filter side).map (f.entry x)) ∧
      ∀ q, f.Touches (isAsk, q) →
        OrderbookDelta.Mentions x ((f.touched.filter side).map (f.entry x)) q := by
  have hentry : ∀ t : Bool × Decimal, ∃ p s,
      OrderbookDelta.parseLevel x (f.entry x t) = .ok (p, s) ∧
      p.value = t.2.value ∧ s.value = (restingAt f.orders (t.1, t.2.value)).sum := by
    intro t
    obtain ⟨p, s, hread, hp, hs⟩ := parseLevel_printed hx t.2
      ((f.levels.lookup (t.1, t.2.value)).getD Decimal.zero)
    exact ⟨p, s, hread, hp, hs.trans (h.total_eq _)⟩
  constructor
  · intro l hl
    obtain ⟨t, ht, rfl⟩ := List.mem_map.mp hl
    obtain ⟨p, s, hread, hp, hs⟩ := hentry t
    refine ⟨p, s, hread, ?_⟩
    rw [hs, hp, (hside t).mp (List.mem_filter.mp ht).2]
  · rintro q ⟨t, ht, hkey⟩
    obtain ⟨p, s, hread, hp, -⟩ := hentry t
    have hside' : side t = true := (hside t).mpr (congrArg Prod.fst hkey)
    exact ⟨f.entry x t, List.mem_map_of_mem (List.mem_filter.mpr ⟨ht, hside'⟩), p, s, hread,
      hp.trans (congrArg Prod.snd hkey)⟩

end Touched

/-! ## The book -/

/-- **The book is the projection** of the order map, on both sides. -/
def Projected (sb : SourcedOrderbook) : Prop :=
  ∀ q, OrderbookDelta.sizeAt sb.book.bids q = projection sb.l3Orders (false, q) ∧
    OrderbookDelta.sizeAt sb.book.asks q = projection sb.l3Orders (true, q)

/-- **An update that goes into the order map and is refused by the book**, with or without
orders: the map is past its bound, the symbol is another pair's, or there has been no
snapshot. -/
def Refused (x : Crates) (u : Unicode) (sb : SourcedOrderbook) (d : NormalizedDelta) : Prop :=
  l3MaxOrders < (sb.folded x d).orders.keys.length ∨
    sb.book.acceptsSymbol u d.symbol = false ∨ d.isSnapshot = false ∧ sb.book.initialized = false

instance decidableRefused (x : Crates) (u : Unicode) (sb : SourcedOrderbook) (d : NormalizedDelta) :
    Decidable (Refused x u sb d) :=
  inferInstanceAs (Decidable (_ ∨ _ ∨ _))

section Book

variable {x : Crates} {u : Unicode} {sb : SourcedOrderbook} {d : NormalizedDelta}

theorem holds_iff_projected (h : Sized sb.l3Orders) : sb.book.Holds
    (fun q => (restingAt sb.l3Orders (false, q)).sum)
    (fun q => (restingAt sb.l3Orders (true, q)).sum) ↔ sb.Projected := by
  unfold OrderbookDelta.Holds Projected
  simp only [h.projection_eq]
  exact forall_and.symm

/-- What an apply of a per-order book leaves is what its model leaves, but for
the state. -/
theorem apply_l3 {source : SnapshotSource} (hm : sb.model = .l3 source) :
    (sb.apply x u d).1.book = (sb.applyL3 x u d).1.book ∧
      (sb.apply x u d).1.l3Orders = (sb.folded x d).orders ∧
      (sb.apply x u d).1.l3Levels = (sb.folded x d).levels ∧
      ∀ output, (sb.apply x u d).2 = .ok output → (sb.applyL3 x u d).2 = .ok output := by
  obtain ⟨horders, hlevels⟩ := maps_applyL3 (x := x) (u := u) sb d
  have hmodel : sb.applyModel x u d = sb.applyL3 x u d := by
    unfold applyModel
    rw [hm]
  rw [← horders, ← hlevels]
  unfold apply
  rw [hmodel]
  split
  · next h => rw [h]; exact ⟨rfl, rfl, rfl, fun _ h => h⟩
  · next h =>
    rw [h]
    split
    · exact ⟨rfl, rfl, rfl, fun _ h => by cases h⟩
    · exact ⟨rfl, rfl, rfl, fun _ h => h⟩

theorem book_processed (sb : SourcedOrderbook) (d : NormalizedDelta) (output : BookOutput) :
    (sb.processed x u d (synced output)).1.book = (sb.book.process x u d).1 := by
  unfold processed
  split
  · next h => rw [h]; rfl
  · next h => rw [h]; rfl

/-- **A refused update** leaves the book. -/
theorem applyL3_of_refused (h : Refused x u sb d) :
    (sb.applyL3 x u d).1.book = sb.book ∧ ∀ output, (sb.applyL3 x u d).2 ≠ .ok output := by
  rw [applyL3_eq]
  split
  · exact ⟨rfl, fun _ h => by cases h⟩
  · next hfits =>
    have hprocess : ∃ e, sb.book.process x u ((sb.folded x d).levelDelta x d)
        = (sb.book, .error e) := by
      rcases h with hcap | hsym | ⟨hdelta, hinit⟩
      · exact absurd hcap hfits
      · exact ⟨_, OrderbookDelta.process_of_not_accepts hsym⟩
      · by_cases hsym : sb.book.acceptsSymbol u d.symbol = false
        · exact ⟨_, OrderbookDelta.process_of_not_accepts hsym⟩
        · refine ⟨.notInitialized, ?_⟩
          have hsnap : ¬ d.isSnapshot = true := Bool.eq_false_iff.mp hdelta
          exact (if_neg hsym).trans ((if_neg hsnap).trans (if_pos hinit))
    obtain ⟨e, he⟩ := hprocess
    rw [processed_of_error (by rw [he])]
    exact ⟨by dsimp only [gap]; rw [he], fun _ h => by cases h⟩

/-- **Any other** makes the book the projection, if it was or if the update is
a snapshot. -/
theorem applyL3_of_not_refused (hx : x.PrintsBack) (h : ¬ Refused x u sb d)
    (hdepth : sb.book.maxDepth = none) (htotalled : Totalled ⟨sb.l3Orders, sb.l3Levels, []⟩)
    (hprojected : d.isSnapshot = false → sb.Projected) :
    (sb.applyL3 x u d).1.book.Holds (fun q => (restingAt (sb.folded x d).orders (false, q)).sum)
      (fun q => (restingAt (sb.folded x d).orders (true, q)).sum) := by
  have hfolded := totalled_folded (x := x) htotalled d
  obtain ⟨htb, hmb⟩ := truthful_entries hx hfolded false (fun t => !t.1)
    (fun t => iff_of_eq (Bool.not_eq_true' t.1))
  obtain ⟨hta, hma⟩ := truthful_entries hx hfolded true (fun t => t.1) (fun _ => Iff.rfl)
  unfold Refused at h
  rw [not_or, not_or, not_and_or] at h
  obtain ⟨hfits, hsym, hseeded⟩ := h
  have hsym : sb.book.acceptsSymbol u d.symbol = true := Bool.not_eq_false _ ▸ hsym
  have hholds : (sb.book.process x u ((sb.folded x d).levelDelta x d)).1.Holds
      (fun q => (restingAt (sb.folded x d).orders (false, q)).sum)
      (fun q => (restingAt (sb.folded x d).orders (true, q)).sum) := by
    by_cases hsnap : d.isSnapshot = true
    · have hgone : ∀ k, (restingAt (sb.folded x d).orders k).sum ≠ 0 →
          (sb.folded x d).Touches k := by
        intro k hne
        by_contra huntouched
        have hperm := restingAt_folded huntouched
        rw [if_pos hsnap] at hperm
        rw [List.perm_nil.mp hperm] at hne
        exact hne rfl
      have hall := OrderbookDelta.process_snapshot (u := u)
        (d := (sb.folded x d).levelDelta x d) hdepth hsnap hsym
        (fun q => hfolded.sized.sum_nonneg) (fun q => hfolded.sized.sum_nonneg) htb hta
        (fun q hne => hmb q (hgone _ hne)) (fun q hne => hma q (hgone _ hne))
      exact hall.2.1
    · have hdelta : d.isSnapshot = false := Bool.eq_false_iff.mpr hsnap
      have hinit : sb.book.initialized = true :=
        Bool.not_eq_false _ ▸ hseeded.resolve_left (not_not.mpr hdelta)
      have hkept : ∀ k, (restingAt sb.l3Orders k).sum ≠ (restingAt (sb.folded x d).orders k).sum →
          (sb.folded x d).Touches k := by
        intro k hne
        by_contra huntouched
        have hperm := restingAt_folded huntouched
        rw [if_neg hsnap] at hperm
        exact hne hperm.sum_eq.symm
      have hall := OrderbookDelta.process_delta (u := u)
        (d := (sb.folded x d).levelDelta x d) hdepth hdelta hsym hinit
        ((holds_iff_projected htotalled.sized).mpr (hprojected hdelta)) htb hta
        (fun q hne => hmb q (hkept _ hne)) (fun q hne => hma q (hkept _ hne))
      exact hall.2.1
  rw [applyL3_eq, if_neg hfits, book_processed]
  exact hholds

end Book

/-! ## Runs -/

/-- A book fed with updates; what is written are the books left and the
results. -/
def applying (x : Crates) (u : Unicode) : Machine SourcedOrderbook NormalizedDelta Applied where
  step sb d := ((sb.apply x u d).1, [sb.apply x u d])

/-- Whether the book is behind the order map. -/
def behind (x : Crates) (u : Unicode) (lag : Bool) (sb : SourcedOrderbook) (d : NormalizedDelta) :
    Bool :=
  if Refused x u sb d then true else if d.isSnapshot then false else lag

/-- A book that is behind takes nothing but a snapshot. -/
def WaitsForSeed (x : Crates) (u : Unicode) (lag : Bool) (sb : SourcedOrderbook)
    (d : NormalizedDelta) : Prop :=
  lag = true → d.isSnapshot = false → Refused x u sb d

instance decidableWaitsForSeed (x : Crates) (u : Unicode) (lag : Bool) (sb : SourcedOrderbook)
    (d : NormalizedDelta) : Decidable (WaitsForSeed x u lag sb d) :=
  inferInstanceAs (Decidable (_ → _ → _))

/-- The totals of an order map are the sums of its orders, and there is one
exactly where there is an order. -/
def LevelsAreTotals (sb : SourcedOrderbook) : Prop :=
  ∀ k, (sb.l3Levels.lookup k).map Decimal.value = projection sb.l3Orders k

/-- **A per-order book without a depth**, with its totals. -/
structure PerOrder (source : SnapshotSource) (sb : SourcedOrderbook) : Prop where
  model : sb.model = .l3 source
  depth : sb.book.maxDepth = none
  totalled : Totalled ⟨sb.l3Orders, sb.l3Levels, []⟩

section Runs

variable {x : Crates} {u : Unicode} {sb : SourcedOrderbook} {d : NormalizedDelta}
  {source : SnapshotSource}

theorem perOrder_new (pair : TradingPair) (source : SnapshotSource) (recovery : RecoveryAction) :
    PerOrder source (new pair (.l3 source) recovery) :=
  ⟨rfl, rfl, totalled_empty []⟩

theorem maxDepth_applyL3 (sb : SourcedOrderbook) (d : NormalizedDelta) :
    (sb.applyL3 x u d).1.book.maxDepth = sb.book.maxDepth := by
  rw [applyL3_eq]
  split
  · rfl
  · rw [book_processed, OrderbookDelta.process_maxDepth]

theorem PerOrder.apply (h : PerOrder source sb) (d : NormalizedDelta) :
    PerOrder source (sb.apply x u d).1 := by
  obtain ⟨hbook, horders, hlevels, -⟩ := apply_l3 (x := x) (u := u) (d := d) h.model
  refine ⟨(sb.apply_model d).trans h.model, ?_, ?_⟩
  · rw [hbook, maxDepth_applyL3, h.depth]
  · rw [horders, hlevels]
    exact ⟨(totalled_folded h.totalled d).sized, (totalled_folded h.totalled d).totals⟩

/-- **One update.** -/
theorem PerOrder.projected_apply (hx : x.PrintsBack) (h : PerOrder source sb) {lag : Bool}
    (hprojected : lag = false → sb.book.initialized = true → sb.Projected)
    (hwaits : WaitsForSeed x u lag sb d) :
    (behind x u lag sb d = false → (sb.apply x u d).1.book.initialized = true →
        (sb.apply x u d).1.Projected) ∧
      ∀ output, (sb.apply x u d).2 = .ok output → (sb.apply x u d).1.Projected := by
  obtain ⟨hbook, horders, -, hok⟩ := apply_l3 (x := x) (u := u) (d := d) h.model
  unfold behind
  by_cases hrefused : Refused x u sb d
  · rw [if_pos hrefused]
    refine ⟨fun hlag => (by cases hlag), fun output houtput => ?_⟩
    exact absurd (hok output houtput) ((applyL3_of_refused hrefused).2 output)
  · -- the update reaches the book, which is not behind unless this is a snapshot
    have hbefore : d.isSnapshot = false → sb.Projected := by
      intro hdelta
      refine hprojected (Bool.eq_false_iff.mpr (fun hlag => hrefused (hwaits hlag hdelta))) ?_
      by_contra hinit
      exact hrefused (Or.inr (Or.inr ⟨hdelta, Bool.eq_false_iff.mpr hinit⟩))
    have hafter : (sb.apply x u d).1.Projected := by
      have hholds := applyL3_of_not_refused hx hrefused h.depth h.totalled hbefore
      rw [← hbook, ← horders] at hholds
      exact (holds_iff_projected (h.apply d).totalled.sized).mp hholds
    exact ⟨fun _ _ => hafter, fun _ _ => hafter⟩

/-- **The levels of a per-order book.** After every update the totals are the
sums of the orders, and after every update that applies the book is their
projection, along every run in which a book that is behind waits for a
seed. -/
theorem l3_projection (hx : x.PrintsBack) (pair : TradingPair) (source : SnapshotSource)
    (recovery : RecoveryAction) (ds : List NormalizedDelta) :
    (∀ e ∈ ((applying x u).run (new pair (.l3 source) recovery) ds).2, e.1.LevelsAreTotals) ∧
      ((applying x u).Along (behind x u) (WaitsForSeed x u) false (new pair (.l3 source) recovery)
          ds →
        ∀ e ∈ ((applying x u).run (new pair (.l3 source) recovery) ds).2,
          ∀ output, e.2 = .ok output → e.1.Projected) := by
  have hstart := perOrder_new pair source recovery
  have hanything : (applying x u).Along (fun (_ : Unit) _ _ => ()) (fun _ _ _ => True) ()
      (new pair (.l3 source) recovery) ds :=
    Machine.along_of_forall (fun _ _ _ _ => trivial) () _
  constructor
  · refine ((applying x u).forall_along_of_invariant (I := fun _ sb => PerOrder source sb)
      (fun _ sb d h _ => ⟨h.apply d, fun e he => ?_⟩) hstart hanything).2
    rw [List.mem_singleton.mp he]
    exact (h.apply d).totalled.totals
  · intro hwait
    refine ((applying x u).forall_along_of_invariant
      (I := fun lag sb => PerOrder source sb ∧
        (lag = false → sb.book.initialized = true → sb.Projected))
      (fun lag sb d h hwaits => ?_) ⟨hstart, fun _ hinit => Bool.noConfusion hinit⟩ hwait).2
    obtain ⟨hprojected, hok⟩ := h.1.projected_apply hx h.2 hwaits
    refine ⟨⟨h.1.apply d, hprojected⟩, fun e he => ?_⟩
    rw [List.mem_singleton.mp he]
    exact hok

end Runs

/-! ## A refused update between two others -/

/-- A bid. -/
def bidSeed : NormalizedDelta := orderUpdate 1 true [⟨"a", false, "10", "1", false⟩]

/-- A better bid, of another pair. -/
def bidElsewhere : NormalizedDelta :=
  { orderUpdate 2 false [⟨"b", false, "11", "1", false⟩] with symbol := "ETH/USDT" }

/-- A lower bid. -/
def lowerBid : NormalizedDelta := orderUpdate 3 false [⟨"c", false, "9", "1", false⟩]

/-- The book is seeded again after the refused update. -/
def bidReseed : NormalizedDelta :=
  orderUpdate 3 true [⟨"a", false, "10", "1", false⟩, ⟨"b", false, "11.0", "2", false⟩]

/-- **The book misses a level of the order map.** The update of another pair is
refused, the order is in the map all the same, and the next delta applies. -/
theorem not_projected_bidElsewhere :
    ((applying .signed ⟨id, id⟩).run emptyOrders [bidSeed, bidElsewhere, lowerBid]).2.head?.map
        Prod.snd = some (.ok .snapshot) ∧
      ∃ e ∈ ((applying .signed ⟨id, id⟩).run emptyOrders [bidSeed, bidElsewhere, lowerBid]).2,
        e.2 = .ok .applied ∧ ¬ e.1.Projected := by
  refine ⟨by decide, _, List.mem_of_getElem? (i := 2) rfl, by decide, fun h => ?_⟩
  have hlevel := (h 11).1
  revert hlevel
  decide

/-- With a seed after the refused update, the other three apply and nothing is missed. -/
theorem l3_projection_bidReseed :
    ((applying .signed ⟨id, id⟩).run emptyOrders
        [bidSeed, bidElsewhere, bidReseed, lowerBid]).2.map (fun e => e.2.isOk)
          = [true, false, true, true] ∧
      ∀ e ∈ ((applying .signed ⟨id, id⟩).run emptyOrders
        [bidSeed, bidElsewhere, bidReseed, lowerBid]).2,
        ∀ output, e.2 = .ok output → e.1.Projected :=
  ⟨by decide, (l3_projection Crates.signed_printsBack ⟨"BTC", "USDT"⟩ .restSnapshot
      .restSnapshot [bidSeed, bidElsewhere, bidReseed, lowerBid]).2
    ⟨by decide, by decide, by decide, by decide, trivial⟩⟩

end SourcedOrderbook
