import Aetelier.BinarySearch
import Aetelier.OrderIds
import Aetelier.Trace
import Mathlib.Data.List.Induction

/-!
# Orders at the levels of a book

A level of a book may keep its orders one by one, in the order they came. An
order is addressed by the price of its level and by its time, and looked up by
binary search for the time; a price is looked up among the bids first.

So the orders of a level are meant to be a map from times to orders. They are
one as long as the clock advances between two insertions, and as long as a level
that is put in brings its orders in the order of their times. Under this the
book does what a map does, call for call (`LimitBook.refines_run`): an order
that is inserted is found until it is deleted, a modification changes its
amount, and a call that fails changes nothing. No call on an order touches the
volume of its level, and none reaches an ask at the price of a bid.

What else a book carries is not read here, and a floating-point number is of any
type.
-/

namespace Orders

variable {F : Type}

/-- A price level with its orders. -/
structure BookLevel (F : Type) where
  levelId : ℕ
  side : OrderSide
  price : Decimal
  volume : Decimal
  orders : List (Order F)

/-- The levels of a side, by price. -/
abbrev LevelMap (F : Type) := OrdMap Decimal (BookLevel F) Decimal.value

/-- The two sides of a book. -/
structure LimitBook (F : Type) where
  bids : LevelMap F
  asks : LevelMap F

/-- How a call fails. -/
inductive BookOpError where
  | levelNotFound (price : Decimal)
  | orderNotFound (orderTsUs : BitVec 64)
  | builderError (e : BuildError)
  | invalidInput (text : String)
deriving DecidableEq, Repr

/-- The time of an order against a time. -/
def cmpTs (orderTsUs : BitVec 64) (order : Order F) : Ordering :=
  compare order.orderTsUs.toNat orderTsUs.toNat

namespace BookLevel

/-- The position of the order of the time. -/
def indexOf (level : BookLevel F) (orderTsUs : BitVec 64) : Option ℕ :=
  level.orders.binarySearchBy (cmpTs orderTsUs)

end BookLevel

namespace LimitBook

def levels (b : LimitBook F) : OrderSide → LevelMap F
  | .bids => b.bids
  | .asks => b.asks

/-- The book with other levels on the side. -/
def setLevels (b : LimitBook F) (levels : LevelMap F) : OrderSide → LimitBook F
  | .bids => { b with bids := levels }
  | .asks => { b with asks := levels }

/-- The level at a price is replaced where it is. -/
def putLevel (b : LimitBook F) (side : OrderSide) (price : Decimal) (level : BookLevel F) :
    LimitBook F :=
  b.setLevels ((b.levels side).insert price level) side

/-- The level at the price, among the bids first. -/
def findLevel (b : LimitBook F) (price : Decimal) :
    Except BookOpError (OrderSide × BookLevel F) :=
  match b.bids.get? price.value with
  | some level => .ok (.bids, level)
  | none =>
    match b.asks.get? price.value with
    | some level => .ok (.asks, level)
    | none => .error (.levelNotFound price)

def deleteLevel (b : LimitBook F) (price : Decimal) : Except BookOpError (LimitBook F) :=
  if (b.bids.get? price.value).isSome then .ok { b with bids := b.bids.erase price }
  else if (b.asks.get? price.value).isSome then .ok { b with asks := b.asks.erase price }
  else .error (.levelNotFound price)

/-- Put a level in, or in the place of one, whose id is kept. -/
def insertLevel (b : LimitBook F) (level : BookLevel F) : LimitBook F :=
  let levelId := (((b.levels level.side).get? level.price.value).map BookLevel.levelId).getD
    level.levelId
  b.putLevel level.side level.price { level with levelId := levelId }

/-- The level of an order and its position there, by price and time. -/
def findOrder (b : LimitBook F) (price : Decimal) (orderTsUs : BitVec 64) :
    Except BookOpError (OrderSide × BookLevel F × ℕ) :=
  match b.findLevel price with
  | .error e => .error e
  | .ok (side, level) =>
    if level.orders.isEmpty then .error (.orderNotFound orderTsUs)
    else
      match level.indexOf orderTsUs with
      | none => .error (.orderNotFound orderTsUs)
      | some i => .ok (side, level, i)

/-- The order of the price and time; the position that was found holds one. -/
def retrieveOrder (b : LimitBook F) (price : Decimal) (orderTsUs : BitVec 64) :
    Except BookOpError (Order F) :=
  match b.findOrder price orderTsUs with
  | .error e => .error e
  | .ok (_, level, i) =>
    match level.orders[i]? with
    | some order => .ok order
    | none => .error (.orderNotFound orderTsUs)

def deleteOrder (b : LimitBook F) (price : Decimal) (orderTsUs : BitVec 64) :
    Except BookOpError (LimitBook F) :=
  match b.findOrder price orderTsUs with
  | .error e => .error e
  | .ok (side, level, i) =>
    .ok (b.putLevel side price { level with orders := level.orders.eraseIdx i })

/-- Put an order at the end of the level of the price; `now` is what the wall clock shows. -/
def insertOrder (toF64 : Decimal → F) (b : LimitBook F) (price : Decimal) (amount : F)
    (now : BitVec 64) : Except BookOpError (LimitBook F) :=
  match b.findLevel price with
  | .error e => .error e
  | .ok (side, level) =>
    let builder : OrderBuilder F :=
      { orderTsUs := some now, orderType := some .limit, side := some side
        price := some (toF64 price), amount := some amount }
    match builder.build now with
    | .error e => .error (.builderError e)
    | .ok order => .ok (b.putLevel side price { level with orders := level.orders ++ [order] })

/-- Give an order another amount. -/
def modifyOrder (b : LimitBook F) (orderTsUs : BitVec 64) (price : Decimal) (amount : F) :
    Except BookOpError (LimitBook F × Order F) :=
  match b.findOrder price orderTsUs with
  | .error e => .error e
  | .ok (side, level, i) =>
    match level.orders[i]? with
    | none => .error (.orderNotFound orderTsUs)
    | some order =>
      match order.price with
      | none => .error (.invalidInput "Cannot modify order: price is None")
      | some orderPrice =>
        let builder : OrderBuilder F :=
          { orderTsUs := some order.orderTsUs, orderType := some order.orderType
            side := some order.side, price := some orderPrice, amount := some amount }
        match builder.build order.orderTsUs with
        | .error e => .error (.builderError e)
        | .ok newOrder =>
          .ok (b.putLevel side price { level with orders := level.orders.set i newOrder }, newOrder)

end LimitBook

/-- A call of a book. -/
inductive BookCall (F : Type) where
  | insertLevel (level : BookLevel F)
  | deleteLevel (price : Decimal)
  | retrieveOrder (price : Decimal) (orderTsUs : BitVec 64)
  | insertOrder (price : Decimal) (amount : F) (now : BitVec 64)
  | deleteOrder (price : Decimal) (orderTsUs : BitVec 64)
  | modifyOrder (orderTsUs : BitVec 64) (price : Decimal) (amount : F)

/-- What a call answers. -/
inductive BookAnswer (F : Type) where
  | done
  | order (o : Order F)
  | failed (e : BookOpError)

namespace LimitBook

/-- **One call of a book**, which stays as it is where the call fails. -/
def step (toF64 : Decimal → F) (b : LimitBook F) : BookCall F → LimitBook F × List (BookAnswer F)
  | .insertLevel level => (b.insertLevel level, [.done])
  | .deleteLevel price =>
    match b.deleteLevel price with
    | .error e => (b, [.failed e])
    | .ok b' => (b', [.done])
  | .retrieveOrder price orderTsUs =>
    match b.retrieveOrder price orderTsUs with
    | .error e => (b, [.failed e])
    | .ok order => (b, [.order order])
  | .insertOrder price amount now =>
    match b.insertOrder toF64 price amount now with
    | .error e => (b, [.failed e])
    | .ok b' => (b', [.done])
  | .deleteOrder price orderTsUs =>
    match b.deleteOrder price orderTsUs with
    | .error e => (b, [.failed e])
    | .ok b' => (b', [.done])
  | .modifyOrder orderTsUs price amount =>
    match b.modifyOrder orderTsUs price amount with
    | .error e => (b, [.failed e])
    | .ok (b', order) => (b', [.order order])

/-- The book as a machine. -/
def machine (toF64 : Decimal → F) : Machine (LimitBook F) (BookCall F) (BookAnswer F) where
  step := step toF64

end LimitBook

/-! ## What a book is for -/

/-- **A level as a map** from times to orders. -/
@[ext] structure Resting (F : Type) where
  levelId : ℕ
  volume : Decimal
  order : BitVec 64 → Option (Order F)

/-- **A book as a map** from sides and prices to levels. -/
abbrev BookView (F : Type) := OrderSide → ℚ → Option (Resting F)

namespace BookView

/-- The view with another level at the side and price. -/
def set (v : BookView F) (side : OrderSide) (price : ℚ) (r : Option (Resting F)) : BookView F :=
  fun s p => if s = side ∧ p = price then r else v s p

/-- The side a price is found on. -/
def sideOf (v : BookView F) (price : ℚ) : OrderSide :=
  if (v .bids price).isSome then .bids else .asks

/-- The level a price is found at. -/
def at? (v : BookView F) (price : ℚ) : Option (Resting F) := v (v.sideOf price) price

/-- The order at a time is another, or none. -/
def setOrder (v : BookView F) (price : ℚ) (r : Resting F) (orderTsUs : BitVec 64)
    (o : Option (Order F)) : BookView F :=
  v.set (v.sideOf price) price
    (some { r with order := fun ts => if ts = orderTsUs then o else r.order ts })

/-- The limit order of a time, as a book makes it. -/
def limitOrder (side : OrderSide) (price amount : F) (orderTsUs : BitVec 64) : Order F where
  orderId := Order.encodeOrderId side .limit orderTsUs
  orderTsUs := orderTsUs
  orderType := .limit
  side := side
  price := some price
  amount := some amount

/-- **One call of a map of levels.** -/
def step (toF64 : Decimal → F) (v : BookView F) : BookCall F → BookView F × List (BookAnswer F)
  | .insertLevel level =>
    (v.set level.side level.price.value
      (some { levelId := ((v level.side level.price.value).map Resting.levelId).getD level.levelId
              volume := level.volume
              order := fun ts => level.orders.find? (·.orderTsUs == ts) }), [.done])
  | .deleteLevel price =>
    match v.at? price.value with
    | none => (v, [.failed (.levelNotFound price)])
    | some _ => (v.set (v.sideOf price.value) price.value none, [.done])
  | .retrieveOrder price orderTsUs =>
    match v.at? price.value with
    | none => (v, [.failed (.levelNotFound price)])
    | some r =>
      match r.order orderTsUs with
      | none => (v, [.failed (.orderNotFound orderTsUs)])
      | some o => (v, [.order o])
  | .insertOrder price amount now =>
    match v.at? price.value with
    | none => (v, [.failed (.levelNotFound price)])
    | some r => (v.setOrder price.value r now
        (some (limitOrder (v.sideOf price.value) (toF64 price) amount now)), [.done])
  | .deleteOrder price orderTsUs =>
    match v.at? price.value with
    | none => (v, [.failed (.levelNotFound price)])
    | some r =>
      match r.order orderTsUs with
      | none => (v, [.failed (.orderNotFound orderTsUs)])
      | some _ => (v.setOrder price.value r orderTsUs none, [.done])
  | .modifyOrder orderTsUs price amount =>
    match v.at? price.value with
    | none => (v, [.failed (.levelNotFound price)])
    | some r =>
      match r.order orderTsUs with
      | none => (v, [.failed (.orderNotFound orderTsUs)])
      | some o =>
        if o.price.isNone then
          (v, [.failed (.invalidInput "Cannot modify order: price is None")])
        else
          let modified : Order F :=
            { o with
              orderId := Order.encodeOrderId o.side o.orderType o.orderTsUs, amount := some amount }
          (v.setOrder price.value r orderTsUs (some modified), [.order modified])

/-- The view as a machine. -/
def machine (toF64 : Decimal → F) : Machine (BookView F) (BookCall F) (BookAnswer F) where
  step := step toF64

end BookView

/-- The map a level stands for. -/
def BookLevel.resting (level : BookLevel F) : Resting F where
  levelId := level.levelId
  volume := level.volume
  order ts := level.orders.find? (·.orderTsUs == ts)

/-- The map a book stands for. -/
def LimitBook.view (b : LimitBook F) : BookView F := fun side price =>
  ((b.levels side).get? price).map BookLevel.resting

/-! ## A level whose orders are in order -/

/-- **The orders of a level are in the order of their times**, all before the clock. -/
structure BookLevel.Ordered (level : BookLevel F) (clock : ℕ) : Prop where
  sorted : level.orders.Pairwise fun a b => a.orderTsUs.toNat < b.orderTsUs.toNat
  before : ∀ o ∈ level.orders, o.orderTsUs.toNat < clock

namespace BookLevel.Ordered

variable {level : BookLevel F} {clock : ℕ}

theorem cmpTs_eq_eq_iff {ts : BitVec 64} {o : Order F} : cmpTs ts o = .eq ↔ o.orderTsUs = ts := by
  unfold cmpTs
  rw [compare_eq_iff_eq, BitVec.toNat_inj]

/-- The comparison with a time ascends along the orders. -/
theorem ascending (h : level.Ordered clock) (ts : BitVec 64) :
    BinarySearch.Ascending (level.orders.comparisonAt (cmpTs ts)) level.orders.length := by
  have hlt := fun {i j : ℕ} (hij : i < j) (hj : j < level.orders.length) =>
    List.pairwise_iff_getElem.mp h.sorted i j (hij.trans hj) hj hij
  have hat : ∀ i (hi : i < level.orders.length),
      level.orders.comparisonAt (cmpTs ts) i = cmpTs ts level.orders[i] := by
    intro i hi
    unfold List.comparisonAt
    rw [List.getElem?_eq_getElem hi]
    rfl
  constructor
  · intro i j hij hj hgt
    rw [hat i (hij.trans hj)] at hgt
    rw [hat j hj]
    exact compare_gt_iff_gt.mpr ((compare_gt_iff_gt.mp hgt).trans (hlt hij hj))
  · intro i j hij hj hless
    rw [hat j hj] at hless
    rw [hat i (hij.trans hj)]
    exact compare_lt_iff_lt.mpr ((hlt hij hj).trans (compare_lt_iff_lt.mp hless))

/-- Two orders of a time are one. -/
theorem eq_of_mem (h : level.Ordered clock) {a b : Order F} (ha : a ∈ level.orders)
    (hb : b ∈ level.orders) (hts : a.orderTsUs = b.orderTsUs) : a = b := by
  obtain ⟨i, hi⟩ := List.mem_iff_getElem?.mp ha
  obtain ⟨j, hj⟩ := List.mem_iff_getElem?.mp hb
  obtain ⟨hilt, rfl⟩ := List.getElem?_eq_some_iff.mp hi
  obtain ⟨hjlt, rfl⟩ := List.getElem?_eq_some_iff.mp hj
  rcases Nat.lt_trichotomy i j with hij | rfl | hij
  · have hlt := List.pairwise_iff_getElem.mp h.sorted i j hilt hjlt hij
    rw [hts] at hlt
    exact absurd hlt (Nat.lt_irrefl _)
  · rfl
  · have hlt := List.pairwise_iff_getElem.mp h.sorted j i hjlt hilt hij
    rw [hts] at hlt
    exact absurd hlt (Nat.lt_irrefl _)

/-- **The map of a level has its orders, at their times.** -/
theorem order_eq_some_iff (h : level.Ordered clock) {ts : BitVec 64} {o : Order F} :
    level.resting.order ts = some o ↔ o ∈ level.orders ∧ o.orderTsUs = ts := by
  unfold resting
  dsimp only
  constructor
  · intro hfind
    have hts := List.find?_some hfind
    exact ⟨List.mem_of_find?_eq_some hfind, beq_iff_eq.mp hts⟩
  · rintro ⟨hmem, hts⟩
    cases hfind : level.orders.find? (·.orderTsUs == ts) with
    | none =>
      have hne := List.find?_eq_none.mp hfind o hmem
      exact absurd (beq_iff_eq.mpr hts) hne
    | some o' =>
      have hfound := List.find?_some hfind
      have hts' : o'.orderTsUs = ts := beq_iff_eq.mp hfound
      exact congrArg some (h.eq_of_mem (List.mem_of_find?_eq_some hfind) hmem (hts'.trans hts.symm))

/-- **What binary search finds is what the map has.** -/
theorem indexOf_cases (h : level.Ordered clock) (ts : BitVec 64) :
    (level.indexOf ts = none ∧ level.resting.order ts = none)
      ∨ ∃ i o, level.indexOf ts = some i ∧ level.orders[i]? = some o ∧ o.orderTsUs = ts
        ∧ level.resting.order ts = some o := by
  cases hi : level.indexOf ts with
  | none =>
    refine .inl ⟨rfl, ?_⟩
    cases ho : level.resting.order ts with
    | none => rfl
    | some o =>
      obtain ⟨hmem, hts⟩ := h.order_eq_some_iff.mp ho
      have hsome := (List.isSome_binarySearchBy_iff (h.ascending ts)).mpr
        ⟨o, hmem, cmpTs_eq_eq_iff.mpr hts⟩
      unfold indexOf at hi
      rw [hi] at hsome
      cases hsome
  | some i =>
    obtain ⟨o, ho, hcmp⟩ := List.exists_of_binarySearchBy hi
    have hts := cmpTs_eq_eq_iff.mp hcmp
    exact .inr ⟨i, o, rfl, ho, hts,
      h.order_eq_some_iff.mpr ⟨List.mem_of_getElem? ho, hts⟩⟩

/-- The position of an order is the only one of its time. -/
theorem eq_of_getElem? (h : level.Ordered clock) {i j : ℕ} {a b : Order F}
    (ha : level.orders[i]? = some a) (hb : level.orders[j]? = some b)
    (hts : a.orderTsUs = b.orderTsUs) : i = j := by
  obtain ⟨hi, rfl⟩ := List.getElem?_eq_some_iff.mp ha
  obtain ⟨hj, rfl⟩ := List.getElem?_eq_some_iff.mp hb
  rcases Nat.lt_trichotomy i j with hij | hij | hij
  · have hlt := List.pairwise_iff_getElem.mp h.sorted i j hi hj hij
    rw [hts] at hlt
    exact absurd hlt (Nat.lt_irrefl _)
  · exact hij
  · have hlt := List.pairwise_iff_getElem.mp h.sorted j i hj hi hij
    rw [hts] at hlt
    exact absurd hlt (Nat.lt_irrefl _)

/-- An order that is put at the end is of the clock, and is found at its time. -/
theorem append (h : level.Ordered clock) {o : Order F} (ho : clock ≤ o.orderTsUs.toNat) :
    Ordered { level with orders := level.orders ++ [o] } (o.orderTsUs.toNat + 1)
      ∧ resting { level with orders := level.orders ++ [o] }
        = { level.resting with
            order := fun ts => if ts = o.orderTsUs then some o else level.resting.order ts } := by
  have hordered : Ordered { level with orders := level.orders ++ [o] }
      (o.orderTsUs.toNat + 1) := by
    constructor
    · refine List.pairwise_append.mpr ⟨h.sorted, List.pairwise_singleton _ _, ?_⟩
      intro a ha b hb
      obtain rfl := List.mem_singleton.mp hb
      exact (h.before a ha).trans_le ho
    · intro a ha
      rcases List.mem_append.mp ha with ha | ha
      · exact Nat.lt_succ_of_lt ((h.before a ha).trans_le ho)
      · obtain rfl := List.mem_singleton.mp ha
        exact Nat.lt_succ_self _
  refine ⟨hordered, Resting.ext rfl rfl (funext fun ts => Option.ext fun a => ?_)⟩
  rw [hordered.order_eq_some_iff]
  show a ∈ level.orders ++ [o] ∧ _
    ↔ (if ts = o.orderTsUs then some o else level.resting.order ts) = some a
  rw [List.mem_append, List.mem_singleton]
  split
  · next hts =>
    constructor
    · rintro ⟨ha | rfl, hat⟩
      · have hlt := (h.before a ha).trans_le ho
        rw [hat, hts] at hlt
        exact absurd hlt (Nat.lt_irrefl _)
      · rfl
    · intro hsome
      obtain rfl := Option.some.inj hsome
      exact ⟨.inr rfl, hts.symm⟩
  · next hts =>
    rw [h.order_eq_some_iff]
    constructor
    · rintro ⟨ha | rfl, hat⟩
      · exact ⟨ha, hat⟩
      · exact absurd hat.symm hts
    · rintro ⟨ha, hat⟩
      exact ⟨.inl ha, hat⟩

/-- An order that is taken out is no longer found, and the others are. -/
theorem eraseIdx (h : level.Ordered clock) {i : ℕ} {o : Order F} (hi : level.orders[i]? = some o) :
    Ordered { level with orders := level.orders.eraseIdx i } clock
      ∧ resting { level with orders := level.orders.eraseIdx i }
        = { level.resting with
            order := fun ts => if ts = o.orderTsUs then none else level.resting.order ts } := by
  have hsub := List.eraseIdx_sublist level.orders i
  have hordered : Ordered { level with orders := level.orders.eraseIdx i } clock :=
    ⟨h.sorted.sublist hsub, fun a ha => h.before a (hsub.subset ha)⟩
  refine ⟨hordered, Resting.ext rfl rfl (funext fun ts => Option.ext fun a => ?_)⟩
  rw [hordered.order_eq_some_iff]
  show a ∈ level.orders.eraseIdx i ∧ _
    ↔ (if ts = o.orderTsUs then none else level.resting.order ts) = some a
  rw [List.mem_eraseIdx_iff_getElem?]
  constructor
  · rintro ⟨⟨j, hji, hj⟩, hat⟩
    have hne : ts ≠ o.orderTsUs := by
      intro hts
      exact hji (h.eq_of_getElem? hj hi (hat.trans hts))
    rw [if_neg hne]
    exact h.order_eq_some_iff.mpr ⟨List.mem_of_getElem? hj, hat⟩
  · intro hsome
    split at hsome
    · cases hsome
    · next hne =>
      obtain ⟨hmem, hat⟩ := h.order_eq_some_iff.mp hsome
      obtain ⟨j, hj⟩ := List.mem_iff_getElem?.mp hmem
      refine ⟨⟨j, ?_, hj⟩, hat⟩
      rintro rfl
      rw [hi] at hj
      obtain rfl := Option.some.inj hj
      exact hne hat.symm

/-- An order in the place of another of its time is found instead. -/
theorem set (h : level.Ordered clock) {i : ℕ} {o o' : Order F} (hi : level.orders[i]? = some o)
    (hts' : o'.orderTsUs = o.orderTsUs) :
    Ordered { level with orders := level.orders.set i o' } clock
      ∧ resting { level with orders := level.orders.set i o' }
        = { level.resting with
            order := fun ts => if ts = o.orderTsUs then some o' else level.resting.order ts } := by
  have hlt : i < level.orders.length := (List.getElem?_eq_some_iff.mp hi).1
  have htimes : (level.orders.set i o').map (·.orderTsUs.toNat)
      = level.orders.map (·.orderTsUs.toNat) := by
    obtain ⟨_, rfl⟩ := List.getElem?_eq_some_iff.mp hi
    have hat := List.getElem_map (fun o : Order F => o.orderTsUs.toNat)
      (h := (by rwa [List.length_map] : i < (level.orders.map _).length))
    rw [List.map_set, hts', ← hat]
    exact List.set_getElem_self _
  have hordered : Ordered { level with orders := level.orders.set i o' } clock := by
    constructor
    · have hsorted := List.pairwise_map.mpr h.sorted
      rw [← htimes] at hsorted
      exact List.pairwise_map.mp hsorted
    · intro a ha
      rcases List.mem_or_eq_of_mem_set ha with ha | rfl
      · exact h.before a ha
      · rw [hts']
        exact h.before o (List.mem_of_getElem? hi)
  refine ⟨hordered, Resting.ext rfl rfl (funext fun ts => Option.ext fun a => ?_)⟩
  rw [hordered.order_eq_some_iff]
  show a ∈ level.orders.set i o' ∧ _
    ↔ (if ts = o.orderTsUs then some o' else level.resting.order ts) = some a
  constructor
  · rintro ⟨hmem, hat⟩
    obtain ⟨j, hj⟩ := List.mem_iff_getElem?.mp hmem
    by_cases hij : i = j
    · subst hij
      rw [List.getElem?_set_self hlt] at hj
      obtain rfl := Option.some.inj hj
      rw [if_pos (hat.symm.trans hts')]
    · rw [List.getElem?_set_ne hij] at hj
      rw [if_neg (fun hts => hij (h.eq_of_getElem? hi hj (hts.symm.trans hat.symm)))]
      exact h.order_eq_some_iff.mpr ⟨List.mem_of_getElem? hj, hat⟩
  · intro hsome
    split at hsome
    · next hts =>
      obtain rfl := Option.some.inj hsome
      exact ⟨List.mem_of_getElem? (List.getElem?_set_self hlt), hts'.trans hts.symm⟩
    · next hne =>
      obtain ⟨hmem, hat⟩ := h.order_eq_some_iff.mp hsome
      obtain ⟨j, hj⟩ := List.mem_iff_getElem?.mp hmem
      have hij : i ≠ j := by
        rintro rfl
        rw [hi] at hj
        obtain rfl := Option.some.inj hj
        exact hne hat.symm
      exact ⟨List.mem_of_getElem? ((List.getElem?_set_ne hij).trans hj), hat⟩

end BookLevel.Ordered

/-! ## The book does what the map does -/

namespace LimitBook

variable {b : LimitBook F} {clock : ℕ}

/-- **The orders of a book are in order**, all before the clock. -/
def Ordered (b : LimitBook F) (clock : ℕ) : Prop :=
  ∀ side price level, (b.levels side).get? price = some level → level.Ordered clock

theorem levels_setLevels (b : LimitBook F) (m : LevelMap F) (side s : OrderSide) :
    (b.setLevels m side).levels s = if s = side then m else b.levels s := by
  cases side <;> cases s <;> rfl

theorem get?_putLevel (b : LimitBook F) (side s : OrderSide) (price : Decimal) (p : ℚ)
    (level : BookLevel F) :
    ((b.putLevel side price level).levels s).get? p
      = if s = side ∧ p = price.value then some level else (b.levels s).get? p := by
  unfold putLevel
  rw [levels_setLevels]
  by_cases hs : s = side
  · subst hs
    rw [if_pos rfl, OrdMap.get?_insert]
    simp only [true_and]
  · rw [if_neg hs, if_neg (fun h => hs h.1)]

theorem view_putLevel (b : LimitBook F) (side : OrderSide) (price : Decimal)
    (level : BookLevel F) :
    (b.putLevel side price level).view = b.view.set side price.value (some level.resting) := by
  funext s p
  show (((b.putLevel side price level).levels s).get? p).map _ = if _ then _ else _
  rw [get?_putLevel]
  split <;> rfl

/-- A level that is put in is in order, and the others stay so. -/
theorem Ordered.putLevel (h : b.Ordered clock) {level : BookLevel F} {clock' : ℕ}
    (hclock : clock ≤ clock') (hlevel : level.Ordered clock') (side : OrderSide)
    (price : Decimal) : (b.putLevel side price level).Ordered clock' := by
  intro s p l hl
  rw [get?_putLevel] at hl
  split at hl
  · obtain rfl := Option.some.inj hl
    exact hlevel
  · have hold := h s p l hl
    exact ⟨hold.sorted, fun o ho => (hold.before o ho).trans_le hclock⟩

/-- **A price is found where the map has it.** -/
theorem findLevel_cases (b : LimitBook F) (price : Decimal) :
    (b.findLevel price = .error (.levelNotFound price) ∧ b.view.at? price.value = none)
      ∨ ∃ level, b.findLevel price = .ok (b.view.sideOf price.value, level)
        ∧ (b.levels (b.view.sideOf price.value)).get? price.value = some level
        ∧ b.view.at? price.value = some level.resting := by
  have hbids : b.view .bids price.value = (b.bids.get? price.value).map BookLevel.resting := rfl
  have hasks : b.view .asks price.value = (b.asks.get? price.value).map BookLevel.resting := rfl
  unfold findLevel BookView.at? BookView.sideOf
  rw [hbids]
  cases hbid : b.bids.get? price.value with
  | some level =>
    refine .inr ⟨level, rfl, hbid, ?_⟩
    rw [if_pos (by rfl), hbids, hbid]
    rfl
  | none =>
    rw [if_neg (by rw [Option.map_none]; exact Bool.false_ne_true), hasks]
    cases hask : b.asks.get? price.value with
    | some level => exact .inr ⟨level, rfl, hask, rfl⟩
    | none => exact .inl ⟨rfl, rfl⟩

/-- **An order is found where the map has it.** -/
theorem findOrder_cases (h : b.Ordered clock) (price : Decimal) (ts : BitVec 64) :
    (b.findOrder price ts = .error (.levelNotFound price) ∧ b.view.at? price.value = none)
      ∨ ∃ level : BookLevel F, level.Ordered clock ∧ b.view.at? price.value = some level.resting
        ∧ ((b.findOrder price ts = .error (.orderNotFound ts) ∧ level.resting.order ts = none)
          ∨ ∃ i o, b.findOrder price ts = .ok (b.view.sideOf price.value, level, i)
            ∧ level.orders[i]? = some o ∧ o.orderTsUs = ts ∧ level.resting.order ts = some o) := by
  rcases findLevel_cases b price with ⟨hfind, hat⟩ | ⟨level, hfind, hget, hat⟩
  · refine .inl ⟨?_, hat⟩
    unfold findOrder
    rw [hfind]
  · have hordered := h _ _ level hget
    refine .inr ⟨level, hordered, hat, ?_⟩
    unfold findOrder
    rw [hfind]
    dsimp only
    split
    · next hempty =>
      refine .inl ⟨rfl, ?_⟩
      unfold BookLevel.resting
      rw [List.isEmpty_iff.mp hempty]
      rfl
    · rcases hordered.indexOf_cases ts with ⟨hi, ho⟩ | ⟨i, o, hi, ho, hts, hmap⟩
      · rw [hi]
        exact .inl ⟨rfl, ho⟩
      · rw [hi]
        exact .inr ⟨i, o, rfl, ho, hts, hmap⟩

/-- The time after which the next order has to come. -/
def clockAfter (clock : ℕ) : BookCall F → ℕ
  | .insertLevel level => (level.orders.map (·.orderTsUs.toNat + 1)).foldr max clock
  | .insertOrder _ _ now => now.toNat + 1
  | _ => clock

/-- **The clock advances**, and a level brings its orders in the order of their times. -/
def Admitted (clock : ℕ) : BookCall F → Prop
  | .insertLevel level =>
    level.orders.Pairwise fun a b => a.orderTsUs.toNat < b.orderTsUs.toNat
  | .insertOrder _ _ now => clock ≤ now.toNat
  | _ => True

theorem le_foldr_max (clock : ℕ) (ns : List ℕ) : clock ≤ ns.foldr max clock := by
  induction ns with
  | nil => exact Nat.le_refl _
  | cons n ns ih => exact ih.trans (Nat.le_max_right _ _)

theorem le_foldr_max_of_mem (clock : ℕ) {ns : List ℕ} {n : ℕ} (h : n ∈ ns) :
    n ≤ ns.foldr max clock := by
  induction ns with
  | nil => cases h
  | cons m ns ih =>
    rcases List.mem_cons.mp h with rfl | h
    · exact Nat.le_max_left _ _
    · exact (ih h).trans (Nat.le_max_right _ _)

variable (toF64 : Decimal → F)

/-- A level that is put in. -/
theorem refines_insertLevel (h : b.Ordered clock) (level : BookLevel F)
    (hadmitted : Admitted clock (.insertLevel level)) :
    ((b.insertLevel level).view, [BookAnswer.done])
        = b.view.step toF64 (.insertLevel level)
      ∧ (b.insertLevel level).Ordered (clockAfter clock (.insertLevel level)) := by
  unfold insertLevel
  constructor
  · rw [view_putLevel]
    unfold BookView.step view
    dsimp only
    rw [Option.map_map]
    rfl
  · have hlevel : ∀ levelId, BookLevel.Ordered { level with levelId := levelId }
        (clockAfter clock (.insertLevel level)) := fun _ =>
      ⟨hadmitted, fun o ho => le_foldr_max_of_mem clock (List.mem_map_of_mem ho)⟩
    exact h.putLevel (le_foldr_max _ _) (hlevel _) _ _

/-- A level that is taken out. -/
theorem refines_deleteLevel (h : b.Ordered clock) (price : Decimal) :
    ((b.step toF64 (.deleteLevel price)).1.view, (b.step toF64 (.deleteLevel price)).2)
        = b.view.step toF64 (.deleteLevel price)
      ∧ (b.step toF64 (.deleteLevel price)).1.Ordered clock := by
  have herase : ∀ side, (b.setLevels ((b.levels side).erase price) side).view
        = b.view.set side price.value none
      ∧ (b.setLevels ((b.levels side).erase price) side).Ordered clock := by
    intro side
    have hget : ∀ s p, ((b.setLevels ((b.levels side).erase price) side).levels s).get? p
        = if s = side ∧ p = price.value then none else (b.levels s).get? p := by
      intro s p
      rw [levels_setLevels]
      by_cases hs : s = side
      · subst hs
        rw [if_pos rfl, OrdMap.get?_erase]
        simp only [true_and]
      · rw [if_neg hs, if_neg (fun h => hs h.1)]
    constructor
    · funext s p
      show (((b.setLevels _ side).levels s).get? p).map _ = if _ then _ else _
      rw [hget]
      split <;> rfl
    · intro s p l hl
      rw [hget] at hl
      split at hl
      · cases hl
      · exact h s p l hl
  have hbids : b.view .bids price.value = (b.bids.get? price.value).map BookLevel.resting := rfl
  have hasks : b.view .asks price.value = (b.asks.get? price.value).map BookLevel.resting := rfl
  unfold LimitBook.step deleteLevel BookView.step BookView.at? BookView.sideOf
  dsimp only
  rw [hbids]
  cases hbid : b.bids.get? price.value with
  | some level =>
    simp only [Option.isSome_some, Option.map_some, if_true, hbids, hbid]
    exact ⟨congrArg (·, _) (herase .bids).1, (herase .bids).2⟩
  | none =>
    simp only [Option.isSome_none, Option.map_none, Bool.false_eq_true, if_false, hasks]
    cases hask : b.asks.get? price.value with
    | some level => exact ⟨congrArg (·, _) (herase .asks).1, (herase .asks).2⟩
    | none => exact ⟨rfl, h⟩

/-- An order that is looked up. -/
theorem refines_retrieveOrder (h : b.Ordered clock) (price : Decimal) (ts : BitVec 64) :
    ((b.step toF64 (.retrieveOrder price ts)).1.view, (b.step toF64 (.retrieveOrder price ts)).2)
        = b.view.step toF64 (.retrieveOrder price ts)
      ∧ (b.step toF64 (.retrieveOrder price ts)).1.Ordered clock := by
  unfold LimitBook.step BookView.step retrieveOrder
  rcases findOrder_cases h price ts with
    ⟨hfind, hat⟩ | ⟨level, hordered, hat, ⟨hfind, hmap⟩ | ⟨i, o, hfind, hi, hts, hmap⟩⟩
  · simp only [hfind, hat]
    exact ⟨trivial, h⟩
  · simp only [hfind, hat, hmap]
    exact ⟨trivial, h⟩
  · simp only [hfind, hat, hmap, hi]
    exact ⟨trivial, h⟩

/-- An order that is put in. -/
theorem refines_insertOrder (h : b.Ordered clock) (price : Decimal) (amount : F)
    (now : BitVec 64) (hclock : clock ≤ now.toNat) :
    ((b.step toF64 (.insertOrder price amount now)).1.view,
          (b.step toF64 (.insertOrder price amount now)).2)
        = b.view.step toF64 (.insertOrder price amount now)
      ∧ (b.step toF64 (.insertOrder price amount now)).1.Ordered (now.toNat + 1) := by
  have hle : clock ≤ now.toNat + 1 := hclock.trans (Nat.le_succ _)
  unfold LimitBook.step BookView.step insertOrder
  rcases findLevel_cases b price with ⟨hfind, hat⟩ | ⟨level, hfind, hget, hat⟩
  · simp only [hfind, hat]
    exact ⟨trivial, fun s p l hl => ⟨(h s p l hl).sorted,
      fun o ho => ((h s p l hl).before o ho).trans_le hle⟩⟩
  · simp only [hfind, hat]
    -- The order that the builder makes.
    have happend := (h _ _ level hget).append
      (o := BookView.limitOrder (b.view.sideOf price.value) (toF64 price) amount now) hclock
    refine ⟨Prod.ext ?_ rfl, h.putLevel hle happend.1 _ _⟩
    exact (view_putLevel b _ price _).trans (congrArg (b.view.set _ _ <| some ·) happend.2)

/-- An order that is taken out. -/
theorem refines_deleteOrder (h : b.Ordered clock) (price : Decimal) (ts : BitVec 64) :
    ((b.step toF64 (.deleteOrder price ts)).1.view, (b.step toF64 (.deleteOrder price ts)).2)
        = b.view.step toF64 (.deleteOrder price ts)
      ∧ (b.step toF64 (.deleteOrder price ts)).1.Ordered clock := by
  unfold LimitBook.step BookView.step deleteOrder
  rcases findOrder_cases h price ts with
    ⟨hfind, hat⟩ | ⟨level, hordered, hat, ⟨hfind, hmap⟩ | ⟨i, o, hfind, hi, rfl, hmap⟩⟩
  · simp only [hfind, hat]
    exact ⟨trivial, h⟩
  · simp only [hfind, hat, hmap]
    exact ⟨trivial, h⟩
  · simp only [hfind, hat, hmap]
    have herase := hordered.eraseIdx hi
    refine ⟨Prod.ext ?_ rfl, h.putLevel le_rfl herase.1 _ _⟩
    exact (view_putLevel b _ price _).trans (congrArg (b.view.set _ _ <| some ·) herase.2)

/-- An order that is given another amount. -/
theorem refines_modifyOrder (h : b.Ordered clock) (ts : BitVec 64) (price : Decimal)
    (amount : F) :
    ((b.step toF64 (.modifyOrder ts price amount)).1.view,
          (b.step toF64 (.modifyOrder ts price amount)).2)
        = b.view.step toF64 (.modifyOrder ts price amount)
      ∧ (b.step toF64 (.modifyOrder ts price amount)).1.Ordered clock := by
  unfold LimitBook.step BookView.step modifyOrder
  rcases findOrder_cases h price ts with
    ⟨hfind, hat⟩ | ⟨level, hordered, hat, ⟨hfind, hmap⟩ | ⟨i, o, hfind, hi, rfl, hmap⟩⟩
  · simp only [hfind, hat]
    exact ⟨trivial, h⟩
  · simp only [hfind, hat, hmap]
    exact ⟨trivial, h⟩
  · simp only [hfind, hat, hmap, hi]
    obtain ⟨orderId, orderTsUs, orderType, side, orderPrice, orderAmount⟩ := o
    cases orderPrice with
    | none => exact ⟨rfl, h⟩
    | some orderPrice =>
      have hts' : (⟨Order.encodeOrderId side orderType orderTsUs, orderTsUs, orderType, side,
          some orderPrice, some amount⟩ : Order F).orderTsUs = orderTsUs := rfl
      have hset := hordered.set hi hts'
      refine ⟨Prod.ext ?_ rfl, h.putLevel le_rfl hset.1 _ _⟩
      exact (view_putLevel b _ price _).trans (congrArg (b.view.set _ _ <| some ·) hset.2)

/-- **Each call does what the map does**, and keeps the orders in order. -/
theorem refines_step (h : b.Ordered clock) {call : BookCall F} (hadmitted : Admitted clock call) :
    ((b.step toF64 call).1.view, (b.step toF64 call).2) = b.view.step toF64 call
      ∧ (b.step toF64 call).1.Ordered (clockAfter clock call) := by
  cases call with
  | insertLevel level => exact refines_insertLevel toF64 h level hadmitted
  | deleteLevel price => exact refines_deleteLevel toF64 h price
  | retrieveOrder price ts => exact refines_retrieveOrder toF64 h price ts
  | insertOrder price amount now => exact refines_insertOrder toF64 h price amount now hadmitted
  | deleteOrder price ts => exact refines_deleteOrder toF64 h price ts
  | modifyOrder ts price amount => exact refines_modifyOrder toF64 h ts price amount

/-- **A book does what a map of orders does.** In any run in which the clock advances from
one insertion to the next, and each level that is put in brings its orders in the order
of their times: the book answers each call as the map does, and is at the end what the
map is – so an order is found by its price and time from its insertion to its deletion,
calls that fail change nothing, and the volume of a level is as it was put in. -/
theorem refines_run (h : b.Ordered clock) {calls : List (BookCall F)}
    (hcalls : (machine toF64).Along (fun clock _ call => clockAfter clock call)
      (fun clock _ call => Admitted clock call) clock b calls) :
    ((machine toF64).run b calls).1.view = ((BookView.machine toF64).run b.view calls).1
      ∧ ((machine toF64).run b calls).2 = ((BookView.machine toF64).run b.view calls).2 := by
  induction calls generalizing b clock with
  | nil => exact ⟨rfl, rfl⟩
  | cons call calls ih =>
    obtain ⟨hadmitted, hrest⟩ := hcalls
    obtain ⟨hstep, hordered⟩ := refines_step toF64 h hadmitted
    have hview : (b.step toF64 call).1.view = (b.view.step toF64 call).1 := congrArg Prod.fst hstep
    have hout : (b.step toF64 call).2 = (b.view.step toF64 call).2 := congrArg Prod.snd hstep
    obtain ⟨hlast, houts⟩ := ih hordered hrest
    rw [hview] at hlast houts
    exact ⟨hlast, congrArg₂ (· ++ ·) hout houts⟩

/-- A book without levels. -/
def noLevels : LimitBook ℚ := ⟨.empty, .empty⟩

/-- Two orders at a bid; the first is cancelled, the second is made smaller. -/
def sampleCalls : List (BookCall ℚ) :=
  [.insertLevel ⟨0, .bids, ⟨100, 0⟩, ⟨5, 0⟩, []⟩, .insertOrder ⟨100, 0⟩ 2 7,
    .insertOrder ⟨1000, 1⟩ 3 9, .deleteOrder ⟨100, 0⟩ 7, .modifyOrder 9 ⟨100, 0⟩ 1]

theorem refines_run_sampleCalls :
    ((machine Decimal.value).run noLevels sampleCalls).1.view
        = ((BookView.machine Decimal.value).run noLevels.view sampleCalls).1
      ∧ ((machine Decimal.value).run noLevels sampleCalls).2
        = ((BookView.machine Decimal.value).run noLevels.view sampleCalls).2 :=
  @refines_run ℚ noLevels 0 Decimal.value (fun side price level h => by cases side <;> cases h) _
    ⟨List.Pairwise.nil, Nat.zero_le _, (by decide : 7 + 1 ≤ 9), trivial, trivial, trivial⟩

end LimitBook

end Orders
