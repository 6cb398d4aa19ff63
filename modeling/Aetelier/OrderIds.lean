import Aetelier.BitFields
import Aetelier.MarketTypes

/-!
# Order identifiers

An order's side, type and timestamp are packed into one 64-bit word, twice over:
by `Order::encode_order_id`, which its `decode_order_id` undoes, and by the type
`OrderId` with accessors of its own. Both put the side into bit 63 and the type
into bit 62. They differ in the rest: the first places the timestamp from bit 2
on, the second from bit 0 on, and the accessors of `OrderId` read the side from
bit 62 and the type from bit 63 – each the flag of the other.

A `u64` is a word of 64 bits here, and a price or an amount is of any type.
-/

/-- The side cast to a word. -/
def OrderSide.discriminant : OrderSide → BitVec 64
  | .bids => 0
  | .asks => 1

namespace Orders

/-- Supported order types. -/
inductive OrderType where
  | market
  | limit
deriving DecidableEq, Repr

/-- The type cast to a word. -/
def OrderType.discriminant : OrderType → BitVec 64
  | .market => 0
  | .limit => 1

/-- A compact order identifier. -/
structure OrderId where
  val : BitVec 64
deriving DecidableEq, Repr

namespace OrderId

/-- The mask of the timestamp. -/
def timeMask : BitVec 64 := 0x0FFFFFFFFFFFFFFF

/-- An identifier from its parts. -/
def new (ts : BitVec 64) (orderSide : OrderSide) (orderType : OrderType) : OrderId :=
  let val := ts &&& timeMask
  let val := val ||| (orderSide.discriminant <<< 63)
  let val := val ||| (orderType.discriminant <<< 62)
  ⟨val⟩

/-- The timestamp of an identifier. -/
def timestamp (id : OrderId) : BitVec 64 := id.val &&& timeMask

/-- The side of an identifier, as the accessor reads it. -/
def side (id : OrderId) : OrderSide :=
  if (id.val >>> 62) &&& 1 = 0 then .bids else .asks

/-- The type of an identifier, as the accessor reads it. -/
def order (id : OrderId) : OrderType :=
  if (id.val >>> 63) &&& 1 = 0 then .market else .limit

end OrderId

/-- A single order of the book. -/
structure Order (F : Type) where
  /-- Identifier that packs side, type and timestamp. -/
  orderId : BitVec 64
  orderTsUs : BitVec 64
  orderType : OrderType
  side : OrderSide
  price : Option F
  amount : Option F

namespace Order

/-- Side, type and timestamp in one word. -/
def encodeOrderId (orderSide : OrderSide) (orderType : OrderType) (orderTsUs : BitVec 64) :
    BitVec 64 :=
  let sideBit : BitVec 64 := (match orderSide with | .bids => 0 | .asks => 1) <<< 63
  let typeBit : BitVec 64 := (match orderType with | .market => 0 | .limit => 1) <<< 62
  let timestampBits : BitVec 64 := (orderTsUs &&& ((1 <<< 60) - 1)) <<< 2
  sideBit ||| typeBit ||| timestampBits

/-- The parts of a word. -/
def decodeOrderId (orderId : BitVec 64) : OrderSide × OrderType × BitVec 64 :=
  let orderSide : OrderSide := if (orderId >>> 63) &&& 1 = 0 then .bids else .asks
  let orderType : OrderType := if (orderId >>> 62) &&& 1 = 0 then .market else .limit
  let orderTsUs := (orderId >>> 2) &&& ((1 <<< 60) - 1)
  (orderSide, orderType, orderTsUs)

end Order

/-- What the builder of an order lacks. -/
inductive BuildError where
  /-- A required field was never set. -/
  | missingField (name : String)
deriving DecidableEq, Repr

/-- The builder of an order. -/
structure OrderBuilder (F : Type) where
  orderTsUs : Option (BitVec 64) := none
  orderType : Option OrderType := none
  side : Option OrderSide := none
  price : Option F := none
  amount : Option F := none

/-- The order that is built when the wall clock shows `now` microseconds. -/
def OrderBuilder.build {F : Type} (b : OrderBuilder F) (now : BitVec 64) :
    Except BuildError (Order F) :=
  match b.side with
  | none => .error (.missingField "side")
  | some orderSide =>
    match b.orderType with
    | none => .error (.missingField "order_type")
    | some orderType =>
      let orderTsUs := b.orderTsUs.getD now
      .ok { orderId := Order.encodeOrderId orderSide orderType orderTsUs
            orderTsUs, orderType, side := orderSide, price := b.price, amount := b.amount }

/-! ## The two layouts -/

namespace OrderId

variable (ts : BitVec 64) (side : OrderSide) (ty : OrderType)

theorem encodeOrderId_eq_place :
    Order.encodeOrderId side ty ts
      = BitVec.place 63 1 side.discriminant ||| BitVec.place 62 1 ty.discriminant
        ||| BitVec.place 2 60 ts := by
  cases side <;> cases ty <;> rfl

theorem val_new_eq_place :
    (new ts side ty).val
      = BitVec.place 0 60 ts ||| BitVec.place 63 1 side.discriminant
        ||| BitVec.place 62 1 ty.discriminant := by
  have hts : BitVec.place 0 60 ts = ts &&& timeMask := by
    unfold BitVec.place
    rw [BitVec.shiftLeft_zero]
    rfl
  rw [hts]
  cases side <;> cases ty <;> rfl

theorem side_and_lowMask : side.discriminant &&& BitVec.lowMask 64 1 = side.discriminant := by
  cases side <;> rfl

theorem type_and_lowMask : ty.discriminant &&& BitVec.lowMask 64 1 = ty.discriminant := by
  cases ty <;> rfl

/-- What the three fields of an encoded word hold. -/
theorem fields_encodeOrderId :
    BitVec.field 63 1 (Order.encodeOrderId side ty ts) = side.discriminant
      ∧ BitVec.field 62 1 (Order.encodeOrderId side ty ts) = ty.discriminant
      ∧ BitVec.field 2 60 (Order.encodeOrderId side ty ts) = ts &&& BitVec.lowMask 64 60 := by
  simp only [encodeOrderId_eq_place, BitVec.field_or]
  refine ⟨?_, ?_, ?_⟩
  · rw [BitVec.field_place (by omega), BitVec.field_place_of_disjoint (by omega),
      BitVec.field_place_of_disjoint (by omega), BitVec.or_zero, BitVec.or_zero,
      side_and_lowMask]
  · rw [BitVec.field_place_of_disjoint (by omega), BitVec.field_place (by omega),
      BitVec.field_place_of_disjoint (by omega), BitVec.zero_or, BitVec.or_zero,
      type_and_lowMask]
  · rw [BitVec.field_place_of_disjoint (by omega), BitVec.field_place_of_disjoint (by omega),
      BitVec.field_place (by omega), BitVec.zero_or, BitVec.zero_or]

/-- What the three fields of an `OrderId` hold. -/
theorem fields_val_new :
    BitVec.field 63 1 (new ts side ty).val = side.discriminant
      ∧ BitVec.field 62 1 (new ts side ty).val = ty.discriminant
      ∧ BitVec.field 0 60 (new ts side ty).val = ts &&& BitVec.lowMask 64 60 := by
  simp only [val_new_eq_place, BitVec.field_or]
  refine ⟨?_, ?_, ?_⟩
  · rw [BitVec.field_place_of_disjoint (by omega), BitVec.field_place (by omega),
      BitVec.field_place_of_disjoint (by omega), BitVec.zero_or, BitVec.or_zero,
      side_and_lowMask]
  · rw [BitVec.field_place_of_disjoint (by omega), BitVec.field_place_of_disjoint (by omega),
      BitVec.field_place (by omega), BitVec.zero_or, BitVec.zero_or, type_and_lowMask]
  · rw [BitVec.field_place (by omega), BitVec.field_place_of_disjoint (by omega),
      BitVec.field_place_of_disjoint (by omega), BitVec.or_zero, BitVec.or_zero]

/-! ## Reading the parts back -/

/-- **Decoding undoes encoding**, for every timestamp the field can hold. -/
theorem decodeOrderId_encodeOrderId {ts : BitVec 64} (hts : ts.toNat < 2 ^ 60) :
    Order.decodeOrderId (Order.encodeOrderId side ty ts) = (side, ty, ts) := by
  obtain ⟨hside, hty, hfield⟩ := fields_encodeOrderId ts side ty
  rw [BitVec.and_lowMask_of_lt hts] at hfield
  have hdecode : ∀ id : BitVec 64, Order.decodeOrderId id
      = (if BitVec.field 63 1 id = 0 then .bids else .asks,
          if BitVec.field 62 1 id = 0 then .market else .limit, BitVec.field 2 60 id) :=
    fun _ => rfl
  rw [hdecode, hside, hty, hfield]
  cases side <;> cases ty <;> rfl

theorem timestamp_new {ts : BitVec 64} (hts : ts.toNat < 2 ^ 60) :
    (new ts side ty).timestamp = ts := by
  obtain ⟨-, -, hfield⟩ := fields_val_new ts side ty
  have hread : (new ts side ty).timestamp = BitVec.field 0 60 (new ts side ty).val := by
    unfold BitVec.field
    rw [BitVec.ushiftRight_zero]
    rfl
  rw [hread, hfield, BitVec.and_lowMask_of_lt hts]

/-- **The accessor of the side reads the flag of the type.** -/
theorem side_new : (new ts side ty).side = if ty = .market then .bids else .asks := by
  obtain ⟨-, hty, -⟩ := fields_val_new ts side ty
  have hread : (new ts side ty).side
      = if BitVec.field 62 1 (new ts side ty).val = 0 then .bids else .asks := rfl
  rw [hread, hty]
  cases ty <;> rfl

/-- **The accessor of the type reads the flag of the side.** -/
theorem order_new : (new ts side ty).order = if side = .bids then .market else .limit := by
  obtain ⟨hside, -, -⟩ := fields_val_new ts side ty
  have hread : (new ts side ty).order
      = if BitVec.field 63 1 (new ts side ty).val = 0 then .market else .limit := rfl
  rw [hread, hside]
  cases side <;> rfl

/-! ## The two layouts beside each other -/

/-- **The two words are one only for the timestamp zero**: below the flags, one
holds the timestamp and the other its fourfold. -/
theorem val_new_eq_encodeOrderId_iff {ts : BitVec 64} (hts : ts.toNat < 2 ^ 60) :
    (new ts side ty).val = Order.encodeOrderId side ty ts ↔ ts = 0 := by
  rw [val_new_eq_place, encodeOrderId_eq_place]
  constructor
  · intro hwords
    have hlow : BitVec.place 0 60 ts = BitVec.place 2 60 ts := by
      have hfields := congrArg (BitVec.field 0 62) hwords
      have hnew : (BitVec.place 0 60 ts).toNat < 2 ^ 62 := by
        rw [BitVec.toNat_place (by omega) hts]
        omega
      have hold : (BitVec.place 2 60 ts).toNat < 2 ^ 62 := by
        rw [BitVec.toNat_place (by omega) hts]
        omega
      have hflag : ∀ lo (v : BitVec 64), 62 ≤ lo →
          BitVec.field 0 62 (BitVec.place lo 1 v) = 0#64 :=
        fun lo v hlo => BitVec.field_place_of_disjoint (by omega) v
      rwa [BitVec.field_or, BitVec.field_or, BitVec.field_or, BitVec.field_or,
        hflag 63 _ (by omega), hflag 62 _ (by omega), BitVec.field_zero_of_lt hnew,
        BitVec.field_zero_of_lt hold, BitVec.or_zero, BitVec.or_zero, BitVec.zero_or,
        BitVec.zero_or] at hfields
    have hnat := congrArg BitVec.toNat hlow
    rw [BitVec.toNat_place (by omega) hts, BitVec.toNat_place (by omega) hts] at hnat
    refine BitVec.eq_of_toNat_eq ?_
    show ts.toNat = 0
    omega
  · rintro rfl
    have hnew : BitVec.place 0 60 (0 : BitVec 64) = 0#64 := BitVec.place_zero 0 60
    have hold : BitVec.place 2 60 (0 : BitVec 64) = 0#64 := BitVec.place_zero 2 60
    rw [hnew, hold, BitVec.zero_or, BitVec.or_zero]

/-- The codecs agree on an order: decoding gives its parts back, so do the
accessors, and the two words are one. -/
structure Agrees (side : OrderSide) (ty : OrderType) (ts : BitVec 64) : Prop where
  decoded : Order.decodeOrderId (Order.encodeOrderId side ty ts) = (side, ty, ts)
  side_eq : (new ts side ty).side = side
  order_eq : (new ts side ty).order = ty
  timestamp_eq : (new ts side ty).timestamp = ts
  word_eq : (new ts side ty).val = Order.encodeOrderId side ty ts

/-- **The codecs agree on exactly two orders**, the market bid and the limit ask
of timestamp zero: only there do the two flags coincide and the two places of
the timestamp with them. -/
theorem agrees_iff {ts : BitVec 64} (hts : ts.toNat < 2 ^ 60) :
    Agrees side ty ts ↔ (side = .bids ↔ ty = .market) ∧ ts = 0 := by
  constructor
  · intro h
    refine ⟨?_, (val_new_eq_encodeOrderId_iff side ty hts).mp h.word_eq⟩
    have hside := h.side_eq
    rw [side_new] at hside
    cases side <;> cases ty <;> simp_all
  · rintro ⟨hflags, hzero⟩
    refine ⟨decodeOrderId_encodeOrderId side ty hts, ?_, ?_, timestamp_new side ty hts,
      (val_new_eq_encodeOrderId_iff side ty hts).mpr hzero⟩
    · rw [side_new]
      cases side <;> cases ty <;> simp_all
    · rw [order_new]
      cases side <;> cases ty <;> simp_all

/-- A limit ask of timestamp zero. -/
theorem agrees_iff_ask_limit : Agrees .asks .limit 0 :=
  (agrees_iff .asks .limit (by decide)).mpr ⟨by decide, rfl⟩

/-- A limit bid is read back as an ask. -/
theorem not_agrees_limit_bid :
    ¬ ∀ (side : OrderSide) (ty : OrderType) (ts : BitVec 64), ts.toNat < 2 ^ 60 →
      Agrees side ty ts := by
  intro h
  have hside := (h .bids .limit 1700000000000000 (by decide)).side_eq
  exact absurd hside (by decide)

end OrderId

end Orders
