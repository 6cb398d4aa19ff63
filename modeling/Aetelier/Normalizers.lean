import Aetelier.VenueEvents
import Aetelier.LegacyFeed
import Aetelier.RestTrades
import Aetelier.SeqTracker

/-!
# The normalizers

A normalizer turns an event of its venue into domain events. A frame of a book
becomes one delta for each of its payloads, with the two numbers its venue checks
continuity by where the model of its books looks for them. A batch of prints becomes
a trade for each print, and a print that cannot be read – its symbol, its side, its
price or its amount – is dropped and counted. Three venues name the symbol once for
the whole batch, and drop the batch as one where it cannot be read.

All thirteen are one function of what they read in a print (`VenuePrint.normalize`).
They differ in what they read: in the words for the two sides, in the unit and form of
the time, in the order of a batch, and in whether the number of a print is good for
counting losses – four venues pass it on as an identifier only (`Venue.armed`). Two
keep something from event to event: Bitso's the last sequence of each book, Coinbase's
the tracker of its book socket.
-/

/-- **Reading what frames say.** -/
structure WireEnv (F : Type) where
  /-- The third-party crates. -/
  crates : Crates
  /-- The Unicode case tables. -/
  unicode : Unicode
  /-- `f64_to_decimal`. -/
  toDecimal : F → Decimal
  /-- `to_string` of an `f64`. -/
  display : F → String
  /-- `parse::<f64>`, and `as u64` of it. -/
  floatAsU64 : String → Option ℕ
  /-- `DateTime::parse_from_rfc3339`, in microseconds. -/
  parseFromRfc3339 : String → Option ℤ

/-- What a normalizer makes of an event, piece by piece. -/
inductive Normalized where
  | emitted (ev : DomainEvent)
  /-- `add_dropped_frames(1)`. -/
  | droppedFrame

namespace Venue

/-- The name of a venue. -/
def id : Venue → String
  | binance => "binance"
  | bitget => "bitget"
  | bitso => "bitso"
  | bybit => "bybit"
  | coinbase => "coinbase"
  | gateio => "gateio"
  | htx => "htx"
  | hyperliquid => "hyperliquid"
  | kraken => "kraken"
  | kucoin => "kucoin"
  | okx => "okx"
  | poloniex => "poloniex"
  | upbit => "upbit"

/-- Its wire spelling. -/
def codec : Venue → SymbolCodec
  | binance | bitget | bybit => .concat true
  | bitso => .underscore false
  | coinbase | kucoin | okx => .hyphen
  | gateio | poloniex => .underscore true
  | htx => .concat false
  | hyperliquid => .bareCoin "USDC"
  | kraken => .slash
  | upbit => .quoteFirst '-'

/-- `book_model`: how its books are reconstructed. -/
def bookModel : Venue → ReconstructionModel
  | binance | kucoin => .seqDelta .rangeInclusive .restSnapshot
  | bybit => .seqDelta .rangeInclusive .wssSelfSeed
  | bitget | okx | poloniex => .seqDelta .exactPrev .wssSelfSeed
  | htx => .seqDelta .exactPrev .reqOnSocket
  | coinbase => .seqDelta .monotonic .wssSelfSeed
  | kraken => .checksumDelta .krakenTop10
  | bitso => .l3 .restSnapshot
  | gateio | hyperliquid | upbit => .fullRefresh

end Venue

variable {F : Type} (env : WireEnv F)

namespace WireEnv

/-- `parse::<Decimal>`. -/
def decimal (s : String) : Option Decimal := (env.crates.fromStr s).toOption

/-- `timestamp_us` of an ISO 8601 text. -/
def timestampUs (s : String) : ℕ := ((env.parseFromRfc3339 s).map asU64).getD 0

/-- `parse::<u64>().unwrap_or(0)`. -/
def u64OrZero (s : String) : ℕ := (parseU64 s).getD 0

end WireEnv

/-! ## Prints -/

/-- **A print**, as far as a normalizer reads it. -/
structure VenuePrint where
  symbol : String
  side : Option TradeSide
  amount : Option Decimal
  price : Option Decimal
  sourceTradeTsUs : ℕ
  id : String
  /-- The number that losses are counted by. -/
  sequence : Option ℕ

namespace VenuePrint

variable (venue : Venue) (p : VenuePrint)

/-- The pair of a print. -/
def pair : Option TradingPair := venue.codec.decode env.unicode p.symbol

/-- The trade of a print, if all of it can be read. -/
def trade : Option Trade := do
  let pair ← p.pair env venue
  let amount ← p.amount
  let price ← p.price
  let side ← p.side
  return {
    sourceTradeTsUs := p.sourceTradeTsUs
    pair := pair
    side := side
    amount := amount
    price := price
    exchange := venue.id
    id := p.id }

/-- **A print is emitted as a trade, or dropped and counted.** -/
def normalize : Normalized :=
  match p.trade env venue with
  | some t => .emitted (.trade t p.sequence)
  | none => .droppedFrame

/-- The prints of a frame that names their symbol: where it cannot be read, the frame is
dropped. -/
def normalizeBatch (symbol : Option String) (prints : String → List VenuePrint) :
    List Normalized :=
  match symbol.bind (fun s => (venue.codec.decode env.unicode s).map (fun _ => s)) with
  | some s => (prints s).map (normalize env venue)
  | none => [.droppedFrame]

end VenuePrint

/-- A word for a side, whatever the case of its letters. -/
def sideOfWord (buy sell word : String) : Option TradeSide :=
  let lower := fun s : String => s.toList.map Char.toLower
  if lower word = lower buy then some .buy
  else if lower word = lower sell then some .sell
  else none

namespace WireEnv

/-- A trade of Binance. -/
def binancePrint (t : BinanceTradeData) : VenuePrint where
  symbol := t.symbol
  side := TradeSide.fromStr t.takerSide
  amount := env.decimal t.quantity
  price := env.decimal t.price
  sourceTradeTsUs := epochToUs t.tradeTime
  id := toString t.tradeId
  sequence := some t.tradeId

/-- A print of Bitget. -/
def bitgetPrint (instId : String) (d : BitgetTradeData) : VenuePrint where
  symbol := instId
  side := TradeSide.fromStr d.side
  amount := env.decimal d.size
  price := env.decimal d.price
  sourceTradeTsUs := epochToUs (u64OrZero d.ts)
  id := d.tradeId
  sequence := none

/-- A print of Bitso. -/
def bitsoPrint (book : String) (t : BitsoTrade) : VenuePrint where
  symbol := book
  side := if t.t = 0 then some .buy else if t.t = 1 then some .sell else none
  amount := env.decimal t.a
  price := env.decimal t.r
  sourceTradeTsUs := epochToUs t.x
  id := toString t.i
  sequence := none

/-- A fill of Bybit. -/
def bybitPrint (t : BybitTradeData) : VenuePrint where
  symbol := t.symbol
  side := TradeSide.fromStr t.side
  amount := env.decimal t.amount
  price := env.decimal t.price
  sourceTradeTsUs := epochToUs t.tradeTs
  id := t.tradeId
  sequence := parseU64 t.tradeId

/-- A print of Coinbase. -/
def coinbasePrint (t : CoinbaseTradeData) : VenuePrint where
  symbol := t.productId
  side := TradeSide.fromStr t.side
  amount := env.decimal t.size
  price := env.decimal t.price
  sourceTradeTsUs := env.timestampUs t.time
  id := t.tradeId
  sequence := parseU64 t.tradeId

/-- `ts_ms`: the whole part of a number of milliseconds, else what can be had. -/
def gateioTsMs (t : GateioTradeData) : ℕ :=
  match parseU64 (String.ofList (t.createTimeMs.toList.takeWhile (· != '.'))) with
  | some ms => ms
  | none => (env.floatAsU64 t.createTimeMs).getD ((max t.createTime 0).toNat * 1000 % 2 ^ 64)

/-- A print of Gate.io. -/
def gateioPrint (t : GateioTradeData) : VenuePrint where
  symbol := t.currencyPair
  side := TradeSide.fromStr t.side
  amount := env.decimal t.amount
  price := env.decimal t.price
  sourceTradeTsUs := epochToUs (env.gateioTsMs t)
  id := toString t.id
  sequence := some t.id

/-- A trade of HTX. -/
def htxPrint (symbol : String) (d : HtxTradeDetail F) : VenuePrint where
  symbol := symbol
  side := TradeSide.fromStr d.direction
  amount := some (env.toDecimal d.amount)
  price := some (env.toDecimal d.price)
  sourceTradeTsUs := epochToUs d.ts
  id := toString d.tradeId
  sequence := some d.tradeId

/-- A trade of Hyperliquid. -/
def hyperliquidPrint (t : HyperliquidTrade) : VenuePrint where
  symbol := t.coin
  side := sideOfWord "B" "A" t.side
  amount := env.decimal t.sz
  price := env.decimal t.px
  sourceTradeTsUs := epochToUs t.time
  id := toString t.tid
  sequence := none

/-- A trade of Kraken. -/
def krakenPrint (t : KrakenTradeData F) : VenuePrint where
  symbol := t.symbol
  side := TradeSide.fromStr t.side
  amount := some (env.toDecimal t.qty)
  price := some (env.toDecimal t.price)
  sourceTradeTsUs := env.timestampUs t.timestamp
  id := toString t.tradeId
  sequence := some t.tradeId

/-- A match of KuCoin. -/
def kucoinPrint (m : KucoinMatchData) : VenuePrint where
  symbol := m.symbol
  side := TradeSide.fromStr m.side
  amount := env.decimal m.size
  price := env.decimal m.price
  sourceTradeTsUs := epochToUs (u64OrZero m.time)
  id := m.tradeId
  sequence := none

/-- A print of OKX. -/
def okxPrint (t : OkxTradeData) : VenuePrint where
  symbol := t.instId
  side := TradeSide.fromStr t.side
  amount := env.decimal t.sz
  price := env.decimal t.px
  sourceTradeTsUs := epochToUs (u64OrZero t.ts)
  id := t.tradeId
  sequence := parseU64 t.tradeId

/-- A trade of Poloniex. -/
def poloniexPrint (t : PoloniexTradeData) : VenuePrint where
  symbol := t.symbol
  side := TradeSide.fromStr t.takerSide
  amount := env.decimal t.quantity
  price := env.decimal t.price
  sourceTradeTsUs := epochToUs (if 0 < t.createTime then t.createTime else t.ts)
  id := t.id
  sequence := parseU64 t.id

/-- A trade of Upbit. -/
def upbitPrint (t : UpbitTrade F) : VenuePrint where
  symbol := t.code
  side := sideOfWord "BID" "ASK" t.askBid
  amount := some (env.toDecimal t.tradeVolume)
  price := some (env.toDecimal t.tradePrice)
  sourceTradeTsUs := epochToUs t.tradeTimestamp
  id := toString t.sequentialId
  sequence := some t.sequentialId

/-- `symbol_from_channel`: the second part of a channel of HTX. -/
def symbolFromChannel (ch : String) : Option String :=
  ((ch.toList.splitOn '.')[1]?).map String.ofList

/-! ## Books -/

/-- `BinanceDepthUpdate::to_normalized`. -/
def binanceDelta (upd : BinanceDepthUpdate) : NormalizedDelta where
  symbol := upd.symbol
  bids := upd.bids
  asks := upd.asks
  updateId := upd.lastUpdateId
  sequence := upd.firstUpdateId
  sourceOrderbookTsUs := epochToUs upd.eventTime
  isSnapshot := false

/-- `BitgetNormalizer::to_delta`. -/
def bitgetDelta (symbol : String) (isSnapshot : Bool) (data : BitgetBookData) :
    NormalizedDelta where
  symbol := symbol
  bids := data.bids
  asks := data.asks
  updateId := data.seq.getD (u64OrZero data.ts)
  sequence := data.pseq.getD 0
  sourceOrderbookTsUs := epochToUs (u64OrZero data.ts)
  isSnapshot := isSnapshot

/-- A change of an order of Bitso. -/
def bitsoOrder (o : BitsoDiffOrder) : L3Order where
  orderId := o.o
  isAsk := o.t ≠ 0
  price := o.r.getD ""
  size := o.a.getD ""
  removed := o.s = "cancelled" ∨ o.s = "completed"

/-- The delta of a message of Bitso. -/
def bitsoDelta (m : BitsoDiffMessage) : NormalizedDelta where
  symbol := m.book
  bids := []
  asks := []
  updateId := m.payload.foldl (fun id o => max id o.d) 0
  sequence := m.sequence.getD 0
  sourceOrderbookTsUs := epochToUs (m.payload.foldl (fun id o => max id o.d) 0)
  orders := m.payload.map bitsoOrder
  isSnapshot := false

/-- `GateioNormalizer::to_delta`. -/
def gateioDelta (data : GateioOrderbookData) : NormalizedDelta where
  symbol := data.symbol
  bids := data.bids
  asks := data.asks
  updateId := (max data.lastUpdateId 0).toNat
  sequence := (max data.lastUpdateId 0).toNat
  sourceOrderbookTsUs := epochToUs data.tsMs
  isSnapshot := true

/-- `CoinbaseNormalizer::to_delta`. -/
def coinbaseDelta (seq eventTs : ℕ) (event : CoinbaseL2Event) : NormalizedDelta where
  symbol := event.productId
  bids := LegacyConfig.entriesOf event .bids
  asks := LegacyConfig.entriesOf event .asks
  updateId := seq
  sequence := seq
  sourceOrderbookTsUs := eventTs
  isSnapshot := event.ty = "snapshot"

/-- A level of floating-point numbers, as text. -/
def level (l : F × F) : String × String := (env.display l.1, env.display l.2)

/-- `HtxNormalizer::to_delta`. -/
def htxDelta (symbol : String) (tick : HtxMbpTick F) (ts : ℕ) (isSnapshot : Bool) :
    NormalizedDelta where
  symbol := symbol
  bids := tick.bids.map env.level
  asks := tick.asks.map env.level
  updateId := tick.seqNum
  sequence := tick.prevSeqNum.getD 0
  sourceOrderbookTsUs := epochToUs ts
  isSnapshot := isSnapshot

/-- The book of Hyperliquid: a frame without two sides has none. -/
def hyperliquidDelta (book : HyperliquidBook) : Option NormalizedDelta :=
  match book.levels with
  | [bids, asks] => some {
      symbol := book.coin
      bids := bids
      asks := asks
      updateId := book.time
      sequence := 0
      sourceOrderbookTsUs := epochToUs book.time
      isSnapshot := true }
  | _ => none

/-- `KrakenBookResponse::to_normalized`. -/
def krakenDelta (resp : KrakenBookResponse) : Option NormalizedDelta :=
  resp.data.head?.map fun data => {
    symbol := data.symbol
    bids := data.bids
    asks := data.asks
    updateId := data.checksum
    sequence := data.checksum
    sourceOrderbookTsUs := env.timestampUs data.timestamp
    checksum := some data.checksum
    isSnapshot := resp.ty = "snapshot" }

/-- The delta of a change of KuCoin. -/
def kucoinDelta (d : KucoinL2Data) : NormalizedDelta where
  symbol := d.symbol
  bids := d.bids
  asks := d.asks
  updateId := d.sequenceEnd
  sequence := d.sequenceStart
  sourceOrderbookTsUs := epochToUs d.time
  isSnapshot := false

/-- `OkxNormalizer::to_delta`. -/
def okxDelta (symbol : String) (isSnapshot : Bool) (data : OkxOrderbookData) :
    NormalizedDelta where
  symbol := symbol
  bids := data.bids
  asks := data.asks
  updateId := (max data.seqId 0).toNat
  sequence := (max (data.prevSeqId.getD data.seqId) 0).toNat
  sourceOrderbookTsUs := epochToUs (u64OrZero data.ts)
  checksum := data.checksum
  isSnapshot := isSnapshot

/-- `PoloniexNormalizer::to_delta`. -/
def poloniexDelta (isSnapshot : Bool) (data : PoloniexBookData) : NormalizedDelta where
  symbol := data.symbol
  bids := data.bids
  asks := data.asks
  updateId := data.id
  sequence := data.lastId
  sourceOrderbookTsUs := epochToUs data.ts
  isSnapshot := isSnapshot

/-- The book of Upbit. -/
def upbitDelta (ob : UpbitOrderbook F) : NormalizedDelta where
  symbol := ob.code
  bids := ob.orderbookUnits.map fun u => env.level (u.bidPrice, u.bidSize)
  asks := ob.orderbookUnits.map fun u => env.level (u.askPrice, u.askSize)
  updateId := ob.timestamp
  sequence := 0
  sourceOrderbookTsUs := epochToUs ob.timestamp
  isSnapshot := true

end WireEnv

/-! ## The normalizers -/

namespace WireEnv

/-- `BinanceNormalizer::normalize`. -/
def normalizeBinance : BinanceEvent → List Normalized
  | .depthUpdate upd => [.emitted (.book (binanceDelta upd))]
  | .depthSnapshot _ => []
  | .tradeData t => [(env.binancePrint t).normalize env .binance]

/-- `BitgetNormalizer::normalize`. -/
def normalizeBitget : BitgetWssEvent → List Normalized
  | .book frame =>
    frame.data.map fun d =>
      .emitted (.book (bitgetDelta frame.instId (frame.action = "snapshot") d))
  | .trade frame =>
    VenuePrint.normalizeBatch env .bitget (some frame.instId) fun s =>
      frame.data.map (env.bitgetPrint s)

/-- `BitsoNormalizer::observe_seq`: the messages dropped before one. -/
def observeSeq (lastSeq : HashMap String ℕ) (book : String) (seq : ℕ) :
    HashMap String ℕ × Option ℕ :=
  let jump := (lastSeq.get? book).elim 0 fun prev => seq - saturatingAdd prev 1
  (lastSeq.insert book seq, if 0 < jump then some jump else none)

/-- `BitsoNormalizer::normalize`. -/
def normalizeBitso (lastSeq : HashMap String ℕ) :
    BitsoWssEvent → HashMap String ℕ × List Normalized
  | .diffOrders m =>
    let observed := match m.sequence with
      | some seq => observeSeq lastSeq m.book seq
      | none => (lastSeq, none)
    (observed.1, (observed.2.map (.emitted ∘ .connectionGap)).toList
      ++ [.emitted (.book (bitsoDelta m))])
  | .trades m =>
    (lastSeq, VenuePrint.normalizeBatch env .bitso (some m.book) fun s =>
      m.payload.map (env.bitsoPrint s))

/-- `BybitNormalizer::normalize`. -/
def normalizeBybit : BybitWssEvent → List Normalized
  | .orderbookData resp =>
    (LegacyConfig.normalizeBybit resp).map (.emitted ∘ .book)
  | .tradeData trades => trades.map fun t => (env.bybitPrint t).normalize env .bybit
  | .liquidationData => []
  | .tickerData => []

/-- The reading of the clock when an event is normalized. -/
structure Clock where
  nowNs : ℕ
  jitter : GapDebounceJitter

/-- `CoinbaseNormalizer::track`. -/
def track (tracker : Option SeqTracker) (clock : Clock) (seq : ℕ) (hbCounter : Option ℕ) :
    Option SeqTracker × List Normalized :=
  match tracker with
  | none => (none, [])
  | some t =>
    let observed := t.observe seq hbCounter clock.nowNs clock.jitter
    (some observed.1, (observed.2.map (.emitted ∘ .connectionGap)).toList)

/-- `CoinbaseNormalizer::normalize`; the socket of the trades has no tracker. -/
def normalizeCoinbase (tracker : Option SeqTracker) (clock : Clock) :
    CoinbaseWssEvent → Option SeqTracker × List Normalized
  | .orderbookData resp =>
    let tracked := track tracker clock resp.sequenceNum none
    (tracked.1, tracked.2 ++ resp.events.map fun e =>
      .emitted (.book (coinbaseDelta resp.sequenceNum (env.timestampUs resp.timestamp) e)))
  | .tradeData trades =>
    (tracker, trades.reverse.map fun t => (env.coinbasePrint t).normalize env .coinbase)
  | .heartbeat sequenceNum heartbeatCounter =>
    track tracker clock sequenceNum (some heartbeatCounter)
  | .control sequenceNum => track tracker clock sequenceNum none

/-- `GateioNormalizer::normalize`. -/
def normalizeGateio : GateioWssEvent → List Normalized
  | .orderbookData result => [.emitted (.book (gateioDelta result))]
  | .tradeData t => [(env.gateioPrint t).normalize env .gateio]

/-- `HtxNormalizer::normalize`; a batch is turned round, the oldest first. -/
def normalizeHtx : HtxWssEvent F → List Normalized
  | .mbpSnapshot rep ts data =>
    ((symbolFromChannel rep).map fun sym =>
      .emitted (.book (env.htxDelta sym data ts true))).toList
  | .mbpUpdate ch ts tick =>
    ((symbolFromChannel ch).map fun sym =>
      .emitted (.book (env.htxDelta sym tick ts false))).toList
  | .trade ch data =>
    VenuePrint.normalizeBatch env .htx (symbolFromChannel ch) fun s =>
      data.reverse.map (env.htxPrint s)

/-- One number of an asset context: what it is emitted as, or a drop. -/
def normalizeCtxField (declared : Bool) (raw : Option String) (emit : Decimal → DomainEvent) :
    List Normalized :=
  match declared, raw with
  | true, some raw =>
    match env.decimal raw with
    | some d => [.emitted (emit d)]
    | none => [.droppedFrame]
  | _, _ => []

/-- `HyperliquidNormalizer::normalize_asset_ctx`. -/
def normalizeAssetCtx (declared : List DeclaredDatatype) (msg : HyperliquidAssetCtxMsg) :
    List Normalized :=
  match Venue.hyperliquid.codec.decode env.unicode msg.coin with
  | none => [.droppedFrame]
  | some pair =>
    env.normalizeCtxField (.fundingRates ∈ declared) msg.funding (fun rate => .fundingRate {
      fundingRateTsUs := 0
      localFundingTsUs := 0
      recvSeq := 0
      connEpochUs := 0
      pair := pair
      fundingRate := rate
      premium := msg.premium.bind env.decimal
      intervalHours := 1
      nextFundingTsUs := 0
      exchange := "hyperliquid" })
    ++ env.normalizeCtxField (.openInterest ∈ declared) msg.openInterest
      (fun oi => .openInterest {
        openInterestTsUs := 0
        localOiTsUs := 0
        recvSeq := 0
        connEpochUs := 0
        pair := pair
        openInterest := oi
        openInterestValue := none
        markPx := msg.markPx.bind env.decimal
        exchange := "hyperliquid" })

/-- `HyperliquidNormalizer::normalize`. -/
def normalizeHyperliquid (declared : List DeclaredDatatype) :
    HyperliquidWssEvent → List Normalized
  | .book book =>
    match hyperliquidDelta book with
    | some d => [.emitted (.book d)]
    | none => [.droppedFrame]
  | .trades trades => trades.map fun t => (env.hyperliquidPrint t).normalize env .hyperliquid
  | .assetCtx msg => env.normalizeAssetCtx declared msg

/-- `KrakenNormalizer::normalize`. -/
def normalizeKraken : KrakenWssEvent F → List Normalized
  | .orderbookData resp => ((env.krakenDelta resp).map (.emitted ∘ .book)).toList
  | .tradeData trades => trades.map fun t => (env.krakenPrint t).normalize env .kraken

/-- `KucoinNormalizer::normalize`. -/
def normalizeKucoin : KucoinWssEvent → List Normalized
  | .level2 d => [.emitted (.book (kucoinDelta d))]
  | .matched m => [(env.kucoinPrint m).normalize env .kucoin]

/-- `OkxNormalizer::normalize`. -/
def normalizeOkx : OkxWssEvent → List Normalized
  | .orderbookData resp =>
    resp.data.map fun d => .emitted (.book (okxDelta resp.instId resp.isSnapshot d))
  | .tradeData trades => trades.map fun t => (env.okxPrint t).normalize env .okx

/-- `PoloniexNormalizer::normalize`. -/
def normalizePoloniex : PoloniexWssEvent → List Normalized
  | .book frame =>
    frame.data.map fun d => .emitted (.book (poloniexDelta (frame.action = "snapshot") d))
  | .trades data => data.map fun t => (env.poloniexPrint t).normalize env .poloniex

/-- `UpbitNormalizer::normalize`. -/
def normalizeUpbit : UpbitWssEvent F → List Normalized
  | .orderbook ob => [.emitted (.book (env.upbitDelta ob))]
  | .trade t => [(env.upbitPrint t).normalize env .upbit]

end WireEnv

/-! ## The sockets -/

namespace Venue

/-- What a normalizer keeps from event to event. -/
def Kept : Venue → Type
  | bitso => HashMap String ℕ
  | coinbase => Option SeqTracker
  | _ => Unit

/-- A decoded event, and the clock when it is normalized. -/
structure Decoded (F : Type) (venue : Venue) where
  event : venue.Event F
  clock : WireEnv.Clock

/-- **The normalizer of a venue**; only that of Hyperliquid looks at what is declared. -/
def normalize (declared : List DeclaredDatatype) :
    (venue : Venue) → venue.Kept → Decoded F venue → venue.Kept × List Normalized
  | binance, kept, d => (kept, env.normalizeBinance d.event)
  | bitget, kept, d => (kept, env.normalizeBitget d.event)
  | bitso, kept, d => env.normalizeBitso kept d.event
  | bybit, kept, d => (kept, env.normalizeBybit d.event)
  | coinbase, kept, d => env.normalizeCoinbase kept d.clock d.event
  | gateio, kept, d => (kept, env.normalizeGateio d.event)
  | htx, kept, d => (kept, env.normalizeHtx d.event)
  | hyperliquid, kept, d => (kept, env.normalizeHyperliquid declared d.event)
  | kraken, kept, d => (kept, env.normalizeKraken d.event)
  | kucoin, kept, d => (kept, env.normalizeKucoin d.event)
  | okx, kept, d => (kept, env.normalizeOkx d.event)
  | poloniex, kept, d => (kept, env.normalizePoloniex d.event)
  | upbit, kept, d => (kept, env.normalizeUpbit d.event)

/-- The normalizer of a socket as a machine. -/
def normalizer (declared : List DeclaredDatatype) (venue : Venue) :
    Machine venue.Kept (Decoded F venue) Normalized :=
  ⟨venue.normalize env declared⟩

end Venue

namespace Normalized

/-- The domain event of a piece. -/
def event? : Normalized → Option DomainEvent
  | emitted ev => some ev
  | droppedFrame => none

/-- The domain events, in their order. -/
def events (out : List Normalized) : List DomainEvent := out.filterMap event?

/-- The counter `dropped_frames`. -/
def droppedFrames (out : List Normalized) : ℕ :=
  out.countP fun
    | droppedFrame => true
    | emitted _ => false

theorem droppedFrames_append (out out' : List Normalized) :
    droppedFrames (out ++ out') = droppedFrames out + droppedFrames out' := List.countP_append

end Normalized
