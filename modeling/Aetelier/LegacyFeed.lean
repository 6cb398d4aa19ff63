import Aetelier.SourceRuntime
import Aetelier.WssEvents

/-!
# The two paths of an order book frame

A frame of an order book venue can take two paths to the synchronizer. The
framework normalizes it into deltas, applies them to a reconstructed book and
emits that book. The legacy worker turns the frame itself into a book: the
levels the frame lists are the levels of the book, whatever the frame is – a
full book or a change of one – and each venue has a converter of its own, with
its own unit of time and its own way to cut.

Both paths read the same text. The framework reads it as a decimal, the legacy
converters as a float, which they turn into a decimal.
-/

/-- The venues whose books come in increments. -/
inductive IncrementalVenue where
  | binance
  | bybit
  | coinbase
  | kraken
deriving DecidableEq

namespace IncrementalVenue

/-- The wire spelling of the venue. -/
def codec : IncrementalVenue → SymbolCodec
  | binance | bybit => .concat true
  | coinbase => .hyphen
  | kraken => .slash

/-- How the framework reconstructs its books. -/
def bookModel : IncrementalVenue → ReconstructionModel
  | binance => .seqDelta .rangeInclusive .restSnapshot
  | bybit => .seqDelta .rangeInclusive .wssSelfSeed
  | coinbase => .seqDelta .monotonic .wssSelfSeed
  | kraken => .checksumDelta .krakenTop10

end IncrementalVenue

/-- **What a worker of a pair is given.** -/
structure LegacyConfig where
  /-- The third-party crates. -/
  crates : Crates
  /-- The Unicode case tables. -/
  unicode : Unicode
  /-- A text read as a float, zero if it is none, and turned into a
  decimal. -/
  readFloat : String → Decimal
  /-- A RFC 3339 text in microseconds. -/
  parseFromRfc3339 : String → Option ℕ
  /-- The venue. -/
  venue : IncrementalVenue
  /-- The pair. -/
  pair : TradingPair
  /-- The configured depth; zero if there is none. -/
  obDepth : ℕ

/-- A call of `on_orderbook`: its time and its book. -/
structure OrderbookCall where
  /-- The time. -/
  exchangeTsUs : ℕ
  /-- The book. -/
  snapshot : Orderbook

namespace LegacyConfig

variable (cfg : LegacyConfig)

/-! ## The legacy converters -/

/-- A level of a converted frame. -/
def toLevel (side : OrderSide) (i : ℕ) (entry : String × String) : Level :=
  ⟨i, side, cfg.readFloat entry.1, cfg.readFloat entry.2⟩

/-- A book with the levels of two lists, in their order. -/
def toCall (exchange : String) (tsUs : ℕ) (bids asks : List Level) : OrderbookCall where
  exchangeTsUs := tsUs
  snapshot := Orderbook.fromLevels 0 tsUs cfg.pair exchange bids asks

/-- The order book branch of `feed_bybit`. -/
def feedBybit (resp : BybitOrderbookResponse) : OrderbookCall :=
  cfg.toCall "bybit" (resp.orderbookTsMs * 1000) (resp.bids.mapIdx (cfg.toLevel .bids))
    (resp.asks.mapIdx (cfg.toLevel .asks))

/-- The side an update of Coinbase is for. -/
def sideOf (update : CoinbaseL2Update) : Option OrderSide :=
  if update.side = "bid" then some .bids
  else if update.side = "offer" ∨ update.side = "ask" then some .asks
  else none

/-- The order book branch of `feed_coinbase`: the first event, each side cut
by position. The levels are numbered over both sides. -/
def feedCoinbase (resp : CoinbaseOrderbookResponse) : Option OrderbookCall :=
  resp.events.head?.map (fun event =>
    let levels := fun side => (event.updates.zipIdx.filterMap (fun ui =>
      if sideOf ui.1 = some side then
        some (cfg.toLevel side ui.2 (ui.1.priceLevel, ui.1.newQuantity))
      else none)).take cfg.obDepth
    cfg.toCall "coinbase" ((cfg.parseFromRfc3339 resp.timestamp).getD 0) (levels .bids)
      (levels .asks))

/-- The order book branch of `feed_kraken`: the first payload. -/
def feedKraken (resp : KrakenBookResponse) : Option OrderbookCall :=
  resp.data.head?.map (fun book =>
    cfg.toCall "kraken" ((cfg.parseFromRfc3339 book.timestamp).getD 0)
      (book.bids.mapIdx (cfg.toLevel .bids)) (book.asks.mapIdx (cfg.toLevel .asks)))

/-- The order book branches of `feed_binance`. The event time of an update is
passed on in the unit it came in; a snapshot has none. -/
def feedBinance : BinanceWssEvent → Option OrderbookCall
  | .depthUpdate upd => some (cfg.toCall "binance" upd.eventTime
      (upd.bids.mapIdx (cfg.toLevel .bids)) (upd.asks.mapIdx (cfg.toLevel .asks)))
  | .depthSnapshot snap => some (cfg.toCall "binance" 0
      ((snap.bids.take cfg.obDepth).mapIdx (cfg.toLevel .bids))
      ((snap.asks.take cfg.obDepth).mapIdx (cfg.toLevel .asks)))
  | .tradeData => none

/-- **`feed_event`**: the book a frame is turned into. -/
def feedEvent : ExchangeEvent → Option OrderbookCall
  | .bybit resp => some (cfg.feedBybit resp)
  | .coinbase resp => cfg.feedCoinbase resp
  | .kraken resp => cfg.feedKraken resp
  | .binance event => cfg.feedBinance event
  | .other => none

/-! ## The framework's normalizers -/

/-- `BybitOrderbookResponse::to_normalized`, with the id in both places. -/
def normalizeBybit (resp : BybitOrderbookResponse) : List NormalizedDelta :=
  if resp.bids = [] ∧ resp.asks = [] ∧ resp.symbol = "" then []
  else [{
    symbol := resp.symbol
    bids := resp.bids
    asks := resp.asks
    updateId := resp.updateId
    sequence := resp.updateId
    sourceOrderbookTsUs := resp.cts.getD resp.orderbookTsMs * 1000
    isSnapshot := resp.ty = "snapshot" }]

/-- The entries of a Coinbase event for a side. -/
def entriesOf (event : CoinbaseL2Event) (side : OrderSide) : List (String × String) :=
  (event.updates.filter (fun update => sideOf update = some side)).map
    (fun update => (update.priceLevel, update.newQuantity))

/-- The normalizer of Coinbase: one delta an event. -/
def normalizeCoinbase (resp : CoinbaseOrderbookResponse) : List NormalizedDelta :=
  resp.events.map (fun event => {
    symbol := event.productId
    bids := entriesOf event .bids
    asks := entriesOf event .asks
    updateId := resp.sequenceNum
    sequence := resp.sequenceNum
    sourceOrderbookTsUs := (cfg.parseFromRfc3339 resp.timestamp).getD 0
    isSnapshot := event.ty = "snapshot" })

/-- `KrakenBookResponse::to_normalized`. -/
def normalizeKraken (resp : KrakenBookResponse) : List NormalizedDelta :=
  (resp.data.head?.map (fun data => {
    symbol := data.symbol
    bids := data.bids
    asks := data.asks
    updateId := data.checksum
    sequence := data.checksum
    sourceOrderbookTsUs := (cfg.parseFromRfc3339 data.timestamp).getD 0
    checksum := some data.checksum
    isSnapshot := resp.ty = "snapshot" })).toList

/-- `BinanceDepthUpdate::to_normalized`, and `BinanceDepthSnapshot::to_normalized`
for the seed of the pair. -/
def normalizeBinance : BinanceWssEvent → List NormalizedDelta
  | .depthUpdate upd => [{
      symbol := upd.symbol
      bids := upd.bids
      asks := upd.asks
      updateId := upd.lastUpdateId
      sequence := upd.firstUpdateId
      sourceOrderbookTsUs := epochToUs upd.eventTime
      isSnapshot := false }]
  | .depthSnapshot snap => [{
      symbol := cfg.venue.codec.encode cfg.unicode cfg.pair
      bids := snap.bids
      asks := snap.asks
      updateId := snap.lastUpdateId
      sequence := snap.lastUpdateId
      isSnapshot := true }]
  | .tradeData => []

/-- The deltas of a frame. -/
def normalize : ExchangeEvent → List NormalizedDelta
  | .bybit resp => normalizeBybit resp
  | .coinbase resp => cfg.normalizeCoinbase resp
  | .kraken resp => cfg.normalizeKraken resp
  | .binance event => cfg.normalizeBinance event
  | .other => []

/-- A delta is for the pair. -/
def ForPair (d : NormalizedDelta) : Prop :=
  cfg.venue.codec.decode cfg.unicode d.symbol = some cfg.pair

instance (d : NormalizedDelta) : Decidable (cfg.ForPair d) := inferInstanceAs (Decidable (_ = _))

/-- **The deltas of a frame that the runtime applies to the book of the
pair.** Those of other products of the socket go to no book. A snapshot of
Binance is the seed of the pair, whatever its symbol. -/
def deltasOf (ev : ExchangeEvent) : List NormalizedDelta :=
  let seed := ev matches .binance (.depthSnapshot _)
  ((cfg.normalize ev).filter (fun d => seed || cfg.ForPair d)).map (·.canonical cfg.pair)

/-- The venue's event time of a frame, in microseconds; zero if it has
none. -/
def eventTimeUs : ExchangeEvent → ℕ
  | .bybit resp => resp.cts.getD resp.orderbookTsMs * 1000
  | .coinbase resp => (cfg.parseFromRfc3339 resp.timestamp).getD 0
  | .kraken resp =>
    (resp.data.head?.bind (fun data => cfg.parseFromRfc3339 data.timestamp)).getD 0
  | .binance (.depthUpdate upd) => epochToUs upd.eventTime
  | _ => 0

/-! ## The framework's book -/

/-- The depth of the framework's book: ten levels for Kraken's checksum, else
the configured depth. -/
def depth : Option ℕ :=
  match cfg.venue with
  | .kraken => some 10
  | _ => if cfg.obDepth = 0 then none else some cfg.obDepth

/-- The book before the first frame. -/
def start : SourcedOrderbook :=
  let model := cfg.venue.bookModel
  (SourcedOrderbook.new cfg.pair model model.recoveryAction).armConfigDepth
    (if cfg.obDepth = 0 then none else some cfg.obDepth)

end LegacyConfig
