import Aetelier.WssEvents

/-!
# What the decoders hand to the normalizers

Thirteen venues have a decoder each, which turns a frame into an event of the
venue: an update of a book or a batch of prints, and here and there something
else. Numbers that a venue sends as text are still text, those it sends as numbers
are floating-point numbers, and each venue names its fields in its own way.

Book frames of Binance, Bybit, Coinbase and Kraken are those of the legacy path.
Of the other fields, those that no normalizer reads are left out.
-/

/-- The venues. -/
inductive Venue where
  | binance
  | bitget
  | bitso
  | bybit
  | coinbase
  | gateio
  | htx
  | hyperliquid
  | kraken
  | kucoin
  | okx
  | poloniex
  | upbit
deriving DecidableEq, Repr

variable (F : Type)

/-! ## Binance -/

structure BinanceTradeData where
  symbol : String
  tradeId : ℕ
  price : String
  quantity : String
  tradeTime : ℕ
  isBuyerMaker : Bool
deriving DecidableEq, Repr

/-- `taker_side`. -/
def BinanceTradeData.takerSide (t : BinanceTradeData) : String :=
  if t.isBuyerMaker then "sell" else "buy"

inductive BinanceEvent where
  | depthUpdate (upd : BinanceDepthUpdate)
  /-- Never produced by the decoder. -/
  | depthSnapshot (snap : BinanceDepthSnapshot)
  | tradeData (t : BinanceTradeData)
deriving DecidableEq, Repr

/-! ## Bitget -/

structure BitgetBookData where
  asks : List (String × String)
  bids : List (String × String)
  ts : String
  seq : Option ℕ
  pseq : Option ℕ
deriving DecidableEq, Repr

structure BitgetBookFrame where
  action : String
  instId : String
  data : List BitgetBookData
deriving DecidableEq, Repr

structure BitgetTradeData where
  ts : String
  price : String
  size : String
  side : String
  tradeId : String
deriving DecidableEq, Repr

structure BitgetTradeFrame where
  instId : String
  data : List BitgetTradeData
deriving DecidableEq, Repr

inductive BitgetWssEvent where
  | book (frame : BitgetBookFrame)
  | trade (frame : BitgetTradeFrame)
deriving DecidableEq, Repr

/-! ## Bitso -/

structure BitsoDiffOrder where
  /-- Time of the change. -/
  d : ℕ
  /-- Rate. -/
  r : Option String
  /-- Amount. -/
  a : Option String
  /-- Side: zero for a bid. -/
  t : ℕ
  /-- Order id. -/
  o : String
  /-- Status. -/
  s : String
deriving DecidableEq, Repr

structure BitsoDiffMessage where
  book : String
  payload : List BitsoDiffOrder
  sequence : Option ℕ
deriving DecidableEq, Repr

structure BitsoTrade where
  /-- Trade id. -/
  i : ℕ
  /-- Amount. -/
  a : String
  /-- Rate. -/
  r : String
  /-- Taker side: zero for a buy, one for a sell. -/
  t : ℕ
  /-- Time. -/
  x : ℕ
deriving DecidableEq, Repr

structure BitsoTradeMessage where
  book : String
  payload : List BitsoTrade
deriving DecidableEq, Repr

inductive BitsoWssEvent where
  | diffOrders (m : BitsoDiffMessage)
  | trades (m : BitsoTradeMessage)
deriving DecidableEq, Repr

/-! ## Bybit -/

structure BybitTradeData where
  tradeTs : ℕ
  symbol : String
  side : String
  amount : String
  price : String
  tradeId : String
deriving DecidableEq, Repr

inductive BybitWssEvent where
  | tradeData (trades : List BybitTradeData)
  | liquidationData
  | orderbookData (resp : BybitOrderbookResponse)
  | tickerData
deriving DecidableEq, Repr

/-! ## Coinbase -/

structure CoinbaseTradeData where
  tradeId : String
  productId : String
  price : String
  size : String
  side : String
  time : String
deriving DecidableEq, Repr

inductive CoinbaseWssEvent where
  | orderbookData (resp : CoinbaseOrderbookResponse)
  | tradeData (trades : List CoinbaseTradeData)
  | heartbeat (sequenceNum heartbeatCounter : ℕ)
  | control (sequenceNum : ℕ)
deriving DecidableEq, Repr

/-! ## Gate.io -/

structure GateioOrderbookData where
  tsMs : ℕ
  lastUpdateId : ℤ
  symbol : String
  bids : List (String × String)
  asks : List (String × String)
deriving DecidableEq, Repr

structure GateioTradeData where
  id : ℕ
  createTime : ℤ
  createTimeMs : String
  side : String
  currencyPair : String
  amount : String
  price : String
deriving DecidableEq, Repr

inductive GateioWssEvent where
  | orderbookData (result : GateioOrderbookData)
  | tradeData (t : GateioTradeData)
deriving DecidableEq, Repr

/-! ## HTX -/

structure HtxMbpTick where
  seqNum : ℕ
  prevSeqNum : Option ℕ
  bids : List (F × F)
  asks : List (F × F)

structure HtxTradeDetail where
  ts : ℕ
  tradeId : ℕ
  price : F
  amount : F
  direction : String

inductive HtxWssEvent where
  | mbpUpdate (ch : String) (ts : ℕ) (tick : HtxMbpTick F)
  | mbpSnapshot (rep : String) (ts : ℕ) (data : HtxMbpTick F)
  /-- The newest comes first. -/
  | trade (ch : String) (data : List (HtxTradeDetail F))

/-! ## Hyperliquid -/

structure HyperliquidBook where
  coin : String
  time : ℕ
  /-- Levels, bids and then asks. -/
  levels : List (List (String × String))
deriving DecidableEq, Repr

structure HyperliquidTrade where
  coin : String
  side : String
  px : String
  sz : String
  time : ℕ
  tid : ℕ
deriving DecidableEq, Repr

structure HyperliquidAssetCtxMsg where
  coin : String
  funding : Option String
  openInterest : Option String
  markPx : Option String
  premium : Option String
deriving DecidableEq, Repr

inductive HyperliquidWssEvent where
  | book (book : HyperliquidBook)
  | trades (trades : List HyperliquidTrade)
  | assetCtx (msg : HyperliquidAssetCtxMsg)
deriving DecidableEq, Repr

/-! ## Kraken -/

structure KrakenTradeData where
  symbol : String
  side : String
  price : F
  qty : F
  tradeId : ℕ
  timestamp : String

inductive KrakenWssEvent where
  | orderbookData (resp : KrakenBookResponse)
  | tradeData (trades : List (KrakenTradeData F))

/-! ## KuCoin -/

structure KucoinL2Data where
  sequenceStart : ℕ
  sequenceEnd : ℕ
  symbol : String
  asks : List (String × String)
  bids : List (String × String)
  time : ℕ
deriving DecidableEq, Repr

structure KucoinMatchData where
  symbol : String
  side : String
  price : String
  size : String
  time : String
  tradeId : String
deriving DecidableEq, Repr

inductive KucoinWssEvent where
  | level2 (d : KucoinL2Data)
  | matched (m : KucoinMatchData)
deriving DecidableEq, Repr

/-! ## OKX -/

structure OkxOrderbookData where
  asks : List (String × String)
  bids : List (String × String)
  ts : String
  seqId : ℤ
  prevSeqId : Option ℤ
  checksum : Option ℤ
deriving DecidableEq, Repr

structure OkxOrderbookResponse where
  instId : String
  action : Option String
  data : List OkxOrderbookData
deriving DecidableEq, Repr

/-- `is_snapshot`. -/
def OkxOrderbookResponse.isSnapshot (resp : OkxOrderbookResponse) : Bool :=
  resp.action = some "snapshot" ∨ resp.action = none

structure OkxTradeData where
  instId : String
  tradeId : String
  px : String
  sz : String
  side : String
  ts : String
deriving DecidableEq, Repr

inductive OkxWssEvent where
  | orderbookData (resp : OkxOrderbookResponse)
  | tradeData (trades : List OkxTradeData)
deriving DecidableEq, Repr

/-! ## Poloniex -/

structure PoloniexBookData where
  symbol : String
  asks : List (String × String)
  bids : List (String × String)
  id : ℕ
  lastId : ℕ
  ts : ℕ
deriving DecidableEq, Repr

structure PoloniexBookFrame where
  data : List PoloniexBookData
  action : String
deriving DecidableEq, Repr

structure PoloniexTradeData where
  symbol : String
  id : String
  price : String
  quantity : String
  takerSide : String
  ts : ℕ
  createTime : ℕ
deriving DecidableEq, Repr

inductive PoloniexWssEvent where
  | book (frame : PoloniexBookFrame)
  | trades (data : List PoloniexTradeData)
deriving DecidableEq, Repr

/-! ## Upbit -/

structure UpbitBookUnit where
  askPrice : F
  bidPrice : F
  askSize : F
  bidSize : F

structure UpbitOrderbook where
  code : String
  timestamp : ℕ
  orderbookUnits : List (UpbitBookUnit F)

structure UpbitTrade where
  code : String
  tradePrice : F
  tradeVolume : F
  askBid : String
  tradeTimestamp : ℕ
  sequentialId : ℕ

inductive UpbitWssEvent where
  | orderbook (ob : UpbitOrderbook F)
  | trade (t : UpbitTrade F)

/-- **The events of a venue's decoder.** -/
def Venue.Event : Venue → Type
  | .binance => BinanceEvent
  | .bitget => BitgetWssEvent
  | .bitso => BitsoWssEvent
  | .bybit => BybitWssEvent
  | .coinbase => CoinbaseWssEvent
  | .gateio => GateioWssEvent
  | .htx => HtxWssEvent F
  | .hyperliquid => HyperliquidWssEvent
  | .kraken => KrakenWssEvent F
  | .kucoin => KucoinWssEvent
  | .okx => OkxWssEvent
  | .poloniex => PoloniexWssEvent
  | .upbit => UpbitWssEvent F
