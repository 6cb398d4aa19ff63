import Aetelier.MarketTypes

/-!
# Frames as the venue clients decode them

What a venue client hands to its worker: the order book frames of Binance,
Bybit, Coinbase and Kraken, with prices and sizes as the text they came in.
Frames of other kinds, and of the other venues, are passed on or skipped by
everything modelled here and are one constructor.
-/

/-- A diff frame of Binance. -/
structure BinanceDepthUpdate where
  /-- Event time, in milliseconds. -/
  eventTime : ℕ
  /-- Symbol. -/
  symbol : String
  /-- First update id in this event. -/
  firstUpdateId : ℕ
  /-- Final update id in this event. -/
  lastUpdateId : ℕ
  /-- Bid levels to update. -/
  bids : List (String × String)
  /-- Ask levels to update. -/
  asks : List (String × String)
deriving DecidableEq, Repr

/-- A depth snapshot of Binance, from REST. -/
structure BinanceDepthSnapshot where
  /-- Sequence marker for delta reconciliation. -/
  lastUpdateId : ℕ
  /-- Full bid book. -/
  bids : List (String × String)
  /-- Full ask book. -/
  asks : List (String × String)
deriving DecidableEq, Repr

/-- An event of the Binance client. -/
inductive BinanceWssEvent where
  /-- Incremental depth update. -/
  | depthUpdate (upd : BinanceDepthUpdate)
  /-- Full depth snapshot, never produced by the decoder. -/
  | depthSnapshot (snap : BinanceDepthSnapshot)
  /-- A trade. -/
  | tradeData
deriving DecidableEq, Repr

/-- An order book frame of Bybit. -/
structure BybitOrderbookResponse where
  /-- `snapshot` or `delta`. -/
  ty : String
  /-- Orderbook timestamp, in milliseconds. -/
  orderbookTsMs : ℕ
  /-- Symbol. -/
  symbol : String
  /-- Bid levels. -/
  bids : List (String × String)
  /-- Ask levels. -/
  asks : List (String × String)
  /-- Update id. -/
  updateId : ℕ
  /-- Cross sequence. -/
  sequence : ℕ
  /-- Timestamp of the matching engine, in milliseconds. -/
  cts : Option ℕ
deriving DecidableEq, Repr

/-- One level of a Coinbase event; a `new_quantity` of zero removes it. -/
structure CoinbaseL2Update where
  /-- `bid`, `offer` or `ask`. -/
  side : String
  /-- Price. -/
  priceLevel : String
  /-- Size at the price. -/
  newQuantity : String
deriving DecidableEq, Repr

/-- One event of a Coinbase frame. -/
structure CoinbaseL2Event where
  /-- `snapshot` or `update`. -/
  ty : String
  /-- Product. -/
  productId : String
  /-- Levels. -/
  updates : List CoinbaseL2Update
deriving DecidableEq, Repr

/-- An order book frame of Coinbase. -/
structure CoinbaseOrderbookResponse where
  /-- ISO 8601 time. -/
  timestamp : String
  /-- Sequence number of the connection. -/
  sequenceNum : ℕ
  /-- Events, of which the first is read. -/
  events : List CoinbaseL2Event
deriving DecidableEq, Repr

/-- One payload of a Kraken frame. -/
structure KrakenBookData where
  /-- Symbol. -/
  symbol : String
  /-- Bid levels. -/
  bids : List (String × String)
  /-- Ask levels. -/
  asks : List (String × String)
  /-- Checksum of the book after the frame. -/
  checksum : ℕ
  /-- ISO 8601 time. -/
  timestamp : String
deriving DecidableEq, Repr

/-- An order book frame of Kraken. -/
structure KrakenBookResponse where
  /-- `snapshot` or `update`. -/
  ty : String
  /-- Payloads, of which the first is read. -/
  data : List KrakenBookData
deriving DecidableEq, Repr

/-- An event of a venue client. -/
inductive ExchangeEvent where
  | bybit (resp : BybitOrderbookResponse)
  | coinbase (resp : CoinbaseOrderbookResponse)
  | kraken (resp : KrakenBookResponse)
  | binance (event : BinanceWssEvent)
  /-- An event of another kind or of another venue. -/
  | other
deriving DecidableEq, Repr

/-! ## Times -/

/-- A venue epoch of any unit in microseconds, classified by its
magnitude. -/
def epochToUs (v : ℕ) : ℕ :=
  if v = 0 then 0
  else if 100000000000000000 ≤ v then v / 1000
  else if 100000000000000 ≤ v then v
  else if 100000000000 ≤ v then v * 1000
  else v * 1000000
