import Aetelier.Decimal
import Aetelier.TradingPair

/-!
# The records that flow through the engine

Normalized book updates, reconstructed order books, and the market events a
synchronizer aligns: trades, liquidations, funding rates, open interest and
funding settlements. Identifiers and timestamps are `u64` counters in the
source and natural numbers here.
-/

/-! ## Book updates -/

/-- One per-order change of an L3 venue, keyed by order id. -/
structure L3Order where
  /-- Venue order id. -/
  orderId : String
  /-- `true` for the ask side. -/
  isAsk : Bool
  /-- Order price, as text. -/
  price : String
  /-- Order size, as text; ignored when `removed`. -/
  size : String
  /-- The order left the book. -/
  removed : Bool
deriving DecidableEq, Repr

/-- **An exchange-agnostic book update**: a snapshot or an incremental
delta. -/
structure NormalizedDelta where
  /-- Trading pair symbol. -/
  symbol : String
  /-- Bid levels, price and size as text. -/
  bids : List (String × String)
  /-- Ask levels, price and size as text. -/
  asks : List (String × String)
  /-- Update id. -/
  updateId : ℕ
  /-- The other sequence number of the update: the first id of a range, or
  a pointer to the preceding update. -/
  sequence : ℕ
  /-- Exchange event time, `0` if unknown. -/
  sourceOrderbookTsUs : ℕ := 0
  /-- Local receipt time. -/
  localOrderbookTsUs : ℕ := 0
  /-- Round trip of the connection. -/
  sourceOrderbookRttUs : ℕ := 0
  /-- Checksum the venue reports for the book after the update. -/
  checksum : Option ℤ := none
  /-- Per-order changes of an L3 venue. -/
  orders : List L3Order := []
  /-- Full reset rather than increment. -/
  isSnapshot : Bool
deriving DecidableEq, Repr

/-! ## Books -/

/-- The side of an order book. -/
inductive OrderSide where
  | bids
  | asks
deriving DecidableEq, Repr

/-- A price level of an emitted book. The per-order list of the source is
always empty on the paths modelled here and is left out. -/
structure Level where
  /-- Rank of the level, best first. -/
  levelId : ℕ
  /-- Side of the level. -/
  side : OrderSide
  /-- Price. -/
  price : Decimal
  /-- Total volume at the price. -/
  volume : Decimal
deriving DecidableEq, Repr

/-- **An order book as it is handed downstream.** -/
structure Orderbook where
  /-- Identifier of the snapshot. -/
  orderbookId : ℕ
  /-- Timestamp of the snapshot. -/
  orderbookTsUs : ℕ
  /-- Exchange event time of the last applied update. -/
  sourceOrderbookTsUs : ℕ
  /-- Local receipt time of the last applied update. -/
  localOrderbookTsUs : ℕ
  /-- Round trip at the last applied update. -/
  sourceOrderbookRttUs : ℕ
  /-- Trading pair. -/
  pair : TradingPair
  /-- Exchange name. -/
  exchange : String
  /-- Bid levels by price. -/
  bids : PriceMap Level
  /-- Ask levels by price. -/
  asks : PriceMap Level
deriving DecidableEq

namespace Orderbook

/-- Build a book from its levels, each stored at its price. -/
def fromLevels (orderbookId orderbookTsUs : ℕ) (pair : TradingPair) (exchange : String)
    (bids asks : List Level) : Orderbook where
  orderbookId := orderbookId
  orderbookTsUs := orderbookTsUs
  sourceOrderbookTsUs := 0
  localOrderbookTsUs := 0
  sourceOrderbookRttUs := 0
  pair := pair
  exchange := exchange
  bids := OrdMap.ofList (bids.map (fun l => (l.price, l)))
  asks := OrdMap.ofList (asks.map (fun l => (l.price, l)))

/-- The book with no levels and zero timestamps. -/
def empty (pair : TradingPair) (exchange : String) : Orderbook :=
  fromLevels 0 0 pair exchange [] []

end Orderbook

/-! ## Market events -/

/-- Taker side of a trade. -/
inductive TradeSide where
  | buy
  | sell
deriving DecidableEq, Repr

/-- The text of a side. -/
def TradeSide.asStr : TradeSide → String
  | .buy => "buy"
  | .sell => "sell"

/-- Where a trade print came from. -/
inductive TradeOrigin where
  /-- The live stream. -/
  | ws
  /-- Recovered over REST. -/
  | rest
deriving DecidableEq, Repr

/-- A public trade print. -/
structure Trade where
  /-- Exchange-reported match time. -/
  sourceTradeTsUs : ℕ
  /-- Local receipt time. -/
  localTradeTsUs : ℕ := 0
  /-- Round trip of the connection. -/
  sourceTradeRttUs : ℕ := 0
  /-- Trading pair. -/
  pair : TradingPair
  /-- Taker side. -/
  side : TradeSide
  /-- Filled quantity. -/
  amount : Decimal
  /-- Execution price. -/
  price : Decimal
  /-- Exchange name. -/
  exchange : String
  /-- Exchange-assigned identifier. -/
  id : String
  /-- Live or recovered. -/
  origin : TradeOrigin := TradeOrigin.ws
deriving DecidableEq, Repr

/-- A forced liquidation. -/
structure Liquidation where
  /-- When it occurred. -/
  liquidationTsUs : ℕ
  /-- Trading pair. -/
  pair : TradingPair
  /-- Side being liquidated. -/
  side : TradeSide
  /-- Liquidated quantity. -/
  amount : Decimal
  /-- Fill price. -/
  price : Decimal
  /-- Exchange name. -/
  exchange : String
deriving DecidableEq, Repr

/-- A funding rate observation. -/
structure FundingRate where
  /-- Exchange event time, `0` if unknown. -/
  fundingRateTsUs : ℕ
  /-- Local receipt time. -/
  localFundingTsUs : ℕ
  /-- Receive counter of the connection. -/
  recvSeq : ℕ
  /-- Epoch of the connection. -/
  connEpochUs : ℕ
  /-- Trading pair. -/
  pair : TradingPair
  /-- The rate. -/
  fundingRate : Decimal
  /-- Premium, if reported. -/
  premium : Option Decimal
  /-- Hours between fundings. -/
  intervalHours : ℕ
  /-- Next funding time. -/
  nextFundingTsUs : ℕ
  /-- Exchange name. -/
  exchange : String
deriving DecidableEq, Repr

/-- The exchange time of a funding rate, or its receipt time where the
exchange gives none. -/
def FundingRate.effectiveTsUs (fr : FundingRate) : ℕ :=
  if fr.fundingRateTsUs > 0 then fr.fundingRateTsUs else fr.localFundingTsUs

/-- An open-interest observation. -/
structure OpenInterest where
  /-- Exchange event time, `0` if unknown. -/
  openInterestTsUs : ℕ
  /-- Local receipt time. -/
  localOiTsUs : ℕ
  /-- Receive counter of the connection. -/
  recvSeq : ℕ
  /-- Epoch of the connection. -/
  connEpochUs : ℕ
  /-- Trading pair. -/
  pair : TradingPair
  /-- Open contracts. -/
  openInterest : Decimal
  /-- Their value, if reported. -/
  openInterestValue : Option Decimal
  /-- Mark price, if reported. -/
  markPx : Option Decimal
  /-- Exchange name. -/
  exchange : String
deriving DecidableEq, Repr

/-- The exchange time of an open-interest record, or its receipt time where
the exchange gives none. -/
def OpenInterest.effectiveTsUs (oi : OpenInterest) : ℕ :=
  if oi.openInterestTsUs > 0 then oi.openInterestTsUs else oi.localOiTsUs

/-- A funding payment that was settled. -/
structure FundingSettlement where
  /-- Venue settlement time. -/
  fundingTimeUs : ℕ
  /-- Local receipt time. -/
  localTsUs : ℕ
  /-- Round trip of the request. -/
  rttUs : ℕ
  /-- Trading pair. -/
  pair : TradingPair
  /-- The rate settled. -/
  fundingRate : Decimal
  /-- Premium, if reported. -/
  premium : Option Decimal
  /-- Exchange name. -/
  exchange : String
deriving DecidableEq, Repr

/-! ## Rows -/

/-- **One grid row**: the market at a grid-aligned timestamp. -/
structure MarketSnapshot where
  /-- Grid-aligned timestamp. -/
  tsUs : ℕ
  /-- The book as of the boundary, if any. -/
  orderbook : Option Orderbook
  /-- Trades of the period. -/
  trades : List Trade
  /-- Liquidations of the period. -/
  liquidations : List Liquidation
  /-- Funding rates of the period. -/
  fundingRate : List FundingRate
  /-- Open interest of the period. -/
  openInterest : List OpenInterest
  /-- Funding settlements of the period. -/
  fundingSettlements : List FundingSettlement
deriving DecidableEq
