/-
**The unified records of the exchange interface, and the messages of the exchange's client.**

The `Ccxt` records are what the exchange hands to the rest of the program; the message types are
those of the exchange's client, reduced to the fields the feed handlers read.  A record keeps the
fields some handler sets or reads; a field that is only ever left at its default, and the
wall-clock stamps of balances and positions, which nothing reads, are omitted.

* `CcxtTrade`, `CcxtOrderBook`, `CcxtBalance`, `CcxtPosition`, `CcxtMessage` — the records;
* `TradesMessage`, `OrdersMessage`, `SubaccountsMessage` — the messages of the three feeds.
-/

import MarketMaker.Decimal
import Mathlib.Data.List.AList

set_option relaxedAutoImplicit false
set_option autoImplicit false

namespace MarketMaker

/-! ### The unified records -/

inductive CcxtOrderSide
  | buy
  | sell
deriving DecidableEq, Repr

inductive CcxtPositionSide
  | long
  | short
deriving DecidableEq, Repr

/-- A point in time, in nanoseconds since the epoch. -/
structure DateTime where
  nanos : ℤ
deriving DecidableEq, Repr

/-- The whole milliseconds since the epoch. -/
def DateTime.timestampMillis (t : DateTime) : ℤ := t.nanos / 1000000

structure CcxtTrade (D : Type) where
  id : String
  timestamp : ℤ
  datetime : DateTime
  symbol : String
  order : Option String
  side : Option CcxtOrderSide
  price : D
  amount : D
deriving DecidableEq, Repr

structure CcxtOrderBookLevel (D : Type) where
  price : D
  amount : D
deriving DecidableEq, Repr

structure CcxtOrderBook (D : Type) where
  bids : List (CcxtOrderBookLevel D)
  asks : List (CcxtOrderBookLevel D)
  symbol : String
  timestamp : Option ℤ := none
  datetime : Option DateTime := none
  nonce : Option UInt64
deriving DecidableEq, Repr

structure CcxtBalance (F : Type) where
  free : AList fun _ : String => F

structure CcxtPosition (D : Type) where
  id : String
  symbol : String
  side : CcxtPositionSide
  contracts : D
  contractSize : D
  entryPrice : D
  unrealizedPnl : D
  liquidationPrice : D
deriving DecidableEq, Repr

/-- A message for the strategy.  Nothing reads an order, so it carries no payload here. -/
inductive CcxtMessage (D F : Type)
  | ccxtEmpty
  | ccxtBalance (update : CcxtBalance F)
  | ccxtOrderBook (update : CcxtOrderBook D)
  | ccxtOrder
  | ccxtPosition (update : CcxtPosition D)
  | ccxtTrade (update : CcxtTrade D)

/-! ### The messages of the exchange's client -/

inductive OrderSide
  | buy
  | sell
deriving DecidableEq, Repr

/-- The sides of the client and of the unified records are the same two. -/
def CcxtOrderSide.from : OrderSide → CcxtOrderSide
  | .buy => .buy
  | .sell => .sell

inductive PositionSide
  | long
  | short
deriving DecidableEq, Repr

/-- A trade, as snapshots and updates list it. -/
structure Trade where
  id : String
  createdAt : DateTime
  side : OrderSide
  price : Price
  size : Quantity
deriving DecidableEq, Repr

/-- A message of a trades feed: a snapshot with one list of trades, or an update with several
groups of them. -/
inductive TradesMessage
  | initial (trades : List Trade)
  | update (contents : List (List Trade))
deriving DecidableEq, Repr

structure OrderbookResponsePriceLevel where
  price : Price
  size : Quantity
deriving DecidableEq, Repr

/-- A message of an order-book feed: a snapshot of both sides, or an update in which a side may be
absent. -/
inductive OrdersMessage
  | initial (messageId : UInt64) (bids asks : List OrderbookResponsePriceLevel)
  | update (messageId : UInt64) (bids asks : Option (List OrderbookResponsePriceLevel))
deriving DecidableEq, Repr

structure AssetPosition where
  size : Quantity
deriving DecidableEq, Repr

structure PerpetualPosition where
  market : String
  side : PositionSide
  size : Quantity
  entryPrice : Price
  unrealizedPnl : BigDecimal
deriving DecidableEq, Repr

/-- A snapshot of a subaccount.  The two maps are listed in the order in which they iterate. -/
structure Subaccount where
  freeCollateral : BigDecimal
  assetPositions : AList fun _ : String => AssetPosition
  openPerpetualPositions : AList fun _ : String => PerpetualPosition

structure AssetPositionUpdate where
  symbol : String
  size : Quantity
deriving DecidableEq, Repr

structure PerpetualPositionUpdate where
  positionId : String
  market : String
  side : PositionSide
  size : Quantity
  entryPrice : Price
  unrealizedPnl : Option BigDecimal
deriving DecidableEq, Repr

structure SubaccountUpdate where
  assetPositions : Option (List AssetPositionUpdate)
  perpetualPositions : Option (List PerpetualPositionUpdate)
deriving DecidableEq, Repr

/-- A message of the subaccount feed. -/
inductive SubaccountsMessage
  | initial (subaccount : Subaccount)
  | update (contents : List SubaccountUpdate)

end MarketMaker
