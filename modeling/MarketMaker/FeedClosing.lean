/-
**What the feed handlers do when their feed closes.**

Each of the three handlers is a loop around one `recv`.  Once the feed has closed every further
`recv` answers `none`, and the loop ends only if the handler leaves it there.  The order-book and
the subaccount handlers do; the trades handler takes the closed feed for an empty message and goes
round again, for ever.

* `ClosingFeed` — a feed with the messages it delivers before it closes;
* `ClosingFeed.Returns` — its handler returns, having sent the outputs of all the messages;
* `ClosingFeed.trades_feed_never_returns` — an empty trades feed whose handler does not return;
* `ClosingFeed.returns_iff_not_trades` — **a handler returns if and only if it is not that of a
  trades feed**.
-/

import MarketMaker.OrderBookFeed
import MarketMaker.SubaccountSends
import MarketMaker.TradesFeed

set_option relaxedAutoImplicit false
set_option autoImplicit false

namespace MarketMaker

/-- A feed, with the messages it delivers before it closes. -/
inductive ClosingFeed
  | trades (symbol : String) (msgs : List TradesMessage)
  | orderBook (symbol : String) (msgs : List OrdersMessage)
  | subaccount (msgs : List SubaccountsMessage)

namespace ClosingFeed

variable (D : Type) (F : outParam Type) [DecimalText D] [DecimalOps D] [ToF64 D F]

/-- The numbers the messages of the feed carry convert. -/
def Converts : ClosingFeed → Prop
  | trades symbol msgs =>
      ∀ m ∈ msgs, (tradesOf symbol (some m) : Option (List (CcxtTrade D))).isSome
  | orderBook _ msgs => Convertible D msgs
  | subaccount msgs => ∀ m ∈ msgs, m.Converts D

/-- **The handler of the feed returns**: after some number of iterations it has left its loop, and
what it has sent is what the messages, handled one after another, make it send. -/
def Returns : ClosingFeed → Prop
  | trades symbol msgs => ∃ fuel, handleTradesFeed (D := D) symbol fuel msgs =
      ((ReceiveLoop.onMessages (onTradesMessage symbol) () msgs).sent, .returned)
  | orderBook symbol msgs => ∃ fuel, handleOrderBookFeed (D := D) symbol fuel msgs =
      ((ReceiveLoop.onMessages (onOrdersMessage symbol) OrderBook.default msgs).sent, .returned)
  | subaccount msgs => ∃ fuel, handleSubaccountFeed (D := D) (F := F) fuel msgs =
      ((ReceiveLoop.onMessages onSubaccountsMessage () msgs).sent, .returned)

/-- The feed is a trades feed. -/
def IsTrades : ClosingFeed → Prop
  | trades _ _ => True
  | orderBook _ _ => False
  | subaccount _ => False

/-- **A handler returns if and only if it is not that of a trades feed**, provided the numbers
received convert. -/
theorem returns_iff_not_trades (feed : ClosingFeed) (h : feed.Converts D) :
    feed.Returns D F ↔ ¬ feed.IsTrades := by
  cases feed with
  | trades symbol msgs =>
      refine iff_of_false ?_ (fun hn => hn trivial)
      rintro ⟨fuel, hfuel⟩
      exact handleTradesFeed_ne_returned (D := D) symbol fuel msgs (by rw [hfuel])
  | orderBook symbol msgs =>
      refine iff_of_true ?_ id
      exact ⟨msgs.length + 1, handleOrderBookFeed_eq h symbol (Nat.lt_succ_self _)⟩
  | subaccount msgs =>
      refine iff_of_true ?_ id
      exact ⟨msgs.length + 1, handleSubaccountFeed_returns h (Nat.lt_succ_self _)⟩

/-- A snapshot of both sides, a better bid, and the removal of the ask. -/
private def closingOrders : List OrdersMessage :=
  [.initial 1 [⟨⟨⟨100, 0⟩⟩, ⟨⟨5, 0⟩⟩⟩] [⟨⟨⟨1015, 1⟩⟩, ⟨⟨2, 0⟩⟩⟩],
    .update 2 (some [⟨⟨⟨1005, 1⟩⟩, ⟨⟨3, 0⟩⟩⟩]) none,
    .update 3 none (some [⟨⟨⟨1015, 1⟩⟩, ⟨⟨0, 0⟩⟩⟩])]

/-- A snapshot of an account with a balance and a position, and a report of both. -/
private def closingReports : List SubaccountsMessage :=
  [.initial ⟨⟨1000, 0⟩, (∅ : AList fun _ : String => AssetPosition).insert "USDC" ⟨⟨⟨7, 0⟩⟩⟩,
      (∅ : AList fun _ : String => PerpetualPosition).insert "BTC-USD"
        ⟨"BTC-USD", .long, ⟨⟨2, 0⟩⟩, ⟨⟨100, 0⟩⟩, ⟨15, 1⟩⟩⟩,
    .update [⟨some [⟨"USDC", ⟨⟨5, 0⟩⟩⟩], some [⟨"7f", "BTC-USD", .long, ⟨⟨3, 0⟩⟩, ⟨⟨101, 0⟩⟩,
      none⟩]⟩]]

/-- A snapshot of a trade, and another one. -/
private def closingTrades : List TradesMessage :=
  [.initial [⟨"a", ⟨0⟩, .buy, ⟨⟨1005, 1⟩⟩, ⟨⟨1, 0⟩⟩⟩],
    .update [[⟨"b", ⟨1000000⟩, .sell, ⟨⟨101, 0⟩⟩, ⟨⟨25, 2⟩⟩⟩], []]]

/-- Of the three handlers, the one of the trades does not return. -/
theorem returns_iff_not_trades_sample :
    letI := exactOps fun _ => none
    (orderBook "BTC-USD" closingOrders).Returns ℚ ℚ ∧ (subaccount closingReports).Returns ℚ ℚ ∧
      ¬ (trades "BTC-USD" closingTrades).Returns ℚ ℚ := by
  let : DecimalOps ℚ := exactOps fun _ => none
  have horders : (orderBook "BTC-USD" closingOrders).Converts ℚ := by
    unfold Converts Convertible
    decide +kernel
  have hreports : (subaccount closingReports).Converts ℚ := by
    unfold Converts SubaccountsMessage.Converts
    decide +kernel
  have htrades : (trades "BTC-USD" closingTrades).Converts ℚ := by
    unfold Converts
    decide +kernel
  exact ⟨(returns_iff_not_trades ℚ ℚ _ horders).2 id, (returns_iff_not_trades ℚ ℚ _ hreports).2 id,
    fun hreturns => (returns_iff_not_trades ℚ ℚ _ htrades).1 hreturns trivial⟩

/-- **A trades handler whose feed closes at once never returns.** -/
theorem trades_feed_never_returns :
    letI := exactOps fun _ => none
    (trades "BTC-USD" []).Converts ℚ ∧ ¬ (trades "BTC-USD" []).Returns ℚ ℚ := by
  refine ⟨by simp [Converts], ?_⟩
  rintro ⟨fuel, hfuel⟩
  exact handleTradesFeed_ne_returned (D := ℚ) "BTC-USD" fuel [] (by rw [hfuel])

end ClosingFeed

end MarketMaker
