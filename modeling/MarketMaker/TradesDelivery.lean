/-
**However trades are delivered, the same records are sent.**

A trades feed may carry a list of trades in one snapshot or in many, in updates of one group or of
several, with groups and messages empty; the handler has a branch for each kind of message.  What it
sends depends on the list alone: one record for each trade, in order, with what the trade says.

* `Delivers` — the messages deliver the trades, in order;
* `Trade.Converts` — the price and the size of a trade convert;
* `delivery_irrelevant` — **every delivery of the trades sends the same records**, one for each.
-/

import MarketMaker.TradesFeed

set_option relaxedAutoImplicit false
set_option autoImplicit false

namespace MarketMaker

variable {D : Type} [DecimalText D]

/-- The messages deliver the trades, in order. -/
def Delivers (trades : List Trade) (msgs : List TradesMessage) : Prop :=
  msgs.flatMap TradesMessage.trades = trades

/-- The price and the size of the trade convert. -/
def Trade.Converts (D : Type) [DecimalText D] (trade : Trade) : Prop :=
  (bigDecimalToDecimal trade.price.inner : Option D).isSome ∧
    (bigDecimalToDecimal trade.size.inner : Option D).isSome

theorem Trade.Converts.exists_tradeToCcxt {trade : Trade} (h : trade.Converts D) (symbol : String) :
    ∃ t : CcxtTrade D, tradeToCcxt symbol trade = some t := by
  obtain ⟨price, hprice⟩ := Option.isSome_iff_exists.1 h.1
  obtain ⟨amount, hamount⟩ := Option.isSome_iff_exists.1 h.2
  rw [tradeToCcxt, hprice, hamount]
  exact ⟨_, rfl⟩

/-- Trades that convert are converted one by one. -/
theorem exists_mapM_tradeToCcxt (symbol : String) {trades : List Trade}
    (h : ∀ trade ∈ trades, trade.Converts D) :
    ∃ sent : List (CcxtTrade D), trades.mapM (tradeToCcxt symbol) = some sent ∧
      List.Forall₂ (Carries symbol) trades sent := by
  induction trades with
  | nil => exact ⟨[], rfl, List.Forall₂.nil⟩
  | cons trade trades ih =>
      obtain ⟨t, ht⟩ := (h trade (List.mem_cons_self ..)).exists_tradeToCcxt symbol
      obtain ⟨sent, hsent, hcarries⟩ := ih fun t ht => h t (List.mem_cons_of_mem _ ht)
      exact ⟨t :: sent, by simp [ht, hsent],
        List.Forall₂.cons (tradeToCcxt_eq_some_iff.1 ht) hcarries⟩

/-- **What is sent is the conversion of all the trades**, message by message. -/
theorem sentTrades_of_mapM {symbol : String} {msgs : List TradesMessage} {sent : List (CcxtTrade D)}
    (h : (msgs.flatMap TradesMessage.trades).mapM (tradeToCcxt symbol) = some sent) :
    (handledMessages D symbol msgs).flatMap (sentTrades D symbol) = sent := by
  induction msgs generalizing sent with
  | nil => exact Option.some.inj h
  | cons m msgs ih =>
      rw [List.flatMap_cons, List.mapM_append, Option.bind_eq_bind, Option.bind_eq_some_iff] at h
      obtain ⟨first, hfirst, h⟩ := h
      obtain ⟨rest, hrest, h⟩ := Option.bind_eq_some_iff.1 h
      obtain rfl := Option.some.inj h
      rw [handledMessages, List.takeWhile_cons_of_pos (by simp [hfirst]), List.flatMap_cons,
        sentTrades, hfirst, Option.getD_some]
      exact congrArg (first ++ ·) (ih hrest)

/-- **Every delivery sends the same records**: for every list of trades that convert there is one
list of records, one for each trade in order that carries what the trade says, and this is what the
handler sends however the trades are delivered. -/
theorem delivery_irrelevant (symbol : String) (trades : List Trade)
    (h : ∀ trade ∈ trades, trade.Converts D) :
    ∃ sent : List (CcxtTrade D), List.Forall₂ (Carries symbol) trades sent ∧
      ∀ msgs, Delivers trades msgs → ∀ fuel, msgs.length ≤ fuel →
        (handleTradesFeed symbol fuel msgs).1 = sent := by
  obtain ⟨sent, hsent, hcarries⟩ := exists_mapM_tradeToCcxt (D := D) symbol h
  refine ⟨sent, hcarries, fun msgs hmsgs fuel hfuel => ?_⟩
  rw [sent_handleTradesFeed symbol hfuel]
  exact sentTrades_of_mapM (hmsgs ▸ hsent)

/-- A trade with a given identifier. -/
private def tradeNamed (id : String) : Trade := ⟨id, ⟨0⟩, .sell, ⟨⟨100, 0⟩⟩, ⟨⟨1, 0⟩⟩⟩

/-- Two trades in one update, and in a snapshot and an update with an empty group. -/
theorem delivery_irrelevant_sample :
    (handleTradesFeed (D := ℚ) "BTC-USD" 1 [.update [[tradeNamed "a", tradeNamed "b"]]]).1 =
      (handleTradesFeed (D := ℚ) "BTC-USD" 2
        [.initial [tradeNamed "a"], .update [[], [tradeNamed "b"]]]).1 := by
  obtain ⟨sent, -, hsent⟩ := delivery_irrelevant (D := ℚ) "BTC-USD"
    [tradeNamed "a", tradeNamed "b"] (by unfold Trade.Converts; decide +kernel)
  have hone := hsent [.update [[tradeNamed "a", tradeNamed "b"]]] rfl 1 le_rfl
  have htwo := hsent [.initial [tradeNamed "a"], .update [[], [tradeNamed "b"]]] rfl 2 le_rfl
  exact hone.trans htwo.symm

end MarketMaker
