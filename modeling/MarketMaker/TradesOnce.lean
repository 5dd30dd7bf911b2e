/-
**When each trade is sent once.**

The handler of a trades feed sends every trade of every message.  A snapshot that comes again lists
trades that were sent already, and they are sent again, with nothing to tell them from new ones.

* `tradeIds` — the identifiers of the trades the messages list;
* `repeated_snapshot_is_sent_twice` — two snapshots with one trade;
* `trades_sent_once_iff` — **every trade is sent at most once if and only if none is listed twice**.
-/

import MarketMaker.TradesFeed
import Mathlib.Data.List.TakeWhile

set_option relaxedAutoImplicit false
set_option autoImplicit false

namespace MarketMaker

variable {D : Type} [DecimalText D]

/-- The identifiers of the trades the messages list. -/
def tradeIds (msgs : List TradesMessage) : List String :=
  msgs.flatMap fun m => m.trades.map Trade.id

/-- Conversion keeps the identifiers. -/
theorem map_id_of_mapM_tradeToCcxt {symbol : String} {trades : List Trade}
    {sent : List (CcxtTrade D)} (h : trades.mapM (tradeToCcxt symbol) = some sent) :
    sent.map CcxtTrade.id = trades.map Trade.id := by
  have hcarries := forall₂_carries h
  clear h
  induction hcarries with
  | nil => rfl
  | cons hcarries _ ih => rw [List.map_cons, List.map_cons, hcarries.id, ih]

/-- The identifiers sent are those listed by the messages that are handled. -/
theorem map_id_handleTradesFeed (symbol : String) {msgs : List TradesMessage} {fuel : ℕ}
    (hfuel : msgs.length ≤ fuel) :
    (handleTradesFeed (D := D) symbol fuel msgs).1.map CcxtTrade.id =
      tradeIds (handledMessages D symbol msgs) := by
  rw [sent_handleTradesFeed symbol hfuel, List.map_flatMap, tradeIds]
  refine List.flatMap_congr fun m hm => ?_
  have hsome := List.mem_takeWhile_imp hm
  obtain ⟨trades, htrades⟩ := Option.isSome_iff_exists.1 hsome
  rw [sentTrades, htrades, Option.getD_some, map_id_of_mapM_tradeToCcxt htrades]

/-- **When each trade is sent at most once**: exactly when, in the messages before the first with a
trade that does not convert, no identifier is listed twice. -/
theorem trades_sent_once_iff (symbol : String) (msgs : List TradesMessage) (fuel : ℕ)
    (hfuel : msgs.length ≤ fuel) :
    ((handleTradesFeed (D := D) symbol fuel msgs).1.map CcxtTrade.id).Nodup ↔
      (tradeIds (handledMessages D symbol msgs)).Nodup := by
  rw [map_id_handleTradesFeed symbol hfuel]

/-- A trade with a given identifier. -/
private def tradeOf (id : String) : Trade := ⟨id, ⟨0⟩, .buy, ⟨⟨100, 0⟩⟩, ⟨⟨1, 0⟩⟩⟩

/-- **A trade of a snapshot that comes again is sent twice.** -/
theorem repeated_snapshot_is_sent_twice :
    (handleTradesFeed (D := ℚ) "BTC-USD" 2
        [.initial [tradeOf "a"], .initial [tradeOf "a"]]).1.map CcxtTrade.id = ["a", "a"] ∧
      ¬ ((handleTradesFeed (D := ℚ) "BTC-USD" 2
        [.initial [tradeOf "a"], .initial [tradeOf "a"]]).1.map CcxtTrade.id).Nodup := by
  refine ⟨by decide +kernel, by decide +kernel⟩

/-- A snapshot and an update with different trades. -/
theorem trades_sent_once_iff_sample :
    ((handleTradesFeed (D := ℚ) "BTC-USD" 2
      [.initial [tradeOf "a"], .update [[tradeOf "b"], [tradeOf "c"]]]).1.map CcxtTrade.id).Nodup :=
  (trades_sent_once_iff "BTC-USD" [.initial [tradeOf "a"], .update [[tradeOf "b"], [tradeOf "c"]]]
    2 (by decide)).2 (by decide +kernel)

end MarketMaker
