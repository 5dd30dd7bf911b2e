/-
**The trades feed.**

A snapshot lists trades, an update lists groups of trades; both branches of the handler convert
every trade they find and then send the results in order.  On a closed feed the handler has no
trades to send and goes round its loop again.

* `tradeToCcxt`, `tradesOf` — the conversion of a trade and of the trades of a message;
* `handleTradesFeed` — the handler;
* `Carries`, `tradeToCcxt_eq_some_iff` — **the conversion writes the record that carries what the
  trade says**;
* `handleTradesFeed_ne_returned` — **the handler never returns**;
* `sent_handleTradesFeed` — **it sends the trades of the messages**, up to the first message with a
  trade that does not convert.
-/

import MarketMaker.Ccxt
import MarketMaker.ReceiveLoop
import Mathlib.Data.List.Forall2
import Mathlib.Data.List.TakeWhile

set_option relaxedAutoImplicit false
set_option autoImplicit false

namespace MarketMaker

variable {D : Type} [DecimalText D]

/-! ### The handler -/

/-- A trade as a unified record. -/
def tradeToCcxt (symbol : String) (trade : Trade) : Option (CcxtTrade D) := do
  let price ← bigDecimalToDecimal trade.price.inner
  let amount ← bigDecimalToDecimal trade.size.inner
  some {
    id := trade.id
    timestamp := trade.createdAt.timestampMillis
    datetime := trade.createdAt
    symbol := symbol
    order := some trade.id
    side := some (CcxtOrderSide.from trade.side)
    price := price
    amount := amount }

/-- The unified trades of a message; a closed feed has none. -/
def tradesOf (symbol : String) : Option TradesMessage → Option (List (CcxtTrade D))
  | some (.initial trades) => trades.mapM (tradeToCcxt symbol)
  | some (.update contents) =>
      (contents.mapM fun update => List.mapM (tradeToCcxt symbol) update).map List.flatten
  | none => some []

/-- One iteration of the handler: convert the trades received, then send them.  The loop is never
left, a closed feed included. -/
def tradesFeedBody (symbol : String) (_ : Unit) (received : Option TradesMessage) :
    Sends (CcxtTrade D) (LoopFlow Unit) := do
  let trades ← Sends.unwrap (tradesOf symbol received)
  trades.forM Sends.send
  pure (.next ())

/-- What the handler does with a message. -/
def onTradesMessage (symbol : String) (_ : Unit) (message : TradesMessage) :
    Sends (CcxtTrade D) Unit := do
  let trades ← Sends.unwrap (tradesOf symbol (some message))
  trades.forM Sends.send

/-- The handler of a trades feed, for `fuel` iterations. -/
def handleTradesFeed (symbol : String) (fuel : ℕ) (feed : List TradesMessage) :
    List (CcxtTrade D) × Exit :=
  ReceiveLoop.loop (tradesFeedBody symbol) fuel () feed

/-- The record carries what the trade says, and the symbol of the handler. -/
structure Carries (symbol : String) (trade : Trade) (t : CcxtTrade D) : Prop where
  id : t.id = trade.id
  timestamp : t.timestamp = trade.createdAt.timestampMillis
  datetime : t.datetime = trade.createdAt
  symbol : t.symbol = symbol
  order : t.order = some trade.id
  side : t.side = some (CcxtOrderSide.from trade.side)
  price : bigDecimalToDecimal trade.price.inner = some t.price
  amount : bigDecimalToDecimal trade.size.inner = some t.amount

/-- **The conversion writes the record that carries what the trade says.** -/
theorem tradeToCcxt_eq_some_iff {symbol : String} {trade : Trade} {t : CcxtTrade D} :
    tradeToCcxt symbol trade = some t ↔ Carries symbol trade t := by
  simp only [tradeToCcxt, Option.bind_eq_bind, Option.bind_eq_some_iff, Option.some.injEq]
  constructor
  · rintro ⟨price, hprice, amount, hamount, rfl⟩
    exact ⟨rfl, rfl, rfl, rfl, rfl, rfl, hprice, hamount⟩
  · rintro ⟨hid, htimestamp, hdatetime, hsymbol, horder, hside, hprice, hamount⟩
    refine ⟨t.price, hprice, t.amount, hamount, ?_⟩
    rw [← hid, ← htimestamp, ← hdatetime, ← hside]
    obtain ⟨id, timestamp, datetime, symbol', order, side, price, amount⟩ := t
    subst hsymbol horder hid
    rfl

/-! ### The loop is never left -/

/-- An iteration either panics or goes on. -/
theorem tradesFeedBody_ne_stop (symbol : String) (received : Option TradesMessage) :
    (tradesFeedBody (D := D) symbol () received).result ≠ some .stop := by
  intro h
  unfold tradesFeedBody at h
  cases htr : (tradesOf symbol received : Option (List (CcxtTrade D))) with
  | none => simp [htr] at h
  | some trades =>
      rw [htr, Sends.unwrap_some_bind] at h
      obtain ⟨u, hu⟩ := Option.isSome_iff_exists.1
        (Sends.succeeds_forM (l := trades) (f := Sends.send) fun t _ => Sends.succeeds_send t)
      rw [Sends.bind_of_result hu] at h
      simp [Sends.pure_def] at h

/-- **The handler never returns**, whatever the feed and however many iterations it is given. -/
theorem handleTradesFeed_ne_returned (symbol : String) (fuel : ℕ) (feed : List TradesMessage) :
    (handleTradesFeed (D := D) symbol fuel feed).2 ≠ .returned :=
  ReceiveLoop.loop_ne_returned (fun _ => tradesFeedBody_ne_stop symbol) fuel () feed

/-! ### What is sent -/

/-- The trades a message lists. -/
def TradesMessage.trades : TradesMessage → List Trade
  | .initial trades => trades
  | .update contents => contents.flatten

theorem tradesOf_some (symbol : String) (m : TradesMessage) :
    (tradesOf symbol (some m) : Option (List (CcxtTrade D))) =
      m.trades.mapM (tradeToCcxt symbol) := by
  cases m with
  | initial trades => rfl
  | update contents =>
      rw [tradesOf, TradesMessage.trades]
      induction contents with
      | nil => rfl
      | cons update contents ih =>
          rw [List.flatten_cons, List.mapM_append, ← ih, List.mapM_cons]
          cases update.mapM (tradeToCcxt (D := D) symbol) <;>
            cases contents.mapM fun update => update.mapM (tradeToCcxt (D := D) symbol) <;> rfl

/-- The messages that are handled: those before the first with a trade that does not convert. -/
def handledMessages (D : Type) [DecimalText D] (symbol : String) (msgs : List TradesMessage) :
    List TradesMessage :=
  msgs.takeWhile fun m => (m.trades.mapM (tradeToCcxt (D := D) symbol)).isSome

/-- The trades of a message that is handled. -/
def sentTrades (D : Type) [DecimalText D] (symbol : String) (m : TradesMessage) :
    List (CcxtTrade D) :=
  (m.trades.mapM (tradeToCcxt symbol)).getD []

theorem onTradesMessage_eq {symbol : String} {m : TradesMessage} {trades : List (CcxtTrade D)}
    (h : m.trades.mapM (tradeToCcxt symbol) = some trades) :
    onTradesMessage symbol () m = ⟨trades, some ()⟩ := by
  have hsend : trades.forM Sends.send = ⟨trades.flatMap fun t => [t], some ()⟩ :=
    Sends.forM_eq fun t _ => rfl
  rw [onTradesMessage, tradesOf_some, h, Sends.unwrap_some_bind, hsend, ← List.map_eq_flatMap,
    List.map_id']

theorem sent_onTradesMessages (symbol : String) (msgs : List TradesMessage) :
    (ReceiveLoop.onMessages (onTradesMessage (D := D) symbol) () msgs).sent =
      (handledMessages D symbol msgs).flatMap (sentTrades D symbol) := by
  induction msgs with
  | nil => rfl
  | cons m msgs ih =>
      rw [ReceiveLoop.onMessages_cons, handledMessages]
      cases h : m.trades.mapM (tradeToCcxt (D := D) symbol) with
      | none =>
          have hpanic : (onTradesMessage (D := D) symbol () m).result = none := by
            rw [onTradesMessage, tradesOf_some, h, Sends.unwrap_none_bind]
          rw [Sends.bind_of_panic hpanic, List.takeWhile_cons_of_neg (by simp [h]), onTradesMessage,
            tradesOf_some, h]
          rfl
      | some trades =>
          rw [onTradesMessage_eq h, Sends.bind_of_result rfl,
            List.takeWhile_cons_of_pos (by simp [h]), List.flatMap_cons, sentTrades, h]
          exact congrArg (trades ++ ·) ih

/-- Handling trades messages whose trades all convert does not panic. -/
theorem isSome_onTradesMessages {symbol : String} {msgs : List TradesMessage}
    (hconv : ∀ m ∈ msgs, (tradesOf (D := D) symbol (some m)).isSome) :
    (ReceiveLoop.onMessages (onTradesMessage (D := D) symbol) () msgs).result.isSome := by
  rw [ReceiveLoop.onMessages, Sends.foldlM_eq (g := sentTrades D symbol) (h := fun _ _ => ())]
  · rfl
  · intro m hm u
    obtain ⟨trades, htrades⟩ := Option.isSome_iff_exists.1 (hconv m hm)
    rw [tradesOf_some] at htrades
    rw [onTradesMessage_eq htrades, sentTrades, htrades, Option.getD_some]

/-- If the trades of a message do not all convert, one of them does not. -/
theorem exists_of_tradesOf_eq_none {symbol : String} {m : TradesMessage}
    (h : tradesOf (D := D) symbol (some m) = none) :
    ∃ trade ∈ m.trades, tradeToCcxt (D := D) symbol trade = none := by
  rw [tradesOf_some] at h
  generalize m.trades = trades at h ⊢
  induction trades with
  | nil => cases h
  | cons trade trades ih =>
      cases htrade : tradeToCcxt (D := D) symbol trade with
      | none => exact ⟨trade, List.mem_cons_self, htrade⟩
      | some t =>
          cases hrest : trades.mapM (tradeToCcxt (D := D) symbol) with
          | none =>
              obtain ⟨trade', hmem, hnone⟩ := ih hrest
              exact ⟨trade', List.mem_cons_of_mem _ hmem, hnone⟩
          | some ts => simp [htrade, hrest] at h

/-- Trades that convert are carried by their records, one by one. -/
theorem forall₂_carries {symbol : String} {trades : List Trade} {sent : List (CcxtTrade D)}
    (h : trades.mapM (tradeToCcxt symbol) = some sent) :
    List.Forall₂ (Carries symbol) trades sent := by
  induction trades generalizing sent with
  | nil =>
      obtain rfl := Option.some.inj h
      exact List.Forall₂.nil
  | cons trade trades ih =>
      rw [List.mapM_cons, Option.bind_eq_bind, Option.bind_eq_some_iff] at h
      obtain ⟨t, ht, h⟩ := h
      rw [Option.bind_eq_bind, Option.bind_eq_some_iff] at h
      obtain ⟨rest, hrest, h⟩ := h
      obtain rfl := Option.some.inj h
      exact List.Forall₂.cons (tradeToCcxt_eq_some_iff.1 ht) (ih hrest)

/-- **The records sent carry the trades listed** by the messages handled, one by one. -/
theorem forall₂_carries_handled (symbol : String) (msgs : List TradesMessage) :
    List.Forall₂ (Carries (D := D) symbol)
      ((handledMessages D symbol msgs).flatMap TradesMessage.trades)
      ((handledMessages D symbol msgs).flatMap (sentTrades D symbol)) := by
  have hall : ∀ m ∈ handledMessages D symbol msgs,
      (m.trades.mapM (tradeToCcxt (D := D) symbol)).isSome := by
    intro m hm
    have hsome := List.mem_takeWhile_imp hm
    exact hsome
  generalize handledMessages D symbol msgs = handled at hall ⊢
  induction handled with
  | nil => exact List.Forall₂.nil
  | cons m handled ih =>
      obtain ⟨hm, hrest⟩ := List.forall_mem_cons.1 hall
      obtain ⟨trades, htrades⟩ := Option.isSome_iff_exists.1 hm
      rw [List.flatMap_cons, List.flatMap_cons, sentTrades, htrades, Option.getD_some]
      exact List.rel_append (forall₂_carries htrades) (ih hrest)

/-- The record at a place carries the trade at that place. -/
theorem exists_carried {symbol : String} {trades : List Trade} {sent : List (CcxtTrade D)}
    (h : List.Forall₂ (Carries symbol) trades sent) {n : ℕ} {t : CcxtTrade D}
    (hn : sent[n]? = some t) : ∃ trade, trades[n]? = some trade ∧ Carries symbol trade t := by
  obtain ⟨hlt, rfl⟩ := List.getElem?_eq_some_iff.1 hn
  exact ⟨_, List.getElem?_eq_getElem (h.length_eq ▸ hlt), h.get (h.length_eq ▸ hlt) hlt⟩

/-- On a closed feed nothing is sent. -/
theorem sent_tradesFeed_closed (symbol : String) (fuel : ℕ) :
    (ReceiveLoop.loop (tradesFeedBody (D := D) symbol) fuel () []).1 = [] := by
  induction fuel with
  | zero => rfl
  | succ fuel ih =>
      have hidle : tradesFeedBody (D := D) symbol () none = ⟨[], some (.next ())⟩ := rfl
      simp only [ReceiveLoop.loop, List.head?_nil, List.tail_nil, hidle, List.nil_append]
      exact ih

/-- **The handler sends the trades of the messages** it handles, in order. -/
theorem sent_handleTradesFeed (symbol : String) {msgs : List TradesMessage} {fuel : ℕ}
    (hfuel : msgs.length ≤ fuel) :
    (handleTradesFeed symbol fuel msgs).1 =
      (handledMessages D symbol msgs).flatMap (sentTrades D symbol) := by
  obtain ⟨k, rfl⟩ := Nat.exists_eq_add_of_le hfuel
  have hbody : ∀ u m, tradesFeedBody (D := D) symbol u (some m) =
      LoopFlow.next <$> onTradesMessage symbol u m := fun u m => by
    simp [tradesFeedBody, onTradesMessage]
  rw [handleTradesFeed, ReceiveLoop.loop_messages hbody, ← sent_onTradesMessages]
  cases (ReceiveLoop.onMessages (onTradesMessage (D := D) symbol) () msgs).result with
  | none => rfl
  | some u =>
      exact List.append_right_eq_self.2 (sent_tradesFeed_closed symbol k)

end MarketMaker
