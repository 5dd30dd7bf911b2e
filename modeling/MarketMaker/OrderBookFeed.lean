/-
**The order-book feed sends the top of the reference book.**

The handler keeps one book, updates it with every message, and sends the top of it after each.
`MarketMaker/OrderBook.lean` shows that the book is the reference book of the messages received so
far; here this is carried to the values the handler sends.

* `handleOrderBookFeed` — the handler;
* `ListsBest` — a list of levels is the best live price of a side, or empty if no price is live;
* `handleOrderBookFeed_sends_top` — **one record per message, in order, and each is the top of the
  reference book**.
-/

import MarketMaker.OrderBook
import MarketMaker.ReceiveLoop

set_option relaxedAutoImplicit false
set_option autoImplicit false

namespace MarketMaker

variable {D : Type} [DecimalText D]

/-! ### The handler -/

/-- One iteration of the handler: a message updates the book, whose top is sent; a closed feed
ends the loop. -/
def orderBookFeedBody (symbol : String) (book : OrderBook) :
    Option OrdersMessage → Sends (CcxtOrderBook D) (LoopFlow OrderBook)
  | some message => do
      let book := book.receive message
      let ob ← Sends.unwrap (bookToCcxt book symbol message.messageId)
      Sends.send ob
      pure (.next book)
  | none => pure .stop

/-- The handler of an order-book feed, for `fuel` iterations. -/
def handleOrderBookFeed (symbol : String) (fuel : ℕ) (feed : List OrdersMessage) :
    List (CcxtOrderBook D) × Exit :=
  ReceiveLoop.loop (orderBookFeedBody symbol) fuel OrderBook.default feed

/-- What the handler does with a message: update the book and send its top. -/
def onOrdersMessage (symbol : String) :
    OrderBook → OrdersMessage → Sends (CcxtOrderBook D) OrderBook :=
  ReceiveLoop.sendOne OrderBook.receive fun book m => bookToCcxt book symbol m.messageId

theorem orderBookFeedBody_some (symbol : String) (book : OrderBook) (m : OrdersMessage) :
    (orderBookFeedBody symbol book (some m) : Sends (CcxtOrderBook D) (LoopFlow OrderBook)) =
      LoopFlow.next <$> onOrdersMessage symbol book m := by
  simp [orderBookFeedBody, onOrdersMessage, ReceiveLoop.sendOne]

theorem orderBookFeedBody_none (symbol : String) (book : OrderBook) :
    (orderBookFeedBody symbol book none : Sends (CcxtOrderBook D) (LoopFlow OrderBook)) =
      pure .stop := rfl

/-! ### What is sent -/

/-- The levels list the best live price of the side with its live size, or nothing when no price
of the side is live.  Prices and sizes are listed as their conversions to decimals; the price is
converted as some level of it writes it. -/
def ListsBest (side : Side) (h : List OrderbookResponsePriceLevel)
    (levels : List (CcxtOrderBookLevel D)) : Prop :=
  (levels = [] ∧ ∀ p, liveSize h p = none) ∨
    ∃ l ∈ h, ∃ (size : Quantity) (level : CcxtOrderBookLevel D),
      l.size.isZero = false ∧ IsBest side h l.price.val ∧ liveSize h l.price.val = some size ∧
        bigDecimalToDecimal l.price.inner = some level.price ∧
        bigDecimalToDecimal size.inner = some level.amount ∧ levels = [level]

/-- Every price and size of a level of nonzero size converts. -/
def Convertible (D : Type) [DecimalText D] (msgs : List OrdersMessage) : Prop :=
  ∀ m ∈ msgs, ∀ side, ∀ l ∈ m.levels side, l.size.isZero = false →
    (bigDecimalToDecimal l.price.inner : Option D).isSome ∧
      (bigDecimalToDecimal l.size.inner : Option D).isSome

theorem mapM_levelToCcxt_some (e : Price × Quantity × UInt64) :
    (some e).toList.mapM levelToCcxt =
      (levelToCcxt e : Option (CcxtOrderBookLevel D)).map fun level => [level] := by
  cases h : (levelToCcxt e : Option (CcxtOrderBookLevel D)) <;> simp [h]

theorem levelToCcxt_eq_some_iff {e : Price × Quantity × UInt64} {level : CcxtOrderBookLevel D} :
    levelToCcxt e = some level ↔
      bigDecimalToDecimal e.1.inner = some level.price ∧
        bigDecimalToDecimal e.2.1.inner = some level.amount := by
  obtain ⟨price, amount⟩ := level
  simp only [levelToCcxt, Option.bind_eq_bind, Option.bind_eq_some_iff, Option.some.injEq,
    CcxtOrderBookLevel.mk.injEq]
  constructor
  · rintro ⟨_, hp, _, ha, rfl, rfl⟩
    exact ⟨hp, ha⟩
  · rintro ⟨hp, ha⟩
    exact ⟨_, hp, _, ha, rfl, rfl⟩

/-- The record of a book that is the reference book lists the best live prices. -/
theorem listsBest_of_bookToCcxt {book : OrderBook} {h : Side → List OrderbookResponsePriceLevel}
    (hr : ∀ side, Represents (book.side side) (h side)) {symbol : String} {nonce : UInt64}
    {ob : CcxtOrderBook D} (hob : bookToCcxt book symbol nonce = some ob) (side : Side) :
    ListsBest side (h side) (ob.side side) := by
  have hside := (bookToCcxt_eq_some_iff.1 hob).2 side
  cases htop : topOf (book.side side) side with
  | none =>
      rw [htop] at hside
      exact Or.inl ⟨by simpa using hside.symm, ((hr side).topOf_eq_none_iff side).1 htop⟩
  | some e =>
      rw [htop, mapM_levelToCcxt_some, Option.map_eq_some_iff] at hside
      obtain ⟨level, hlevel, hlist⟩ := hside
      obtain ⟨hbest, hsize, l, hl, hkey, hzero⟩ := (hr side).isBest_of_topOf htop
      obtain ⟨hprice, hamount⟩ := levelToCcxt_eq_some_iff.1 hlevel
      rw [← hkey] at hbest hsize hprice
      exact Or.inr ⟨l, hl, e.2.1, level, hzero, hbest, hsize, hprice, hamount, hlist.symm⟩

/-- The top of a side converts when the levels that count do. -/
theorem exists_levels_of_topOf {map : BookSide} {h : List OrderbookResponsePriceLevel}
    (hr : Represents map h)
    (hconv : ∀ l ∈ h, l.size.isZero = false →
      (bigDecimalToDecimal l.price.inner : Option D).isSome ∧
        (bigDecimalToDecimal l.size.inner : Option D).isSome) (side : Side) :
    ∃ levels : List (CcxtOrderBookLevel D),
      (topOf map side).toList.mapM levelToCcxt = some levels := by
  cases htop : topOf map side with
  | none => exact ⟨[], rfl⟩
  | some e =>
      obtain ⟨-, hsize, l, hl, hkey, hzero⟩ := hr.isBest_of_topOf htop
      obtain ⟨l', hl', -, hsz, hzero'⟩ := exists_level_of_liveSize hsize
      obtain ⟨price, hprice⟩ := Option.isSome_iff_exists.1 (hconv l hl hzero).1
      obtain ⟨amount, hamount⟩ := Option.isSome_iff_exists.1 (hconv l' hl' hzero').2
      rw [hkey] at hprice
      rw [hsz] at hamount
      have hlevel : levelToCcxt e = some (⟨price, amount⟩ : CcxtOrderBookLevel D) :=
        levelToCcxt_eq_some_iff.2 ⟨hprice, hamount⟩
      rw [mapM_levelToCcxt_some, hlevel]
      exact ⟨_, rfl⟩

/-- Convertible messages have a record to send after each of them. -/
theorem isSome_bookToCcxt {msgs : List OrdersMessage} (hconv : Convertible D msgs)
    (symbol : String) (nonce : UInt64) :
    (bookToCcxt (OrderBook.after msgs) symbol nonce : Option (CcxtOrderBook D)).isSome := by
  have hside : ∀ side, ∃ levels : List (CcxtOrderBookLevel D),
      (topOf ((OrderBook.after msgs).side side) side).toList.mapM levelToCcxt = some levels := by
    intro side
    refine exists_levels_of_topOf (OrderBook.represents_after msgs side) ?_ side
    intro l hl
    obtain ⟨m, hm, hlm⟩ := mem_levelsSince hl
    exact hconv m hm side l hlm
  obtain ⟨bids, hbids⟩ := hside .bid
  obtain ⟨asks, hasks⟩ := hside .ask
  refine Option.isSome_iff_exists.2
    ⟨{ bids := bids, asks := asks, symbol := symbol, nonce := some nonce },
      bookToCcxt_eq_some_iff.2 ⟨⟨rfl, rfl, rfl, rfl⟩, fun side => ?_⟩⟩
  cases side
  · exact hbids
  · exact hasks

/-- Every record sent is that of the book after some number of messages. -/
theorem bookToCcxt_of_sent {symbol : String} {msgs : List OrdersMessage} {n : ℕ}
    {ob : CcxtOrderBook D}
    (h : (ReceiveLoop.onMessages (onOrdersMessage symbol) OrderBook.default msgs).sent[n]? =
      some ob) :
    ∃ m, msgs[n]? = some m ∧
      bookToCcxt (OrderBook.after (msgs.take (n + 1))) symbol m.messageId = some ob :=
  (ReceiveLoop.sent_sendOne_eq_some_iff.1 h).1

/-- Convertible messages are all handled, with one record each. -/
theorem onMessages_of_convertible {msgs : List OrdersMessage} (hconv : Convertible D msgs)
    (symbol : String) :
    (ReceiveLoop.onMessages (onOrdersMessage (D := D) symbol) OrderBook.default msgs).result =
        some (OrderBook.after msgs) ∧
      (ReceiveLoop.onMessages (onOrdersMessage (D := D) symbol) OrderBook.default
        msgs).sent.length = msgs.length := by
  refine ReceiveLoop.onMessages_sendOne fun n m hm => ?_
  exact isSome_bookToCcxt (fun m' hm' => hconv m' (List.mem_of_mem_take hm')) symbol m.messageId

/-- The handler of convertible messages returns, having sent one record for each. -/
theorem handleOrderBookFeed_eq {msgs : List OrdersMessage} (hconv : Convertible D msgs)
    (symbol : String) {fuel : ℕ} (hfuel : msgs.length < fuel) :
    handleOrderBookFeed symbol fuel msgs =
      ((ReceiveLoop.onMessages (onOrdersMessage (D := D) symbol) OrderBook.default msgs).sent,
        .returned) :=
  ReceiveLoop.loop_stops (orderBookFeedBody_some symbol) (orderBookFeedBody_none symbol)
    (onMessages_of_convertible hconv symbol).1 hfuel

/-- What the handler sends is what the messages make it send, also when one of them makes it
panic. -/
theorem sent_handleOrderBookFeed (symbol : String) {msgs : List OrdersMessage} {fuel : ℕ}
    (hfuel : msgs.length < fuel) :
    (handleOrderBookFeed (D := D) symbol fuel msgs).1 =
      (ReceiveLoop.onMessages (onOrdersMessage symbol) OrderBook.default msgs).sent :=
  ReceiveLoop.loop_sent (orderBookFeedBody_some symbol) (orderBookFeedBody_none symbol) hfuel

/-- The handler sends what the messages make it send, and returns unless one makes it panic. -/
theorem handleOrderBookFeed_eq_onMessages (symbol : String) {msgs : List OrdersMessage} {fuel : ℕ}
    (hfuel : msgs.length < fuel) :
    handleOrderBookFeed (D := D) symbol fuel msgs =
      ((ReceiveLoop.onMessages (onOrdersMessage symbol) OrderBook.default msgs).sent,
        if (ReceiveLoop.onMessages (onOrdersMessage (D := D) symbol) OrderBook.default
          msgs).result.isSome then .returned else .panicked) :=
  ReceiveLoop.loop_eq (orderBookFeedBody_some symbol) (orderBookFeedBody_none symbol) hfuel

/-- After the `n`-th message the record of the reference book is sent. -/
theorem exists_sent_listsBest {msgs : List OrdersMessage} (hconv : Convertible D msgs)
    (symbol : String) {n : ℕ} {m : OrdersMessage} (hm : msgs[n]? = some m) :
    ∃ ob : CcxtOrderBook D,
      (ReceiveLoop.onMessages (onOrdersMessage symbol) OrderBook.default msgs).sent[n]? = some ob ∧
        ob.symbol = symbol ∧ ob.nonce = some m.messageId ∧
        ∀ side, ListsBest side (levelsSince side (msgs.take (n + 1))) (ob.side side) := by
  have hlen := (onMessages_of_convertible (D := D) hconv symbol).2
  obtain ⟨hn, -⟩ := List.getElem?_eq_some_iff.1 hm
  obtain ⟨ob, hob⟩ : ∃ ob, (ReceiveLoop.onMessages (onOrdersMessage (D := D) symbol)
      OrderBook.default msgs).sent[n]? = some ob :=
    ⟨_, List.getElem?_eq_getElem (hlen.symm ▸ hn)⟩
  obtain ⟨m', hm', hrec⟩ := bookToCcxt_of_sent hob
  rw [hm, Option.some.injEq] at hm'
  subst hm'
  obtain ⟨⟨hsym, -, -, hnonce⟩, -⟩ := bookToCcxt_eq_some_iff.1 hrec
  exact ⟨ob, hob, hsym, hnonce, listsBest_of_bookToCcxt (OrderBook.represents_after _) hrec⟩

/-- **The order-book feed sends the top of the reference book**: for convertible messages the
handler sends exactly one record per message, in message order; the `n`-th carries the identifier
of the `n`-th message and lists, on each side, the best price that is live after it. -/
theorem handleOrderBookFeed_sends_top (symbol : String) (msgs : List OrdersMessage)
    (hconv : Convertible D msgs) (fuel : ℕ) (hfuel : msgs.length < fuel) :
    (handleOrderBookFeed (D := D) symbol fuel msgs).1.length = msgs.length ∧
      ∀ n m, msgs[n]? = some m →
        ∃ ob : CcxtOrderBook D, (handleOrderBookFeed symbol fuel msgs).1[n]? = some ob ∧
          ob.symbol = symbol ∧ ob.nonce = some m.messageId ∧
          ∀ side, ListsBest side (levelsSince side (msgs.take (n + 1))) (ob.side side) := by
  rw [handleOrderBookFeed_eq hconv symbol hfuel]
  exact ⟨(onMessages_of_convertible hconv symbol).2, fun n m hm =>
    exists_sent_listsBest hconv symbol hm⟩

/-- The feed of a witness: a snapshot, a repeated price that ends at size zero next to a new best
bid, and a second snapshot with one side only. -/
private def sampleOrders : List OrdersMessage :=
  [.initial 1 [⟨⟨⟨100, 0⟩⟩, ⟨⟨5, 0⟩⟩⟩] [⟨⟨⟨103, 0⟩⟩, ⟨⟨2, 0⟩⟩⟩],
    .update 2 (some [⟨⟨⟨100, 0⟩⟩, ⟨⟨7, 0⟩⟩⟩, ⟨⟨⟨101, 0⟩⟩, ⟨⟨1, 0⟩⟩⟩, ⟨⟨⟨100, 0⟩⟩, ⟨⟨0, 0⟩⟩⟩]) none,
    .initial 3 [] [⟨⟨⟨104, 0⟩⟩, ⟨⟨4, 0⟩⟩⟩]]

theorem handleOrderBookFeed_sends_top_sample :
    (handleOrderBookFeed (D := ℚ) "BTC-USD" 4 sampleOrders).1.length = 3 ∧
      ∀ n m, sampleOrders[n]? = some m →
        ∃ ob : CcxtOrderBook ℚ, (handleOrderBookFeed "BTC-USD" 4 sampleOrders).1[n]? = some ob ∧
          ob.symbol = "BTC-USD" ∧ ob.nonce = some m.messageId ∧
          ∀ side, ListsBest side (levelsSince side (sampleOrders.take (n + 1))) (ob.side side) :=
  handleOrderBookFeed_sends_top "BTC-USD" sampleOrders (by unfold Convertible; decide +kernel) 4
    (by decide)

end MarketMaker
