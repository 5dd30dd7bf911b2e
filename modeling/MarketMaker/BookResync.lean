/-
**A snapshot makes the handler forget what came before it.**

The book keeps a recency stamp with every price, and a counter the stamps are taken from that no
snapshot resets.  Neither is ever read: what the handler sends depends on the prices and the sizes
only, so that a counter that has wrapped round, or the messages missed before a snapshot, leave no
trace in what is sent from the snapshot on.

* `OrderBook.unstamped`, `OrderBook.SameLevels` — what is stored, without the stamps;
* `OrderBook.SameLevels.receive`, `OrderBook.sameLevels_snapshot` — what a message leaves of it does
  not depend on the stamps, and what a snapshot leaves on nothing;
* `bookToCcxt_congr` — the record of a book does not depend on its stamps;
* `stamps_are_not_read` — **two books that differ in their stamps send the same**;
* `snapshot_resyncs` — **from a snapshot on the handler sends what a new handler sends**.
-/

import MarketMaker.BookLog
import MarketMaker.OrderBookFeed

set_option relaxedAutoImplicit false
set_option autoImplicit false

namespace MarketMaker

namespace OrderBook

/-! ### The book without its stamps -/

/-- An entry without its stamp. -/
def unstampedEntry (e : Price × Quantity × UInt64) : Price × Quantity := (e.1, e.2.1)

/-- What is stored for a price of a side, without the stamp. -/
def unstamped (book : OrderBook) (k : Side × ℚ) : Option (Price × Quantity) :=
  (book.entry k).map unstampedEntry

/-- **What one level does** does not depend on the stamps. -/
theorem unstamped_level (book : OrderBook) (w : SideLevel) (k : Side × ℚ) :
    (book.level w).unstamped k =
      if w.key = k then
        if w.isWrite then
          some (((book.unstamped k).map Prod.fst).getD w.2.price, w.2.size)
        else none
      else book.unstamped k := by
  have hkey : (book.unstamped k).map Prod.fst = (book.entry k).map Prod.fst := by
    rw [unstamped, Option.map_map]
    rfl
  rw [hkey, unstamped, entry_level]
  split_ifs <;> rfl

/-- The same sizes are stored under the same keys. -/
def SameLevels (book book' : OrderBook) : Prop := book.unstamped = book'.unstamped

variable {book book' : OrderBook}

theorem SameLevels.apply (h : book.SameLevels book') (log : List SideLevel) :
    (book.apply log).SameLevels (book'.apply log) := by
  induction log generalizing book book' with
  | nil => exact h
  | cons w log ih =>
      refine ih (funext fun k => ?_)
      rw [unstamped_level, unstamped_level, show book.unstamped = book'.unstamped from h]

/-- Cleared books store nothing. -/
theorem sameLevels_cleared (book book' : OrderBook) : book.cleared.SameLevels book'.cleared := by
  funext ⟨side, p⟩
  cases side <;> rfl

/-- **What a message leaves** does not depend on the stamps. -/
theorem SameLevels.receive (h : book.SameLevels book') (m : OrdersMessage) :
    (book.receive m).SameLevels (book'.receive m) := by
  rw [receive_eq, receive_eq]
  cases m with
  | initial messageId bids asks => exact (sameLevels_cleared book book').apply _
  | update messageId bids asks => exact h.apply _

/-- **After a snapshot two books store the same**, whatever they stored before. -/
theorem sameLevels_snapshot (book book' : OrderBook) (messageId : UInt64)
    (bids asks : List OrderbookResponsePriceLevel) :
    (book.receive (.initial messageId bids asks)).SameLevels
      (book'.receive (.initial messageId bids asks)) := by
  rw [receive_eq, receive_eq]
  exact (sameLevels_cleared book book').apply _

/-! ### The top of the book -/

/-- The top of a side is its entry that no stored price of the side beats. -/
theorem topOf_eq_some_iff {side : Side} {e : Price × Quantity × UInt64} :
    topOf (book.side side) side = some e ↔
      book.entry (side, e.1.val) = some e ∧
        ∀ p, (book.entry (side, p)).isSome → side.Beats e.1.val p := by
  cases side with
  | bid => exact BTreeMap.lastKeyValue_eq_some_iff
  | ask => exact BTreeMap.firstKeyValue_eq_some_iff

/-- Without the stamp, it can be told from what is stored without the stamps. -/
theorem map_topOf_eq_some_iff {side : Side} {d : Price × Quantity} :
    (topOf (book.side side) side).map unstampedEntry = some d ↔
      book.unstamped (side, d.1.val) = some d ∧
        ∀ p, (book.unstamped (side, p)).isSome → side.Beats d.1.val p := by
  simp only [unstamped, Option.isSome_map, Option.map_eq_some_iff, topOf_eq_some_iff]
  constructor
  · rintro ⟨e, ⟨hentry, hbest⟩, rfl⟩
    exact ⟨⟨e, hentry, rfl⟩, hbest⟩
  · rintro ⟨⟨e, hentry, rfl⟩, hbest⟩
    exact ⟨e, ⟨hentry, hbest⟩, rfl⟩

theorem SameLevels.map_topOf (h : book.SameLevels book') (side : Side) :
    (topOf (book.side side) side).map unstampedEntry =
      (topOf (book'.side side) side).map unstampedEntry :=
  Option.ext fun d => by
    rw [map_topOf_eq_some_iff, map_topOf_eq_some_iff, show book.unstamped = book'.unstamped from h]

end OrderBook

variable {D : Type} [DecimalText D]

/-- The level written for an entry does not depend on its stamp. -/
theorem levelToCcxt_congr {x y : Option (Price × Quantity × UInt64)}
    (h : x.map OrderBook.unstampedEntry = y.map OrderBook.unstampedEntry) :
    (x.toList.mapM levelToCcxt : Option (List (CcxtOrderBookLevel D))) =
      y.toList.mapM levelToCcxt := by
  rcases x with _ | ⟨price, size, stamp⟩ <;> rcases y with _ | ⟨price', size', stamp'⟩
  · rfl
  · cases h
  · cases h
  · obtain ⟨rfl, rfl⟩ := Prod.mk.inj (Option.some.inj h)
    rfl

/-- **The record of a book does not depend on its stamps.** -/
theorem bookToCcxt_congr {book book' : OrderBook} (h : book.SameLevels book')
    (symbol : String) (nonce : UInt64) :
    (bookToCcxt book symbol nonce : Option (CcxtOrderBook D)) = bookToCcxt book' symbol nonce := by
  refine Option.ext fun ob => ?_
  rw [bookToCcxt_eq_some_iff, bookToCcxt_eq_some_iff]
  simp only [levelToCcxt_congr (h.map_topOf _)]

/-! ### What the handler sends -/

/-- Two books that store the same sizes under the same keys after a message make the handler send
the same for it. -/
theorem onOrdersMessage_alike (symbol : String) {book book' : OrderBook} {m : OrdersMessage}
    (h : (book.receive m).SameLevels (book'.receive m)) :
    (onOrdersMessage (D := D) symbol book m).Alike OrderBook.SameLevels
      (onOrdersMessage symbol book' m) := by
  have hout := bookToCcxt_congr (D := D) h symbol m.messageId
  rw [onOrdersMessage]
  cases hob : (bookToCcxt (book'.receive m) symbol m.messageId : Option (CcxtOrderBook D)) with
  | none =>
      rw [ReceiveLoop.sendOne_of_none (hout.trans hob), ReceiveLoop.sendOne_of_none hob]
      exact ⟨rfl, Option.Rel.none⟩
  | some ob =>
      rw [ReceiveLoop.sendOne_of_some (hout.trans hob), ReceiveLoop.sendOne_of_some hob]
      exact ⟨rfl, Option.Rel.some h⟩

/-- Over any messages. -/
theorem onOrdersMessages_alike (symbol : String) {book book' : OrderBook}
    (h : book.SameLevels book') (msgs : List OrdersMessage) :
    (ReceiveLoop.onMessages (onOrdersMessage (D := D) symbol) book msgs).Alike
      OrderBook.SameLevels
      (ReceiveLoop.onMessages (onOrdersMessage symbol) book' msgs) := by
  refine ReceiveLoop.onMessages_congr (fun _ _ m hbook => ?_) h msgs
  exact onOrdersMessage_alike symbol (hbook.receive m)

/-- From a snapshot on, any two books. -/
theorem onOrdersMessages_snapshot_alike (symbol : String) (book book' : OrderBook)
    (messageId : UInt64) (bids asks : List OrderbookResponsePriceLevel)
    (later : List OrdersMessage) :
    (ReceiveLoop.onMessages (onOrdersMessage (D := D) symbol) book
      (.initial messageId bids asks :: later)).Alike OrderBook.SameLevels
        (ReceiveLoop.onMessages (onOrdersMessage symbol) book'
          (.initial messageId bids asks :: later)) := by
  rw [ReceiveLoop.onMessages_cons, ReceiveLoop.onMessages_cons]
  exact (onOrdersMessage_alike symbol (OrderBook.sameLevels_snapshot book book' _ _ _)).bind
    fun _ _ hbook => onOrdersMessages_alike symbol hbook later

/-- **The stamps are not read**: over any messages, two books that store the same sizes under the
same keys make the handler send the same, and panic or go on alike, whatever their stamps and
counters. -/
theorem stamps_are_not_read (symbol : String) {book book' : OrderBook}
    (h : book.SameLevels book') (msgs : List OrdersMessage) :
    (ReceiveLoop.onMessages (onOrdersMessage (D := D) symbol) book msgs).sent =
        (ReceiveLoop.onMessages (onOrdersMessage symbol) book' msgs).sent ∧
      (ReceiveLoop.onMessages (onOrdersMessage (D := D) symbol) book msgs).result.isSome =
        (ReceiveLoop.onMessages (onOrdersMessage (D := D) symbol) book' msgs).result.isSome :=
  have halike := onOrdersMessages_alike symbol h msgs
  ⟨halike.sent, halike.isSome⟩

/-- A book whose counter is about to wrap round sends what an empty one with a new counter does. -/
theorem stamps_are_not_read_sample :
    (ReceiveLoop.onMessages (onOrdersMessage (D := ℚ) "BTC-USD")
        { OrderBook.default with offset := 18446744073709551615 }
        [.update 1 (some [⟨⟨⟨100, 0⟩⟩, ⟨⟨5, 0⟩⟩⟩, ⟨⟨⟨101, 0⟩⟩, ⟨⟨2, 0⟩⟩⟩]) none]).sent =
      (ReceiveLoop.onMessages (onOrdersMessage "BTC-USD") OrderBook.default
        [.update 1 (some [⟨⟨⟨100, 0⟩⟩, ⟨⟨5, 0⟩⟩⟩, ⟨⟨⟨101, 0⟩⟩, ⟨⟨2, 0⟩⟩⟩]) none]).sent := by
  refine (stamps_are_not_read "BTC-USD" ?_ _).1
  funext ⟨side, p⟩
  cases side <;> rfl

/-- **From a snapshot on the handler sends what a new handler sends**: if it gets through the
messages before the snapshot, then what it sends for all of them is what it sends for those before,
followed by what a handler sends whose first message is the snapshot; and it ends as that one
does. -/
theorem snapshot_resyncs (symbol : String) {before : List OrdersMessage} (messageId : UInt64)
    (bids asks : List OrderbookResponsePriceLevel) (later : List OrdersMessage) {fuel : ℕ}
    (hfuel : (before ++ .initial messageId bids asks :: later).length < fuel)
    (hbefore : (handleOrderBookFeed (D := D) symbol fuel before).2 = .returned) :
    handleOrderBookFeed (D := D) symbol fuel (before ++ .initial messageId bids asks :: later) =
      ((handleOrderBookFeed symbol fuel before).1 ++
          (handleOrderBookFeed symbol fuel (.initial messageId bids asks :: later)).1,
        (handleOrderBookFeed (D := D) symbol fuel (.initial messageId bids asks :: later)).2) := by
  have hlength : before.length < fuel ∧
      (OrdersMessage.initial messageId bids asks :: later).length < fuel := by
    rw [List.length_append] at hfuel
    omega
  rw [handleOrderBookFeed_eq_onMessages symbol hlength.1] at hbefore ⊢
  rw [handleOrderBookFeed_eq_onMessages symbol hfuel,
    handleOrderBookFeed_eq_onMessages symbol hlength.2, ReceiveLoop.onMessages_append]
  cases hresult : (ReceiveLoop.onMessages (onOrdersMessage (D := D) symbol) OrderBook.default
      before).result with
  | none => simp [hresult] at hbefore
  | some book =>
      have halike := onOrdersMessages_snapshot_alike (D := D) symbol book OrderBook.default
        messageId bids asks later
      rw [Sends.bind_of_result hresult, halike.sent, halike.isSome]

/-- An update, then a snapshot and an update of it. -/
theorem snapshot_resyncs_sample :
    handleOrderBookFeed (D := ℚ) "BTC-USD" 4 ([.update 1 (some [⟨⟨⟨100, 0⟩⟩, ⟨⟨5, 0⟩⟩⟩]) none] ++
        .initial 2 [⟨⟨⟨99, 0⟩⟩, ⟨⟨1, 0⟩⟩⟩] [] :: [.update 3 none (some [⟨⟨⟨103, 0⟩⟩, ⟨⟨2, 0⟩⟩⟩])]) =
      ((handleOrderBookFeed "BTC-USD" 4 [.update 1 (some [⟨⟨⟨100, 0⟩⟩, ⟨⟨5, 0⟩⟩⟩]) none]).1 ++
          (handleOrderBookFeed "BTC-USD" 4 (.initial 2 [⟨⟨⟨99, 0⟩⟩, ⟨⟨1, 0⟩⟩⟩] [] ::
            [.update 3 none (some [⟨⟨⟨103, 0⟩⟩, ⟨⟨2, 0⟩⟩⟩])])).1,
        (handleOrderBookFeed (D := ℚ) "BTC-USD" 4 (.initial 2 [⟨⟨⟨99, 0⟩⟩, ⟨⟨1, 0⟩⟩⟩] [] ::
          [.update 3 none (some [⟨⟨⟨103, 0⟩⟩, ⟨⟨2, 0⟩⟩⟩])])).2) :=
  snapshot_resyncs "BTC-USD" 2 _ [] _ (by decide) (by decide +kernel)

end MarketMaker
