/-
**Order-book updates under redelivery and reordering.**

An update sets or removes the sizes of the prices it lists, and says nothing relative to what was
there before.  So the last level for a price decides, and a run of updates whose end is delivered
again leaves the sizes it left before; and the levels of one message, if no price is listed twice,
can be handled in any order.

* `OrdersMessage.DistinctPrices`, `OrdersMessage.Reorders` — no price is listed twice on a side; the
  levels are listed in another order;
* `OrderBook.receiveAsksFirst` — a message handled the other way round;
* `sizes_replay` — **delivering the end of a run again changes no size**;
* `receive_of_reorders` — **nor does the order of the levels of a message**, or of its sides;
* `order_book_updates_safe` — both.
-/

import MarketMaker.BookLog

set_option relaxedAutoImplicit false
set_option autoImplicit false

namespace MarketMaker

/-- The message is an update. -/
def OrdersMessage.IsUpdate : OrdersMessage → Prop
  | .initial _ _ _ => False
  | .update _ _ _ => True

/-- No price is listed twice on a side. -/
def OrdersMessage.DistinctPrices (m : OrdersMessage) : Prop :=
  ∀ side, ((m.levels side).map levelPrice).Nodup

/-- A message of the same kind that lists the same levels, in any order. -/
inductive OrdersMessage.Reorders : OrdersMessage → OrdersMessage → Prop
  | initial (messageId : UInt64) {bids bids' asks asks' : List OrderbookResponsePriceLevel} :
      bids.Perm bids' → asks.Perm asks' →
      Reorders (.initial messageId bids asks) (.initial messageId bids' asks')
  | update (messageId : UInt64)
      {bids bids' asks asks' : Option (List OrderbookResponsePriceLevel)} :
      Option.Rel List.Perm bids bids' → Option.Rel List.Perm asks asks' →
      Reorders (.update messageId bids asks) (.update messageId bids' asks')

theorem OrdersMessage.Reorders.perm {m m' : OrdersMessage} (h : m.Reorders m') (side : Side) :
    (m.levels side).Perm (m'.levels side) := by
  cases h with
  | initial messageId hbids hasks =>
      cases side
      · exact hbids
      · exact hasks
  | update messageId hbids hasks =>
      cases side
      · cases hbids
        · assumption
        · exact List.Perm.refl _
      · cases hasks
        · assumption
        · exact List.Perm.refl _

namespace OrderBook

/-- What a message would do to the book if its asks were handled before its bids. -/
def receiveAsksFirst (book : OrderBook) : OrdersMessage → OrderBook
  | .initial _ bids asks =>
      let book := { book with bids := book.bids.clear, asks := book.asks.clear }
      (book.updateAsks asks).updateBids bids
  | .update _ bids asks =>
      let book := match asks with
        | some asks => book.updateAsks asks
        | none => book
      match bids with
      | some bids => book.updateBids bids
      | none => book

theorem receiveAsksFirst_eq (book : OrderBook) (m : OrdersMessage) :
    book.receiveAsksFirst m = (book.start m).apply
      (((m.levels .ask).map fun l => (.ask, l)) ++ (m.levels .bid).map fun l => (.bid, l)) := by
  rw [apply_append, ← updateBids_eq, ← updateAsks_eq]
  cases m with
  | initial messageId bids asks => rfl
  | update messageId bids asks => cases bids <;> cases asks <;> rfl

/-! ### Redelivery -/

/-- A run of updates is the log of their levels. -/
theorem foldl_receive_updates (book : OrderBook) {us : List OrdersMessage}
    (h : ∀ u ∈ us, u.IsUpdate) :
    us.foldl receive book = book.apply (us.flatMap OrdersMessage.log) := by
  induction us generalizing book with
  | nil => rfl
  | cons u us ih =>
      have hstart : book.start u = book := by
        cases u with
        | initial messageId bids asks => exact absurd (h _ (List.mem_cons_self ..)) id
        | update messageId bids asks => rfl
      rw [List.foldl_cons, ih _ fun u' hu' => h u' (List.mem_cons_of_mem _ hu'), receive_eq, hstart,
        List.flatMap_cons, apply_append]

/-- **Delivering the end of a run again changes no size.** -/
theorem sizes_replay (book : OrderBook) {us : List OrdersMessage} (h : ∀ u ∈ us, u.IsUpdate)
    (k : ℕ) : ((us ++ us.drop k).foldl receive book).sizes = (us.foldl receive book).sizes := by
  have hagain : ∀ u ∈ us ++ us.drop k, u.IsUpdate := fun u hu =>
    (List.mem_append.1 hu).elim (h u) fun hu => h u (List.mem_of_mem_drop hu)
  have hsplit : us.flatMap OrdersMessage.log =
      (us.take k).flatMap OrdersMessage.log ++ (us.drop k).flatMap OrdersMessage.log := by
    rw [← List.flatMap_append, List.take_append_drop]
  rw [foldl_receive_updates book hagain, foldl_receive_updates book h, List.flatMap_append,
    apply_append, sizes_apply, sizes_apply, hsplit, LastWrite.apply_replay]

/-! ### Reordering -/

/-- The levels of a message are for different keys if no price is listed twice on a side. -/
theorem nodup_key_log {m : OrdersMessage} (h : m.DistinctPrices) :
    (m.log.map SideLevel.key).Nodup := by
  have hside : ∀ side, ((m.levels side).map fun l => (side, levelPrice l)).Nodup := fun side => by
    have hmap : ((m.levels side).map fun l => (side, levelPrice l)) =
        ((m.levels side).map levelPrice).map (Prod.mk side) := by simp
    rw [hmap]
    exact (h side).map (Prod.mk_right_injective side)
  rw [OrdersMessage.log, List.map_append, List.map_map, List.map_map, List.nodup_append]
  refine ⟨hside .bid, hside .ask, ?_⟩
  rintro _ hbid _ hask rfl
  obtain ⟨l, -, hl⟩ := List.mem_map.1 hbid
  obtain ⟨l', -, hl'⟩ := List.mem_map.1 hask
  exact absurd (congrArg Prod.fst (hl.trans hl'.symm)) (by simp [SideLevel.key])

/-- Levels for different keys can be handled in any order. -/
theorem apply_perm (book : OrderBook) {log log' : List SideLevel} (hperm : log'.Perm log)
    (h : (log.map SideLevel.key).Nodup) :
    (book.apply log').sizes = (book.apply log).sizes ∧
      (book.apply log').offset = (book.apply log).offset := by
  rw [sizes_apply, sizes_apply, offset_apply, offset_apply, hperm.countP_eq]
  exact ⟨(LastWrite.apply_perm _ _ _ hperm.symm h).symm, rfl⟩

/-- **The order of the levels of a message, and of its sides, changes neither a size nor the
counter.** -/
theorem receive_of_reorders (book : OrderBook) {m m' : OrdersMessage} (hdistinct : m.DistinctPrices)
    (h : m.Reorders m') :
    ((book.receive m').sizes = (book.receive m).sizes ∧
        (book.receive m').offset = (book.receive m).offset) ∧
      (book.receiveAsksFirst m').sizes = (book.receive m).sizes ∧
        (book.receiveAsksFirst m').offset = (book.receive m).offset := by
  have hstart : book.start m' = book.start m := by cases h <;> rfl
  have hbids := (h.perm .bid).symm.map fun l => ((.bid, l) : SideLevel)
  have hasks := (h.perm .ask).symm.map fun l => ((.ask, l) : SideLevel)
  rw [receive_eq, receive_eq, receiveAsksFirst_eq, hstart]
  have hnodup := nodup_key_log hdistinct
  exact ⟨apply_perm _ (hbids.append hasks) hnodup,
    apply_perm _ (List.perm_append_comm.trans (hbids.append hasks)) hnodup⟩

end OrderBook

/-- **Order-book updates are safe under redelivery and reordering**: delivering the end of a run of
updates again changes no size; and if no price is listed twice on a side of a message, neither does
listing its levels in another order or handling its asks before its bids, nor does it change the
counter. -/
theorem order_book_updates_safe :
    (∀ (book : OrderBook) (us : List OrdersMessage), (∀ u ∈ us, u.IsUpdate) → ∀ k,
        ((us ++ us.drop k).foldl OrderBook.receive book).sizes =
          (us.foldl OrderBook.receive book).sizes) ∧
      ∀ (book : OrderBook) (m m' : OrdersMessage), m.DistinctPrices → m.Reorders m' →
        ((book.receive m').sizes = (book.receive m).sizes ∧
            (book.receive m').offset = (book.receive m).offset) ∧
          (book.receiveAsksFirst m').sizes = (book.receive m).sizes ∧
            (book.receiveAsksFirst m').offset = (book.receive m).offset :=
  ⟨fun book _ h k => OrderBook.sizes_replay book h k,
    fun book _ _ hdistinct h => OrderBook.receive_of_reorders book hdistinct h⟩

/-- A level of a whole price and a whole size. -/
private def wholeLevel (price size : ℤ) : OrderbookResponsePriceLevel := ⟨⟨⟨price, 0⟩⟩, ⟨⟨size, 0⟩⟩⟩

/-- A price set and removed again, the removal delivered twice; and two bids in another order. -/
theorem order_book_updates_safe_sample :
    ([.update 1 (some [wholeLevel 100 1]) none, .update 2 (some [wholeLevel 100 0]) none,
        .update 2 (some [wholeLevel 100 0]) none].foldl OrderBook.receive .default).sizes =
      ([.update 1 (some [wholeLevel 100 1]) none,
        .update 2 (some [wholeLevel 100 0]) none].foldl OrderBook.receive .default).sizes ∧
      (OrderBook.default.receiveAsksFirst
          (.update 1 (some [wholeLevel 99 1, wholeLevel 100 1]) none)).sizes =
        (OrderBook.default.receive
          (.update 1 (some [wholeLevel 100 1, wholeLevel 99 1]) none)).sizes := by
  refine ⟨order_book_updates_safe.1 .default [.update 1 (some [wholeLevel 100 1]) none,
    .update 2 (some [wholeLevel 100 0]) none] ?_ 1, ?_⟩
  · simp [OrdersMessage.IsUpdate]
  · refine (order_book_updates_safe.2 .default _ _ ?_
      (.update 1 (.some (List.Perm.swap _ _ _)) .none)).2.1
    rintro (_ | _) <;> decide +kernel

end MarketMaker
