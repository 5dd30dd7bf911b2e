/-
**The order book as a log of levels.**

The two sides of a book share one counter, and a message is one walk over its bids and then its
asks.  So what a message does is a log of levels of either side, handled one after another, and one
level sets or removes one price of one side and may take one stamp.

* `OrderBook.level`, `OrderBook.apply` — the book after one level and after a log of levels;
* `OrdersMessage.log`, `OrderBook.receive_eq` — **a message is the log of its levels**, after the
  book was cleared if it is a snapshot;
* `OrderBook.entry`, `OrderBook.entry_level` — what one level does to what is stored at a price;
* `OrderBook.sizes_apply` — **the sizes after a log are the last writes of the log**;
* `OrderBook.offset_apply` — the counter counts the levels of nonzero size.
-/

import MarketMaker.OrderBook

set_option relaxedAutoImplicit false
set_option autoImplicit false

namespace MarketMaker

/-- A level, with the side it is for. -/
abbrev SideLevel := Side × OrderbookResponsePriceLevel

/-- A level takes a stamp: its size is not zero. -/
def SideLevel.isWrite (w : SideLevel) : Bool := !w.2.size.isZero

/-- The side and the price a level is for. -/
def SideLevel.key (w : SideLevel) : Side × ℚ := (w.1, levelPrice w.2)

/-- The size a level leaves at its price. -/
def SideLevel.size (w : SideLevel) : Option Quantity := levelSize w.2

/-- The levels of a message, in the order in which they are handled. -/
def OrdersMessage.log (m : OrdersMessage) : List SideLevel :=
  ((m.levels .bid).map fun l => (.bid, l)) ++ (m.levels .ask).map fun l => (.ask, l)

namespace OrderBook

/-! ### One level -/

/-- The book after one level. -/
def level (book : OrderBook) (w : SideLevel) : OrderBook :=
  match w.1 with
  | .bid => book.updateBids [w.2]
  | .ask => book.updateAsks [w.2]

/-- What is stored for a price of a side. -/
def entry (book : OrderBook) (k : Side × ℚ) : Option (Price × Quantity × UInt64) :=
  (book.side k.1).getKeyValue k.2

/-- The size stored for a price of a side. -/
def sizes (book : OrderBook) (k : Side × ℚ) : Option Quantity :=
  (book.entry k).map fun e => e.2.1

theorem side_level (book : OrderBook) (w : SideLevel) :
    (book.level w).side w.1 =
      if w.2.size.isZero then (book.side w.1).remove w.2.price
      else (book.side w.1).insert w.2.price (w.2.size, book.offset) := by
  obtain ⟨side, l⟩ := w
  cases side <;> simp only [level, side, updateBids, updateAsks, update, List.foldl_cons,
    List.foldl_nil] <;> split_ifs <;> rfl

theorem side_level_of_ne (book : OrderBook) {w : SideLevel} {side : Side} (h : w.1 ≠ side) :
    (book.level w).side side = book.side side := by
  obtain ⟨side', l⟩ := w
  cases side' <;> cases side <;> first | rfl | exact absurd rfl h

/-- The counter is advanced by levels of nonzero size. -/
theorem offset_level (book : OrderBook) (w : SideLevel) :
    (book.level w).offset = if w.isWrite then book.offset + 1 else book.offset := by
  obtain ⟨side, l⟩ := w
  cases side <;> cases h : l.size.isZero <;>
    simp [level, updateBids, updateAsks, update, SideLevel.isWrite, h]

/-- **What one level does**: at its own price it stores its size and the counter, under the key
stored before if there is one, or removes what is stored; at no other price does it do anything. -/
theorem entry_level (book : OrderBook) (w : SideLevel) (k : Side × ℚ) :
    (book.level w).entry k =
      if w.key = k then
        if w.isWrite then
          some (((book.entry k).map Prod.fst).getD w.2.price, w.2.size, book.offset)
        else none
      else book.entry k := by
  obtain ⟨side, p⟩ := k
  by_cases hside : w.1 = side
  · subst hside
    have hkey : w.key = (w.1, p) ↔ w.2.price.val = p := by simp [SideLevel.key, levelPrice]
    rw [entry, side_level, getKeyValue_level, SideLevel.isWrite]
    simp only [hkey]
    cases w.2.size.isZero <;> rfl
  · have hkey : w.key ≠ (side, p) := fun h => hside (congrArg Prod.fst h)
    rw [if_neg hkey, entry, side_level_of_ne book hside, entry]

/-- One level is one write to the sizes. -/
theorem sizes_level (book : OrderBook) (w : SideLevel) :
    (book.level w).sizes = Function.update book.sizes w.key w.size := by
  funext k
  rw [sizes, entry_level]
  by_cases hk : w.key = k
  · subst hk
    rw [if_pos rfl, Function.update_self, SideLevel.size, levelSize, SideLevel.isWrite]
    cases w.2.size.isZero <;> rfl
  · rw [if_neg hk, Function.update_of_ne (Ne.symm hk), sizes]

/-! ### A log of levels -/

/-- The book after a log of levels. -/
def apply (book : OrderBook) (log : List SideLevel) : OrderBook := log.foldl level book

theorem apply_append (book : OrderBook) (log log' : List SideLevel) :
    book.apply (log ++ log') = (book.apply log).apply log' := List.foldl_append

theorem updateBids_eq (book : OrderBook) (ls : List OrderbookResponsePriceLevel) :
    book.updateBids ls = book.apply (ls.map fun l => (.bid, l)) := by
  induction ls generalizing book with
  | nil => rfl
  | cons l ls ih =>
      have hcons : book.updateBids (l :: ls) = (book.updateBids [l]).updateBids ls := rfl
      rw [hcons, ih]
      rfl

theorem updateAsks_eq (book : OrderBook) (ls : List OrderbookResponsePriceLevel) :
    book.updateAsks ls = book.apply (ls.map fun l => (.ask, l)) := by
  induction ls generalizing book with
  | nil => rfl
  | cons l ls ih =>
      have hcons : book.updateAsks (l :: ls) = (book.updateAsks [l]).updateAsks ls := rfl
      rw [hcons, ih]
      rfl

/-- The book with both sides cleared, and the counter as it was. -/
def cleared (book : OrderBook) : OrderBook :=
  { book with bids := book.bids.clear, asks := book.asks.clear }

/-- The book to which the levels of a message are applied. -/
def start (book : OrderBook) : OrdersMessage → OrderBook
  | .initial _ _ _ => book.cleared
  | .update _ _ _ => book

/-- **A message is the log of its levels**, after the book was cleared if it is a snapshot. -/
theorem receive_eq (book : OrderBook) (m : OrdersMessage) :
    book.receive m = (book.start m).apply m.log := by
  cases m with
  | initial messageId bids asks =>
      rw [OrdersMessage.log, apply_append, ← updateBids_eq, ← updateAsks_eq]
      rfl
  | update messageId bids asks =>
      rw [OrdersMessage.log, apply_append, ← updateBids_eq, ← updateAsks_eq]
      cases bids <;> cases asks <;> rfl

/-- **The sizes after a log are the last writes of the log.** -/
theorem sizes_apply (book : OrderBook) (log : List SideLevel) :
    (book.apply log).sizes = LastWrite.apply SideLevel.key SideLevel.size book.sizes log := by
  induction log using List.reverseRecOn with
  | nil => rfl
  | append_singleton log w ih =>
      rw [LastWrite.apply_concat, ← ih, ← sizes_level, apply_append]
      rfl

/-- The counter counts the levels of nonzero size. -/
theorem offset_apply (book : OrderBook) (log : List SideLevel) :
    (book.apply log).offset = book.offset + UInt64.ofNat (log.countP SideLevel.isWrite) := by
  induction log using List.reverseRecOn with
  | nil => simp [apply]
  | append_singleton log w ih =>
      have hlast : book.apply (log ++ [w]) = (book.apply log).level w := apply_append book log [w]
      rw [hlast, offset_level, ih, List.countP_append, List.countP_singleton]
      split_ifs
      · rw [UInt64.ofNat_add, UInt64.add_assoc]
        rfl
      · rfl

end OrderBook

end MarketMaker
