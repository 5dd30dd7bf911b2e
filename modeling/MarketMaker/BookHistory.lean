/-
**What an order book is for: the last size of every price.**

A feed of order-book messages determines, for each side and each price, the size of the last level
the feed carried for that price since the last snapshot.  A price is *live* when that size is not
zero.  This module states that meaning on the messages alone, with no book in sight; the book the
exchange keeps is compared with it in `MarketMaker/OrderBook.lean`.

Prices are compared by `Price.val`, so that the levels of `1.0` and of `1.00` are levels of one
price.

* `OrdersMessage.levels`, `levelsSince` — the levels of a side that count;
* `liveSize` — **the reference book**: the last size of a price, if it is not zero;
* `IsBest` — a live price that no other live price beats;
* `TwoSided`, `Uncrossed` — both sides have a live price; every live bid is below every live ask.
-/

import MarketMaker.Ccxt
import MarketMaker.LastWrite
import Mathlib.Data.Finset.Insert
import Mathlib.Data.Fintype.Defs

set_option relaxedAutoImplicit false
set_option autoImplicit false

namespace MarketMaker

/-- A side of a book. -/
inductive Side
  | bid
  | ask
deriving DecidableEq, Repr

instance : Fintype Side := ⟨{.bid, .ask}, by rintro (_ | _) <;> simp⟩

/-- `p` is a better price than `q`, or as good: a higher bid, a lower ask. -/
def Side.Beats : Side → ℚ → ℚ → Prop
  | .bid, p, q => q ≤ p
  | .ask, p, q => p ≤ q

/-! ### The levels that count -/

/-- The identifier of a message. -/
def OrdersMessage.messageId : OrdersMessage → UInt64
  | .initial messageId _ _ => messageId
  | .update messageId _ _ => messageId

/-- The levels a message carries for a side; a side absent from an update has none. -/
def OrdersMessage.levels : OrdersMessage → Side → List OrderbookResponsePriceLevel
  | .initial _ bids _, .bid => bids
  | .initial _ _ asks, .ask => asks
  | .update _ bids _, .bid => bids.getD []
  | .update _ _ asks, .ask => asks.getD []

/-- The levels of a side after one more message: a snapshot starts anew, an update adds its own. -/
def extendLevels (side : Side) (h : List OrderbookResponsePriceLevel) :
    OrdersMessage → List OrderbookResponsePriceLevel
  | .initial messageId bids asks => (OrdersMessage.initial messageId bids asks).levels side
  | .update messageId bids asks => h ++ (OrdersMessage.update messageId bids asks).levels side

/-- The levels of a side since the last snapshot, or since the start if there was none. -/
def levelsSince (side : Side) (msgs : List OrdersMessage) : List OrderbookResponsePriceLevel :=
  msgs.foldl (extendLevels side) []

@[simp] theorem levelsSince_nil (side : Side) : levelsSince side [] = [] := rfl

theorem levelsSince_concat (side : Side) (msgs : List OrdersMessage) (m : OrdersMessage) :
    levelsSince side (msgs ++ [m]) = extendLevels side (levelsSince side msgs) m := by
  simp [levelsSince]

/-- Every level that counts was carried by some message. -/
theorem mem_levelsSince {side : Side} {msgs : List OrdersMessage}
    {l : OrderbookResponsePriceLevel} (h : l ∈ levelsSince side msgs) :
    ∃ m ∈ msgs, l ∈ m.levels side := by
  induction msgs using List.reverseRecOn with
  | nil => simp at h
  | append_singleton msgs m ih =>
      rw [levelsSince_concat] at h
      cases m with
      | initial messageId bids asks => exact ⟨_, by simp, h⟩
      | update messageId bids asks =>
          rcases List.mem_append.1 h with h | h
          · obtain ⟨m, hm, hl⟩ := ih h
            exact ⟨m, by simp [hm], hl⟩
          · exact ⟨_, by simp, h⟩

/-! ### The live prices -/

/-- The number a level is keyed by. -/
def levelPrice (l : OrderbookResponsePriceLevel) : ℚ := l.price.val

/-- The size a level leaves at its price: none when it is zero. -/
def levelSize (l : OrderbookResponsePriceLevel) : Option Quantity :=
  if l.size.isZero then none else some l.size

/-- **The size of a live price**: that of the last level of the price, if it is not zero. -/
def liveSize (h : List OrderbookResponsePriceLevel) (p : ℚ) : Option Quantity :=
  (LastWrite.last levelPrice h p).bind levelSize

@[simp] theorem liveSize_nil (p : ℚ) : liveSize [] p = none := rfl

theorem liveSize_append (h h' : List OrderbookResponsePriceLevel) (p : ℚ) :
    liveSize (h ++ h') p =
      match LastWrite.last levelPrice h' p with
      | none => liveSize h p
      | some l => levelSize l := by
  rw [liveSize, LastWrite.last_append]
  cases LastWrite.last levelPrice h' p <;> rfl

@[simp] theorem liveSize_concat_self (h : List OrderbookResponsePriceLevel)
    (l : OrderbookResponsePriceLevel) : liveSize (h ++ [l]) l.price.val = levelSize l := by
  have hlast : LastWrite.last levelPrice (h ++ [l]) l.price.val = some l :=
    LastWrite.last_concat_self levelPrice h l
  rw [liveSize, hlast, Option.bind_some]

theorem liveSize_concat_of_ne (h : List OrderbookResponsePriceLevel)
    {l : OrderbookResponsePriceLevel} {p : ℚ} (hp : l.price.val ≠ p) :
    liveSize (h ++ [l]) p = liveSize h p := by
  rw [liveSize, LastWrite.last_concat_of_ne levelPrice h hp, liveSize]

/-- A price live after more levels was live before them or is left live by them. -/
theorem isSome_liveSize_of_append {h h' : List OrderbookResponsePriceLevel} {p : ℚ}
    (hp : (liveSize (h ++ h') p).isSome) : (liveSize h p).isSome ∨ (liveSize h' p).isSome := by
  rw [liveSize_append] at hp
  cases hlast : LastWrite.last levelPrice h' p with
  | none => exact Or.inl (by simpa [hlast] using hp)
  | some l => exact Or.inr (by simpa [liveSize, hlast] using hp)

/-- A price the later levels leave live is live after them. -/
theorem isSome_liveSize_append_right {h h' : List OrderbookResponsePriceLevel} {p : ℚ}
    (hp : (liveSize h' p).isSome) : (liveSize (h ++ h') p).isSome := by
  rw [liveSize_append]
  cases hlast : LastWrite.last levelPrice h' p with
  | none => simp [liveSize, hlast] at hp
  | some l => simpa [liveSize, hlast] using hp

/-- A live price has a level of nonzero size. -/
theorem exists_level_of_liveSize {h : List OrderbookResponsePriceLevel} {p : ℚ} {q : Quantity}
    (hq : liveSize h p = some q) :
    ∃ l ∈ h, l.price.val = p ∧ l.size = q ∧ l.size.isZero = false := by
  obtain ⟨l, hl, hs⟩ := Option.bind_eq_some_iff.1 hq
  obtain ⟨hmem, hp⟩ := LastWrite.last_eq_some _ hl
  rw [levelSize] at hs
  split at hs
  · simp at hs
  · rename_i hz
    exact ⟨l, hmem, hp, Option.some_inj.1 hs, by simpa using hz⟩

/-- A live price of the side that no live price beats. -/
def IsBest (side : Side) (h : List OrderbookResponsePriceLevel) (p : ℚ) : Prop :=
  (liveSize h p).isSome ∧ ∀ q, (liveSize h q).isSome → side.Beats p q

/-- A side has one best price at most. -/
theorem IsBest.eq {side : Side} {h : List OrderbookResponsePriceLevel} {p q : ℚ}
    (hp : IsBest side h p) (hq : IsBest side h q) : p = q := by
  have hpq := hp.2 q hq.1
  have hqp := hq.2 p hp.1
  cases side with
  | bid => exact le_antisymm hqp hpq
  | ask => exact le_antisymm hpq hqp

/-- Both sides have a live price. -/
def TwoSided (msgs : List OrdersMessage) : Prop :=
  ∀ side, ∃ p, (liveSize (levelsSince side msgs) p).isSome

/-- Every live bid is below every live ask. -/
def Uncrossed (bids asks : List OrderbookResponsePriceLevel) : Prop :=
  ∀ p q, (liveSize bids p).isSome → (liveSize asks q).isSome → p < q

end MarketMaker
