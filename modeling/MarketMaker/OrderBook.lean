/-
**The order book of the exchange, and that it is the reference book.**

The book keeps two ordered maps from price to size and recency stamp, and one counter from which
the stamps are taken.  An update walks its levels: a zero size removes the price, any other size
overwrites it and takes the next stamp.  A snapshot clears both maps, but not the counter.

The counter is a 64-bit number and its increment wraps, as the release build's does.

* `OrderBook.update`, `OrderBook.updateBids`, `OrderBook.updateAsks` — the code;
* `OrderBook.receive` — what a message does to the book;
* `bookToCcxt` — the top of the book as a unified record, absent where a conversion panics;
* `Represents` — a map of the book holds exactly the live prices of a list of levels;
* `OrderBook.represents_after` — **after any messages the book is the reference book**;
* `Represents.isBest_of_topOf` — **the top of a side is its best live price**.
-/

import MarketMaker.BookHistory
import MarketMaker.BTreeMap

set_option relaxedAutoImplicit false
set_option autoImplicit false

namespace MarketMaker

/-- One side of the book: sizes and recency stamps by price. -/
abbrev BookSide := BTreeMap Price.val (Quantity × UInt64)

structure OrderBook where
  bids : BookSide
  asks : BookSide
  offset : UInt64

namespace OrderBook

/-- The empty book. -/
def default : OrderBook := ⟨BTreeMap.empty _, BTreeMap.empty _, 0⟩

/-- The walk over the levels of one side. -/
def update (map : BookSide) (levels : List OrderbookResponsePriceLevel) (offset : UInt64) :
    BookSide × UInt64 :=
  levels.foldl
    (fun (map, offset) level =>
      if level.size.isZero then (map.remove level.price, offset)
      else (map.insert level.price (level.size, offset), offset + 1))
    (map, offset)

def updateBids (book : OrderBook) (bids : List OrderbookResponsePriceLevel) : OrderBook :=
  let (map, offset) := update book.bids bids book.offset
  { book with bids := map, offset := offset }

def updateAsks (book : OrderBook) (asks : List OrderbookResponsePriceLevel) : OrderBook :=
  let (map, offset) := update book.asks asks book.offset
  { book with asks := map, offset := offset }

/-- What a message does to the book. -/
def receive (book : OrderBook) : OrdersMessage → OrderBook
  | .initial _ bids asks =>
      let book := { book with bids := book.bids.clear, asks := book.asks.clear }
      (book.updateBids bids).updateAsks asks
  | .update _ bids asks =>
      let book := match bids with
        | some bids => book.updateBids bids
        | none => book
      match asks with
      | some asks => book.updateAsks asks
      | none => book

/-- The book after the messages, from the empty book. -/
def after (msgs : List OrdersMessage) : OrderBook := msgs.foldl receive default

/-- The map of a side. -/
def side (book : OrderBook) : Side → BookSide
  | .bid => book.bids
  | .ask => book.asks

@[simp] theorem side_bid_updateBids (book : OrderBook) (ls : List OrderbookResponsePriceLevel) :
    (book.updateBids ls).side .bid = (update (book.side .bid) ls book.offset).1 := rfl

@[simp] theorem side_ask_updateBids (book : OrderBook) (ls : List OrderbookResponsePriceLevel) :
    (book.updateBids ls).side .ask = book.side .ask := rfl

@[simp] theorem side_ask_updateAsks (book : OrderBook) (ls : List OrderbookResponsePriceLevel) :
    (book.updateAsks ls).side .ask = (update (book.side .ask) ls book.offset).1 := rfl

@[simp] theorem side_bid_updateAsks (book : OrderBook) (ls : List OrderbookResponsePriceLevel) :
    (book.updateAsks ls).side .bid = book.side .bid := rfl

theorem update_concat (map : BookSide) (ls : List OrderbookResponsePriceLevel)
    (l : OrderbookResponsePriceLevel) (offset : UInt64) :
    update map (ls ++ [l]) offset =
      if l.size.isZero then ((update map ls offset).1.remove l.price, (update map ls offset).2)
      else ((update map ls offset).1.insert l.price (l.size, (update map ls offset).2),
        (update map ls offset).2 + 1) := by
  simp [update]

end OrderBook

/-! ### The top of the book -/

/-- A stored level as a unified level. -/
def levelToCcxt {D : Type} [DecimalText D] (e : Price × Quantity × UInt64) :
    Option (CcxtOrderBookLevel D) := do
  let price ← bigDecimalToDecimal e.1.inner
  let amount ← bigDecimalToDecimal e.2.1.inner
  some { price := price, amount := amount }

/-- The best bid and the best ask as a unified record. -/
def bookToCcxt {D : Type} [DecimalText D] (orderBook : OrderBook) (symbol : String)
    (nonce : UInt64) : Option (CcxtOrderBook D) := do
  let bestBid := orderBook.bids.lastKeyValue
  let bestAsk := orderBook.asks.firstKeyValue
  let bids ← bestBid.toList.mapM levelToCcxt
  let asks ← bestAsk.toList.mapM levelToCcxt
  some { bids := bids, asks := asks, symbol := symbol, nonce := some nonce }

/-- The end of the map of a side at which its best price stands. -/
def topOf (map : BookSide) : Side → Option (Price × Quantity × UInt64)
  | .bid => map.lastKeyValue
  | .ask => map.firstKeyValue

/-- The listed levels of a side. -/
def CcxtOrderBook.side {D : Type} (ob : CcxtOrderBook D) : Side → List (CcxtOrderBookLevel D)
  | .bid => ob.bids
  | .ask => ob.asks

/-- A record is written from the two ends of the book, side by side. -/
theorem bookToCcxt_eq_some_iff {D : Type} [DecimalText D] {book : OrderBook} {symbol : String}
    {nonce : UInt64} {ob : CcxtOrderBook D} :
    bookToCcxt book symbol nonce = some ob ↔
      (ob.symbol = symbol ∧ ob.timestamp = none ∧ ob.datetime = none ∧ ob.nonce = some nonce) ∧
        ∀ side, (topOf (book.side side) side).toList.mapM levelToCcxt = some (ob.side side) := by
  constructor
  · intro h
    simp only [bookToCcxt, Option.bind_eq_bind, Option.bind_eq_some_iff,
      Option.some.injEq] at h
    obtain ⟨bids, hbids, asks, hasks, rfl⟩ := h
    refine ⟨⟨rfl, rfl, rfl, rfl⟩, fun side => ?_⟩
    cases side
    · exact hbids
    · exact hasks
  · rintro ⟨⟨hsym, hts, hdt, hnonce⟩, hside⟩
    have hbids := hside .bid
    have hasks := hside .ask
    simp only [topOf, OrderBook.side, CcxtOrderBook.side] at hbids hasks
    obtain ⟨bids, asks, symbol', timestamp, datetime, nonce'⟩ := ob
    simp only at hsym hts hdt hnonce hbids hasks
    subst hsym hts hdt hnonce
    simp [bookToCcxt, hbids, hasks]

/-! ### The book is the reference book -/

/-- The map holds the live prices of the levels with their sizes, under keys that are prices of
levels. -/
structure Represents (map : BookSide) (h : List OrderbookResponsePriceLevel) : Prop where
  /-- At every price the map holds the live size. -/
  size : ∀ p, (map.getKeyValue p).map (fun e => e.2.1) = liveSize h p
  /-- Every stored key is the price of a level of nonzero size. -/
  key : ∀ p e, map.getKeyValue p = some e → ∃ l ∈ h, l.price = e.1 ∧ l.size.isZero = false

theorem Represents.empty : Represents (BTreeMap.empty _) [] := by
  constructor
  · intro p
    simp
  · intro p e he
    simp at he

/-- **What one level does to its side**: at its own price it stores its size and a stamp, under the
key stored before if there is one, or removes what is stored; at no other price does it do
anything. -/
theorem getKeyValue_level (map : BookSide) (l : OrderbookResponsePriceLevel) (offset : UInt64)
    (p : ℚ) :
    (if l.size.isZero then map.remove l.price
      else map.insert l.price (l.size, offset)).getKeyValue p =
      if l.price.val = p then
        if l.size.isZero then none
        else some (((map.getKeyValue p).map Prod.fst).getD l.price, l.size, offset)
      else map.getKeyValue p := by
  by_cases hp : l.price.val = p
  · subst hp
    rw [if_pos rfl]
    split_ifs
    · exact BTreeMap.getKeyValue_remove_self map l.price
    · exact BTreeMap.getKeyValue_insert_self map l.price _
  · rw [if_neg hp]
    split_ifs
    · exact BTreeMap.getKeyValue_remove_of_ne _ (Ne.symm hp)
    · exact BTreeMap.getKeyValue_insert_of_ne _ _ (Ne.symm hp)

/-- One level keeps the correspondence. -/
theorem Represents.concat {map : BookSide} {h : List OrderbookResponsePriceLevel}
    (hr : Represents map h) (l : OrderbookResponsePriceLevel) (offset : UInt64) :
    Represents
      (if l.size.isZero then map.remove l.price else map.insert l.price (l.size, offset))
      (h ++ [l]) := by
  have hkey : ∀ p e, map.getKeyValue p = some e →
      ∃ l' ∈ h ++ [l], l'.price = e.1 ∧ l'.size.isZero = false := by
    intro p e he
    obtain ⟨l', hl', hp⟩ := hr.key p e he
    exact ⟨l', List.mem_append_left _ hl', hp⟩
  constructor
  · intro p
    rw [getKeyValue_level]
    split_ifs with hp hz
    · rw [← hp, liveSize_concat_self, levelSize, if_pos hz]
      rfl
    · rw [← hp, liveSize_concat_self, levelSize, if_neg hz]
      rfl
    · rw [liveSize_concat_of_ne h hp, hr.size p]
  · intro p e he
    rw [getKeyValue_level] at he
    split_ifs at he with hp hz
    · obtain rfl := Option.some.inj he
      -- the key stored before stays; without one it is the key of this level
      cases hold : map.getKeyValue p with
      | none => exact ⟨l, by simp, rfl, by simpa using hz⟩
      | some d => exact hkey p d hold
    · exact hkey p e he

/-- **The walk over the levels of a message keeps the correspondence.** -/
theorem Represents.update {map : BookSide} {h : List OrderbookResponsePriceLevel}
    (hr : Represents map h) (ls : List OrderbookResponsePriceLevel) (offset : UInt64) :
    Represents (OrderBook.update map ls offset).1 (h ++ ls) := by
  induction ls using List.reverseRecOn with
  | nil => simpa [OrderBook.update] using hr
  | append_singleton ls l ih =>
      have hstep := ih.concat l (OrderBook.update map ls offset).2
      rw [OrderBook.update_concat, ← List.append_assoc]
      split_ifs at hstep ⊢
      · exact hstep
      · exact hstep

/-- One message keeps the correspondence on both sides. -/
theorem OrderBook.represents_receive {book : OrderBook}
    {h : Side → List OrderbookResponsePriceLevel}
    (hr : ∀ side, Represents (book.side side) (h side)) (m : OrdersMessage) (side : Side) :
    Represents ((book.receive m).side side) (extendLevels side (h side) m) := by
  cases m with
  | initial messageId bids asks =>
      cases side with
      | bid => exact Represents.empty.update bids _
      | ask => exact Represents.empty.update asks _
  | update messageId bids asks =>
      cases side with
      | bid =>
          have hb : Represents ((book.receive (.update messageId bids asks)).side .bid)
              (h .bid ++ bids.getD []) := by
            cases bids <;> cases asks <;> first
              | simpa [receive] using hr .bid
              | exact (hr .bid).update _ _
          exact hb
      | ask =>
          have ha : Represents ((book.receive (.update messageId bids asks)).side .ask)
              (h .ask ++ asks.getD []) := by
            cases bids <;> cases asks <;> first
              | simpa [receive] using hr .ask
              | exact (hr .ask).update _ _
          exact ha

/-- **After any messages the book is the reference book.** -/
theorem OrderBook.represents_after (msgs : List OrdersMessage) (side : Side) :
    Represents ((OrderBook.after msgs).side side) (levelsSince side msgs) := by
  induction msgs using List.reverseRecOn generalizing side with
  | nil =>
      cases side
      · exact Represents.empty
      · exact Represents.empty
  | append_singleton msgs m ih =>
      have hafter : OrderBook.after (msgs ++ [m]) = (OrderBook.after msgs).receive m := by
        simp [OrderBook.after]
      rw [hafter, levelsSince_concat]
      exact represents_receive ih m side

/-! ### The two ends are the best live prices -/

/-- A side has no top exactly when no price is live. -/
theorem Represents.topOf_eq_none_iff {map : BookSide} {h : List OrderbookResponsePriceLevel}
    (hr : Represents map h) (side : Side) :
    topOf map side = none ↔ ∀ p, liveSize h p = none := by
  have hnone : (∀ p, map.getKeyValue p = none) ↔ ∀ p, liveSize h p = none := by
    refine forall_congr' fun p => ?_
    rw [← hr.size p, Option.map_eq_none_iff]
  cases side with
  | bid => exact BTreeMap.lastKeyValue_eq_none_iff.trans hnone
  | ask => exact BTreeMap.firstKeyValue_eq_none_iff.trans hnone

/-- **The top of a side is its best live price**, with its live size. -/
theorem Represents.isBest_of_topOf {map : BookSide} {h : List OrderbookResponsePriceLevel}
    (hr : Represents map h) {side : Side} {e : Price × Quantity × UInt64}
    (he : topOf map side = some e) :
    IsBest side h e.1.val ∧ liveSize h e.1.val = some e.2.1 ∧
      ∃ l ∈ h, l.price = e.1 ∧ l.size.isZero = false := by
  have hlive : ∀ p, (map.getKeyValue p).isSome ↔ (liveSize h p).isSome := by
    intro p
    rw [← hr.size p, Option.isSome_map]
  have hboth : map.getKeyValue e.1.val = some e ∧
      ∀ p, (liveSize h p).isSome → side.Beats e.1.val p := by
    cases side with
    | bid =>
        obtain ⟨hget, hmax⟩ := BTreeMap.lastKeyValue_eq_some_iff.1 he
        exact ⟨hget, fun p hp => hmax p ((hlive p).2 hp)⟩
    | ask =>
        obtain ⟨hget, hmin⟩ := BTreeMap.firstKeyValue_eq_some_iff.1 he
        exact ⟨hget, fun p hp => hmin p ((hlive p).2 hp)⟩
  obtain ⟨hget, hbest⟩ := hboth
  have hsize : liveSize h e.1.val = some e.2.1 := by rw [← hr.size, hget]; rfl
  exact ⟨⟨by simp [hsize], hbest⟩, hsize, hr.key _ _ hget⟩

end MarketMaker
