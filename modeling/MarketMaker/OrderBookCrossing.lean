/-
**Crossed books: when the order-book feed sends one.**

The two sides of the book are kept in two maps, updated from two independent lists, and nothing
compares them: the recency stamp of a level, which tells which of two crossing levels is the older
one, is stored and never read.  So an update that inserts a level through the other side makes the
feed send a crossed book, and this is the only way in which it comes to send one.

* `SnapshotsUncrossed` — every snapshot is uncrossed in itself;
* `StaysApart` — an update leaves each price it inserts on its own side of the opposite prices that
  are live after it;
* `crossed_book_is_sent` — an uncrossed snapshot and one update after which a crossed book is sent;
* `sent_uncrossed_iff_staysApart` — **every book sent is uncrossed if and only if every update
  stays apart**.
-/

import MarketMaker.OrderBookFeed

set_option relaxedAutoImplicit false
set_option autoImplicit false

namespace MarketMaker

variable {D : Type} [DecimalText D]

/-! ### Uncrossed books -/

/-- In each book with both sides the bid price is below the ask price. -/
def SentUncrossed (num : D → ℚ) (obs : List (CcxtOrderBook D)) : Prop :=
  ∀ ob ∈ obs, ∀ bid ∈ ob.bids, ∀ ask ∈ ob.asks, num bid.price < num ask.price

instance (obs : List (CcxtOrderBook ℚ)) (num : ℚ → ℚ) : Decidable (SentUncrossed num obs) :=
  inferInstanceAs (Decidable (∀ ob ∈ obs, ∀ bid ∈ ob.bids, ∀ ask ∈ ob.asks,
    num bid.price < num ask.price))

/-- A snapshot whose nonzero bids are all below its nonzero asks. -/
def OrdersMessage.SnapshotUncrossed : OrdersMessage → Prop
  | .initial _ bids asks => ∀ bid ∈ bids, ∀ ask ∈ asks,
      bid.size.isZero = false → ask.size.isZero = false → bid.price.val < ask.price.val
  | .update _ _ _ => True

instance (m : OrdersMessage) : Decidable m.SnapshotUncrossed :=
  match m with
  | .initial _ bids asks => inferInstanceAs (Decidable (∀ bid ∈ bids, ∀ ask ∈ asks,
      bid.size.isZero = false → ask.size.isZero = false → bid.price.val < ask.price.val))
  | .update _ _ _ => isTrue trivial

/-- Every snapshot is uncrossed in itself. -/
def SnapshotsUncrossed (msgs : List OrdersMessage) : Prop := ∀ m ∈ msgs, m.SnapshotUncrossed

instance (msgs : List OrdersMessage) : Decidable (SnapshotsUncrossed msgs) :=
  inferInstanceAs (Decidable (∀ m ∈ msgs, m.SnapshotUncrossed))

/-- The conversions of the prices that count succeed and keep their values, and the sizes
convert. -/
def ExactPrices (num : D → ℚ) (msgs : List OrdersMessage) : Prop :=
  ∀ m ∈ msgs, ∀ side, ∀ l ∈ m.levels side, l.size.isZero = false →
    (∃ d : D, bigDecimalToDecimal l.price.inner = some d ∧ num d = l.price.val) ∧
      (bigDecimalToDecimal l.size.inner : Option D).isSome

theorem ExactPrices.convertible {num : D → ℚ} {msgs : List OrdersMessage}
    (h : ExactPrices num msgs) : Convertible D msgs := by
  intro m hm side l hl hz
  obtain ⟨⟨d, hd, -⟩, hsize⟩ := h m hm side l hl hz
  exact ⟨by simp [hd], hsize⟩

/-! ### Updates that stay apart -/

/-- **An update stays apart** from the other side: each price it inserts, that is, leaves live by
its own levels, is on its own side of every opposite price that is live after it. -/
def StaysApart (bids asks : List OrderbookResponsePriceLevel) : OrdersMessage → Prop
  | .initial _ _ _ => True
  | .update messageId newBids newAsks =>
      let newBids := (OrdersMessage.update messageId newBids newAsks).levels .bid
      let newAsks := (OrdersMessage.update messageId newBids newAsks).levels .ask
      (∀ p q, (liveSize newBids p).isSome → (liveSize (asks ++ newAsks) q).isSome → p < q) ∧
        ∀ p q, (liveSize (bids ++ newBids) p).isSome → (liveSize newAsks q).isSome → p < q

/-- An uncrossed snapshot leaves an uncrossed book. -/
theorem uncrossed_of_snapshot {messageId : UInt64}
    {bids asks : List OrderbookResponsePriceLevel}
    (h : (OrdersMessage.initial messageId bids asks).SnapshotUncrossed) : Uncrossed bids asks := by
  intro p q hp hq
  obtain ⟨bidSize, hbid⟩ := Option.isSome_iff_exists.1 hp
  obtain ⟨askSize, hask⟩ := Option.isSome_iff_exists.1 hq
  obtain ⟨bid, hbmem, rfl, -, hbz⟩ := exists_level_of_liveSize hbid
  obtain ⟨ask, hamem, rfl, -, haz⟩ := exists_level_of_liveSize hask
  exact h bid hbmem ask hamem hbz haz

/-- **One message**: from an uncrossed book an update leads to an uncrossed book exactly when it
stays apart. -/
theorem uncrossed_extendLevels_iff {bids asks : List OrderbookResponsePriceLevel}
    {m : OrdersMessage} (hsnap : m.SnapshotUncrossed) (h : Uncrossed bids asks) :
    Uncrossed (extendLevels .bid bids m) (extendLevels .ask asks m) ↔ StaysApart bids asks m := by
  cases m with
  | initial messageId newBids newAsks =>
      exact iff_of_true (uncrossed_of_snapshot hsnap) trivial
  | update messageId newBids newAsks =>
      simp only [extendLevels, StaysApart]
      constructor
      · intro hu
        exact ⟨fun p q hp hq => hu p q (isSome_liveSize_append_right hp) hq,
          fun p q hp hq => hu p q hp (isSome_liveSize_append_right hq)⟩
      · rintro ⟨hbid, hask⟩ p q hp hq
        rcases isSome_liveSize_of_append hp with hold | hnew
        · rcases isSome_liveSize_of_append hq with hold' | hnew'
          · exact h p q hold hold'
          · exact hask p q hp hnew'
        · exact hbid p q hnew hq

/-- **A whole run**: the book is uncrossed after every message exactly when every update stays
apart. -/
theorem uncrossed_forall_iff {msgs : List OrdersMessage} (hsnap : SnapshotsUncrossed msgs) :
    (∀ n ≤ msgs.length,
        Uncrossed (levelsSince .bid (msgs.take n)) (levelsSince .ask (msgs.take n))) ↔
      ∀ n m, msgs[n]? = some m →
        StaysApart (levelsSince .bid (msgs.take n)) (levelsSince .ask (msgs.take n)) m := by
  have hsucc : ∀ n m, msgs[n]? = some m → msgs.take (n + 1) = msgs.take n ++ [m] := by
    intro n m hm
    rw [List.take_add_one, hm, Option.toList_some]
  constructor
  · intro h n m hm
    obtain ⟨hn, -⟩ := List.getElem?_eq_some_iff.1 hm
    have hnext := h (n + 1) hn
    rw [hsucc n m hm, levelsSince_concat, levelsSince_concat] at hnext
    exact (uncrossed_extendLevels_iff (hsnap m (List.mem_of_getElem? hm)) (h n hn.le)).1 hnext
  · intro h n
    induction n with
    | zero =>
        intro _ p q hp _
        simp at hp
    | succ n ih =>
        intro hn
        have hm : msgs[n]? = some msgs[n] := List.getElem?_eq_getElem hn
        rw [hsucc n _ hm, levelsSince_concat, levelsSince_concat]
        have hbefore := ih (Nat.le_of_succ_le hn)
        exact (uncrossed_extendLevels_iff (hsnap _ (List.getElem_mem hn)) hbefore).2 (h n _ hm)

/-! ### The books sent -/

/-- A book that lists the best live prices is uncrossed exactly when the reference book is. -/
theorem uncrossed_iff_of_listsBest {num : D → ℚ} {bids asks : List OrderbookResponsePriceLevel}
    (hexact : ∀ l ∈ bids ++ asks, l.size.isZero = false →
      ∃ d : D, bigDecimalToDecimal l.price.inner = some d ∧ num d = l.price.val)
    {ob : CcxtOrderBook D} (hbid : ListsBest .bid bids ob.bids)
    (hask : ListsBest .ask asks ob.asks) :
    (∀ bid ∈ ob.bids, ∀ ask ∈ ob.asks, num bid.price < num ask.price) ↔ Uncrossed bids asks := by
  have hnum : ∀ l ∈ bids ++ asks, l.size.isZero = false → ∀ d : D,
      bigDecimalToDecimal l.price.inner = some d → num d = l.price.val := by
    intro l hl hz d hd
    obtain ⟨d', hd', hval⟩ := hexact l hl hz
    rw [hd, Option.some.injEq] at hd'
    exact hd' ▸ hval
  rcases hbid with ⟨hbnil, hbnone⟩ | ⟨b, hb, -, bid, hbz, hbbest, -, hbprice, -, hbeq⟩
  · refine iff_of_true (by simp [hbnil]) fun p q hp _ => ?_
    simp [hbnone p] at hp
  rcases hask with ⟨hanil, hanone⟩ | ⟨a, ha, -, ask, haz, habest, -, haprice, -, haeq⟩
  · refine iff_of_true (by simp [hanil]) fun p q _ hq => ?_
    simp [hanone q] at hq
  have hbnum := hnum b (List.mem_append_left _ hb) hbz _ hbprice
  have hanum := hnum a (List.mem_append_right _ ha) haz _ haprice
  rw [hbeq, haeq]
  simp only [List.mem_singleton, forall_eq, hbnum, hanum]
  constructor
  · intro hlt p q hp hq
    exact lt_of_le_of_lt (hbbest.2 p hp) (lt_of_lt_of_le hlt (habest.2 q hq))
  · intro hu
    exact hu _ _ hbbest.1 habest.1

/-- The books sent are uncrossed exactly when the reference book is uncrossed after every
message. -/
theorem sentUncrossed_iff_forall_uncrossed {num : D → ℚ} {msgs : List OrdersMessage}
    (hexact : ExactPrices num msgs) (symbol : String) {fuel : ℕ} (hfuel : msgs.length < fuel) :
    SentUncrossed num (handleOrderBookFeed (D := D) symbol fuel msgs).1 ↔
      ∀ n ≤ msgs.length,
        Uncrossed (levelsSince .bid (msgs.take n)) (levelsSince .ask (msgs.take n)) := by
  have hconv := hexact.convertible
  rw [handleOrderBookFeed_eq hconv symbol hfuel]
  have hlevels : ∀ n, ∀ l ∈ levelsSince .bid (msgs.take n) ++ levelsSince .ask (msgs.take n),
      l.size.isZero = false →
        ∃ d : D, bigDecimalToDecimal l.price.inner = some d ∧ num d = l.price.val := by
    intro n l hl hz
    obtain ⟨side, hside⟩ : ∃ side, l ∈ levelsSince side (msgs.take n) := by
      rcases List.mem_append.1 hl with hl | hl
      · exact ⟨_, hl⟩
      · exact ⟨_, hl⟩
    obtain ⟨m, hm, hlm⟩ := mem_levelsSince hside
    exact (hexact m (List.mem_of_mem_take hm) side l hlm hz).1
  constructor
  · intro h n hn
    cases n with
    | zero =>
        intro p q hp _
        simp at hp
    | succ n =>
        obtain ⟨ob, hob, -, -, hbest⟩ :=
          exists_sent_listsBest hconv symbol (List.getElem?_eq_getElem hn)
        exact (uncrossed_iff_of_listsBest (hlevels _) (hbest .bid) (hbest .ask)).1
          (h ob (List.mem_of_getElem? hob))
  · intro h ob hob
    obtain ⟨n, hn⟩ := List.mem_iff_getElem?.1 hob
    obtain ⟨m, hm, hrec⟩ := bookToCcxt_of_sent hn
    have hbest := listsBest_of_bookToCcxt (OrderBook.represents_after _) hrec
    obtain ⟨hlt, -⟩ := List.getElem?_eq_some_iff.1 hm
    exact (uncrossed_iff_of_listsBest (hlevels _) (hbest .bid) (hbest .ask)).2 (h (n + 1) hlt)

/-- **When every book sent is uncrossed**: for feeds whose snapshots are uncrossed and whose prices
convert exactly, every book the handler sends with both a bid and an ask has its bid below its ask
if and only if every update stays apart from the other side. -/
theorem sent_uncrossed_iff_staysApart (num : D → ℚ) (symbol : String) (msgs : List OrdersMessage)
    (hsnap : SnapshotsUncrossed msgs) (hexact : ExactPrices num msgs) (fuel : ℕ)
    (hfuel : msgs.length < fuel) :
    SentUncrossed num (handleOrderBookFeed (D := D) symbol fuel msgs).1 ↔
      ∀ n m, msgs[n]? = some m →
        StaysApart (levelsSince .bid (msgs.take n)) (levelsSince .ask (msgs.take n)) m :=
  (sentUncrossed_iff_forall_uncrossed hexact symbol hfuel).trans (uncrossed_forall_iff hsnap)

/-- A snapshot with one bid and one ask, and an update that inserts a bid above the ask. -/
private def crossingOrders : List OrdersMessage :=
  [.initial 1 [⟨⟨⟨100, 0⟩⟩, ⟨⟨1, 0⟩⟩⟩] [⟨⟨⟨101, 0⟩⟩, ⟨⟨1, 0⟩⟩⟩],
    .update 2 (some [⟨⟨⟨102, 0⟩⟩, ⟨⟨1, 0⟩⟩⟩]) none]

theorem exactPrices_crossingOrders : ExactPrices (D := ℚ) id crossingOrders := by
  intro m hm side l hl _
  have hall : ∀ m ∈ crossingOrders, ∀ side, ∀ l ∈ m.levels side,
      bigDecimalToDecimal l.price.inner = some l.price.val ∧
        (bigDecimalToDecimal l.size.inner : Option ℚ).isSome := by decide +kernel
  exact ⟨⟨_, (hall m hm side l hl).1, rfl⟩, (hall m hm side l hl).2⟩

/-- **A crossed book is sent**: the snapshot is uncrossed, and the book sent after the update has
the bid 102 and the ask 101. -/
theorem crossed_book_is_sent :
    SnapshotsUncrossed crossingOrders ∧
      ¬ SentUncrossed id (handleOrderBookFeed (D := ℚ) "BTC-USD" 3 crossingOrders).1 := by
  decide +kernel

theorem sent_uncrossed_iff_staysApart_crossing :
    SentUncrossed id (handleOrderBookFeed (D := ℚ) "BTC-USD" 3 crossingOrders).1 ↔
      ∀ n m, crossingOrders[n]? = some m →
        StaysApart (levelsSince .bid (crossingOrders.take n))
          (levelsSince .ask (crossingOrders.take n)) m :=
  sent_uncrossed_iff_staysApart id "BTC-USD" crossingOrders (by decide +kernel)
    exactPrices_crossingOrders 3 (by decide)

end MarketMaker
