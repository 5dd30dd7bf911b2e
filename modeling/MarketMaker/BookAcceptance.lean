/-
**Which books of the exchange the strategy accepts.**

The order-book feed sends a book after every message, with an empty list of levels for a side that
has no live price; the strategy takes the first level of both sides without a look.  So it accepts
the books of a feed exactly when every message leaves live prices on both sides.

A feed also ends where a number fails to convert: the books after that are not sent.

* `TopConverts` — the numbers of the best levels convert;
* `mem_sent_iff` — the books sent are those of the states up to the first that does not convert;
* `one_sided_book_is_sent` — a snapshot with bids only, and a strategy with its parameters stored;
* `books_accepted_iff_twoSided` — **the strategy accepts every book of a feed if and only if every
  message up to the first whose numbers do not convert leaves both sides with live prices**.
-/

import MarketMaker.OrderBookFeed
import MarketMaker.Strategy

set_option relaxedAutoImplicit false
set_option autoImplicit false

namespace MarketMaker

open Panicking

variable {D F : Type} [DecimalText D]

/-! ### The books sent -/

/-- The numbers of the best levels after the messages convert. -/
def TopConverts (D : Type) [DecimalText D] (msgs : List OrdersMessage) : Prop :=
  (bookToCcxt (OrderBook.after msgs) "" 0 : Option (CcxtOrderBook D)).isSome

/-- Whether the record of a book exists does not depend on its symbol and its nonce. -/
theorem isSome_bookToCcxt_of_isSome {book : OrderBook} {symbol : String} {nonce : UInt64}
    (h : (bookToCcxt book symbol nonce : Option (CcxtOrderBook D)).isSome) (symbol' : String)
    (nonce' : UInt64) : (bookToCcxt book symbol' nonce' : Option (CcxtOrderBook D)).isSome := by
  obtain ⟨ob, hob⟩ := Option.isSome_iff_exists.1 h
  obtain ⟨⟨-, hts, hdt, -⟩, hside⟩ := bookToCcxt_eq_some_iff.1 hob
  refine Option.isSome_iff_exists.2
    ⟨{ ob with symbol := symbol', nonce := some nonce' },
      bookToCcxt_eq_some_iff.2 ⟨⟨rfl, hts, hdt, rfl⟩, fun side => ?_⟩⟩
  cases side
  · exact hside .bid
  · exact hside .ask

/-- **The books sent** are those after some number of messages, all states up to which convert. -/
theorem mem_sent_iff {symbol : String} {msgs : List OrdersMessage} {ob : CcxtOrderBook D} :
    ob ∈ (ReceiveLoop.onMessages (onOrdersMessage symbol) OrderBook.default msgs).sent ↔
      ∃ n m, msgs[n]? = some m ∧ (∀ k ≤ n, TopConverts D (msgs.take (k + 1))) ∧
        bookToCcxt (OrderBook.after (msgs.take (n + 1))) symbol m.messageId = some ob := by
  rw [List.mem_iff_getElem?]
  refine exists_congr fun n => ?_
  rw [onOrdersMessage, ReceiveLoop.sent_sendOne_eq_some_iff]
  constructor
  · rintro ⟨⟨m, hm, hob⟩, hbefore⟩
    refine ⟨m, hm, fun k hk => ?_, hob⟩
    rcases Nat.lt_or_eq_of_le hk with hlt | rfl
    · have hn := (List.getElem?_eq_some_iff.1 hm).1
      exact isSome_bookToCcxt_of_isSome
        (hbefore k _ hlt (List.getElem?_eq_getElem (hlt.trans hn))) _ _
    · exact isSome_bookToCcxt_of_isSome (Option.isSome_iff_exists.2 ⟨ob, hob⟩) _ _
  · rintro ⟨m, hm, hconv, hob⟩
    exact ⟨⟨m, hm, hob⟩, fun k m' hk _ => isSome_bookToCcxt_of_isSome (hconv k hk.le) _ _⟩

/-- A listed side is empty exactly when no price of it is live. -/
theorem ListsBest.eq_nil_iff {side : Side} {h : List OrderbookResponsePriceLevel}
    {levels : List (CcxtOrderBookLevel D)} (hbest : ListsBest side h levels) :
    levels = [] ↔ ¬ ∃ p, (liveSize h p).isSome := by
  rcases hbest with ⟨rfl, hnone⟩ | ⟨l, -, size, level, -, -, hsize, -, -, rfl⟩
  · exact iff_of_true rfl fun ⟨p, hp⟩ => by simp [hnone p] at hp
  · exact iff_of_false (by simp) (not_not_intro ⟨_, Option.isSome_iff_exists.2 ⟨size, hsize⟩⟩)

/-- A book has an empty side exactly when the messages leave one side without live prices. -/
theorem emptySide_iff_not_twoSided {msgs : List OrdersMessage} {symbol : String} {nonce : UInt64}
    {ob : CcxtOrderBook D} (h : bookToCcxt (OrderBook.after msgs) symbol nonce = some ob) :
    (ob.bids = [] ∨ ob.asks = []) ↔ ¬ TwoSided msgs := by
  have hbest := listsBest_of_bookToCcxt (OrderBook.represents_after msgs) h
  have hbid : ob.bids = [] ↔ _ := (hbest .bid).eq_nil_iff
  have hask : ob.asks = [] ↔ _ := (hbest .ask).eq_nil_iff
  rw [hbid, hask, ← not_and_or, not_iff_not]
  exact ⟨fun ⟨hb, ha⟩ side => by cases side <;> assumption, fun h => ⟨h .bid, h .ask⟩⟩

/-! ### The books accepted -/

variable [DecimalOps D]

omit [DecimalText D] [DecimalOps D] in
/-- The four parameters of a symbol are stored, `γ` and `κ` being positive. -/
def ParametersPositive (num : D → ℚ) (stores : Stores D) (exchangeName symbol : String) : Prop :=
  (stores.lookup (exchangeName ++ "_" ++ symbol ++ "_q")).isSome ∧
    (stores.lookup (exchangeName ++ "_" ++ symbol ++ "_σ")).isSome ∧
    (∃ γ, stores.lookup (exchangeName ++ "_" ++ symbol ++ "_γ") = some γ ∧ 0 < num γ) ∧
    ∃ κ, stores.lookup (exchangeName ++ "_" ++ symbol ++ "_κ") = some κ ∧ 0 < num κ

omit [DecimalText D] in
/-- There are stores with all four parameters of a symbol set to one. -/
theorem exists_parametersPositive {num : D → ℚ} (hone : 0 < num DecimalOps.one)
    (exchangeName symbol : String) :
    ∃ stores : Stores D, stores.Initialized ∧
      ParametersPositive num stores exchangeName symbol := by
  have hfold : ∀ (suffixes : List String) (stores : Stores D), stores.Initialized →
      ∃ t : Stores D, t.Initialized ∧ ∀ suffix,
        suffix ∈ suffixes ∨
            stores.lookup (exchangeName ++ "_" ++ symbol ++ suffix) = some DecimalOps.one →
          t.lookup (exchangeName ++ "_" ++ symbol ++ suffix) = some DecimalOps.one := by
    intro suffixes
    induction suffixes with
    | nil => exact fun stores hs => ⟨stores, hs, by simp⟩
    | cons a suffixes ih =>
        intro stores hs
        obtain ⟨t, ht, hlookup⟩ :=
          ih (stores.set (exchangeName ++ "_" ++ symbol ++ a) DecimalOps.one) (hs.set _ _)
        refine ⟨t, ht, fun suffix h => hlookup suffix ?_⟩
        by_cases heq : suffix = a
        · subst heq
          exact Or.inr (Stores.lookup_set_self hs.1 _ _)
        · rcases h with h | h
          · exact Or.inl (List.mem_of_ne_of_mem heq h)
          · refine Or.inr ?_
            rw [Stores.lookup_set_of_ne _ fun hkey => heq ((String.append_right_inj _).1 hkey), h]
  obtain ⟨t, ht, hlookup⟩ := hfold ["_q", "_γ", "_σ", "_κ"] ⟨some .new, some (.new 0)⟩ ⟨rfl, rfl⟩
  refine ⟨t, ht, ?_, ?_, ⟨_, hlookup "_γ" (by simp), hone⟩, ⟨_, hlookup "_κ" (by simp), hone⟩⟩
  · rw [hlookup "_q" (by simp)]
    rfl
  · rw [hlookup "_σ" (by simp)]
    rfl

/-- **The strategy accepts a book**: from all stores with the parameters of its symbol, handling it
does not panic on an empty side. -/
def Accepts (F : Type) (num : D → ℚ) (exchangeName : String) (ob : CcxtOrderBook D) : Prop :=
  ∀ stores now, ParametersPositive num stores exchangeName ob.symbol →
    reason (handleMessage (.ccxtOrderBook ob : CcxtMessage D F) exchangeName now) stores ≠
      some .emptySide

omit [DecimalText D] in
theorem accepts_iff {num : D → ℚ} (hone : 0 < num DecimalOps.one) (exchangeName : String)
    (ob : CcxtOrderBook D) :
    Accepts F num exchangeName ob ↔ ¬ (ob.bids = [] ∨ ob.asks = []) := by
  constructor
  · intro h hempty
    obtain ⟨stores, hs, hready⟩ := exists_parametersPositive hone exchangeName ob.symbol
    exact h stores 0 hready (reason_of_emptySide hs hempty exchangeName 0)
  · exact fun h stores now _ hreason => h (emptySide_of_reason hreason)

/-- **When the strategy accepts every book of a feed**: exactly when, after each message up to the
first whose numbers do not convert, both sides have a live price. -/
theorem books_accepted_iff_twoSided (num : D → ℚ) (hone : 0 < num DecimalOps.one)
    (exchangeName symbol : String) (msgs : List OrdersMessage) (fuel : ℕ)
    (hfuel : msgs.length < fuel) :
    (∀ ob ∈ (handleOrderBookFeed (D := D) symbol fuel msgs).1, Accepts F num exchangeName ob) ↔
      ∀ n < msgs.length, (∀ k ≤ n, TopConverts D (msgs.take (k + 1))) →
        TwoSided (msgs.take (n + 1)) := by
  rw [sent_handleOrderBookFeed symbol hfuel]
  constructor
  · intro h n hn hconv
    obtain ⟨ob, hob⟩ := Option.isSome_iff_exists.1
      (isSome_bookToCcxt_of_isSome (hconv n le_rfl) symbol msgs[n].messageId)
    have hsent := mem_sent_iff.2 ⟨n, msgs[n], List.getElem?_eq_getElem hn, hconv, hob⟩
    have haccepts := (accepts_iff hone exchangeName ob).1 (h ob hsent)
    rwa [emptySide_iff_not_twoSided hob, not_not] at haccepts
  · intro h ob hob
    obtain ⟨n, m, hm, hconv, hrec⟩ := mem_sent_iff.1 hob
    have htwo := h n (List.getElem?_eq_some_iff.1 hm).1 hconv
    rw [accepts_iff hone, emptySide_iff_not_twoSided hrec, not_not]
    exact htwo

/-- **A one-sided book is sent and not accepted**: the book of a snapshot with bids only. -/
theorem one_sided_book_is_sent :
    letI := exactOps fun _ => none
    ∃ ob ∈ (handleOrderBookFeed (D := ℚ) "BTC-USD" 2
        [.initial 1 [⟨⟨⟨100, 0⟩⟩, ⟨⟨1, 0⟩⟩⟩] []]).1,
      ¬ Accepts ℚ id "dydx" ob := by
  let : DecimalOps ℚ := exactOps fun _ => none
  refine ⟨{ bids := [⟨100, 1⟩], asks := [], symbol := "BTC-USD", nonce := some 1 },
    by decide +kernel, fun h => ?_⟩
  exact (accepts_iff (show (0 : ℚ) < id 1 by decide) "dydx" _).1 h (Or.inr rfl)

/-- A snapshot with a bid and an ask. -/
private def twoSidedSnapshot : List OrdersMessage :=
  [.initial 1 [⟨⟨⟨100, 0⟩⟩, ⟨⟨1, 0⟩⟩⟩] [⟨⟨⟨101, 0⟩⟩, ⟨⟨1, 0⟩⟩⟩]]

/-- The logarithm of two, to 28 decimal places. -/
private def lnAtTwo (x : ℚ) : Option ℚ :=
  if x = 2 then some (6931471805599453094172321215 / 10 ^ 28) else none

/-- The stores of a symbol with all parameters one but `q`, which is zero. -/
private def oneStores : Stores ℚ :=
  [("_q", 0), ("_γ", 1), ("_σ", 1), ("_κ", 1)].foldl
    (fun stores e => stores.set ("dydx_BTC-USD" ++ e.1) e.2) ⟨some .new, some (.new 0)⟩

/-- The book of the snapshot is accepted, and handled without any panic. -/
theorem books_accepted_iff_twoSided_sample :
    letI := exactOps lnAtTwo
    (handleOrderBookFeed (D := ℚ) "BTC-USD" 2 twoSidedSnapshot).1.length = 1 ∧
      ∀ ob ∈ (handleOrderBookFeed (D := ℚ) "BTC-USD" 2 twoSidedSnapshot).1,
        Accepts ℚ id "dydx" ob ∧
          reason (handleMessage (.ccxtOrderBook ob : CcxtMessage ℚ ℚ) "dydx" 0) oneStores =
            none := by
  let : DecimalOps ℚ := exactOps lnAtTwo
  have haccepts : ∀ ob ∈ (handleOrderBookFeed (D := ℚ) "BTC-USD" 2 twoSidedSnapshot).1,
      Accepts ℚ id "dydx" ob := by
    refine (books_accepted_iff_twoSided id (show (0 : ℚ) < id 1 by decide) "dydx" "BTC-USD"
      twoSidedSnapshot 2 (by decide)).2 ?_
    intro n hn _ side
    obtain rfl : n = 0 := Nat.lt_one_iff.1 hn
    cases side
    · exact ⟨100, by decide +kernel⟩
    · exact ⟨101, by decide +kernel⟩
  have hhandled : ∀ ob ∈ (handleOrderBookFeed (D := ℚ) "BTC-USD" 2 twoSidedSnapshot).1,
      reason (handleMessage (.ccxtOrderBook ob : CcxtMessage ℚ ℚ) "dydx" 0) oneStores = none := by
    decide +kernel
  exact ⟨by decide +kernel, fun ob hob => ⟨haccepts ob hob, hhandled ob hob⟩⟩

end MarketMaker
