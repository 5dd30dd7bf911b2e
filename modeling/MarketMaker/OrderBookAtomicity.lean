/-
**Order books are handled all or nothing.**

Everything that can panic in the handling of an order book comes before the first value it stores.
So either the stores are as they were, or the five values of the book are stored and nothing else;
and a panic is one of three: an empty side, a parameter that is not stored, or an operation on
decimals that faults.

* `BookStored` — the values of a book are stored at its keys;
* `handleOrderBook_spec` — what the handling of a book does;
* `order_book_atomic` — **all or nothing**, as the message handler does it.
-/

import MarketMaker.Strategy

set_option relaxedAutoImplicit false
set_option autoImplicit false

namespace MarketMaker

open Panicking

variable {D F : Type} [DecimalOps D]

/-- The values stored at the keys of a book are those of its first levels and of their midpoint. -/
def BookStored (stores : Stores D) (exchangeName : String) (update : CcxtOrderBook D) : Prop :=
  ∃ bid ask midPrice, update.bids.head? = some bid ∧ update.asks.head? = some ask ∧
    midPoint bid.price ask.price = some midPrice ∧
    stores.lookup (exchangeName ++ "_" ++ update.symbol ++ "_bid_price") = some bid.price ∧
    stores.lookup (exchangeName ++ "_" ++ update.symbol ++ "_bid_size") = some bid.amount ∧
    stores.lookup (exchangeName ++ "_" ++ update.symbol ++ "_ask_price") = some ask.price ∧
    stores.lookup (exchangeName ++ "_" ++ update.symbol ++ "_ask_size") = some ask.amount ∧
    stores.lookup (exchangeName ++ "_" ++ update.symbol ++ "_mid_price") = some midPrice

omit [DecimalOps D] in
/-- What is stored at the keys of a book after its values were stored: the keys differ. -/
theorem Stores.lookup_setBook_keys {stores : Stores D} (hs : stores.Initialized)
    (exchangeName symbol : String) (quotes : Quotes D) :
    let t := stores.setBook exchangeName symbol quotes
    t.lookup (exchangeName ++ "_" ++ symbol ++ "_bid_price") = some quotes.bidPrice ∧
      t.lookup (exchangeName ++ "_" ++ symbol ++ "_bid_size") = some quotes.bidSize ∧
      t.lookup (exchangeName ++ "_" ++ symbol ++ "_ask_price") = some quotes.askPrice ∧
      t.lookup (exchangeName ++ "_" ++ symbol ++ "_ask_size") = some quotes.askSize ∧
      t.lookup (exchangeName ++ "_" ++ symbol ++ "_mid_price") = some quotes.midPrice := by
  intro t
  have hstored : ∀ {key : String} {value : D},
      (key, value) ∈ bookWrites exchangeName symbol quotes → t.lookup key = some value :=
    fun hmem => lookup_setAll_of_mem hs.1 (nodup_bookWrites exchangeName symbol quotes) hmem
  refine ⟨?_, ?_, ?_, ?_, ?_⟩ <;> exact hstored (by simp [bookWrites])

/-- The stores after a book was handled: its values are stored, and nothing else has changed. -/
structure BookHandled (stores t : Stores D) (exchangeName : String) (update : CcxtOrderBook D) :
    Prop where
  stored : BookStored t exchangeName update
  others : ∀ key, key ∉ bookKeys exchangeName update.symbol → t.lookup key = stores.lookup key
  trades : t.trades = stores.trades

/-- **What the handling of a book does.** -/
theorem handleOrderBook_spec {stores : Stores D} (hs : stores.Initialized)
    (update : CcxtOrderBook D) (exchangeName : String) :
    (∃ t : Stores D, t.Initialized ∧ BookHandled stores t exchangeName update ∧
        (handleOrderBook update exchangeName).run stores = .ok () t) ∨
      ∃ e, Faults stores update exchangeName e ∧
        (handleOrderBook update exchangeName).run stores = .error e stores := by
  rcases (orderBookQuotes_spec update exchangeName stores).run_bind _ with
    ⟨quotes, hquotes, -, hrun⟩ | hpanic
  · refine Or.inl ⟨stores.setBook exchangeName update.symbol quotes, hs.setBook _ _ _, ?_, hrun⟩
    obtain ⟨bid, hbid, hbp, hbs⟩ := hquotes.bid
    obtain ⟨ask, hask, hap, has⟩ := hquotes.ask
    refine ⟨⟨bid, ask, quotes.midPrice, hbid, hask, hbp ▸ hap ▸ hquotes.mid, ?_⟩,
      fun key hkey => Stores.lookup_setBook stores hkey quotes, rfl⟩
    rw [← hbp, ← hbs, ← hap, ← has]
    exact Stores.lookup_setBook_keys hs exchangeName update.symbol quotes
  · exact Or.inr hpanic

/-- **All or nothing**: from stores that have been set, handling an order book panics for one of the
reasons and leaves both stores as they were, or it returns, and then exactly the five keys of the
book have new values, those of its first levels and of their midpoint. -/
theorem order_book_atomic (stores : Stores D) (hs : stores.Initialized)
    (update : CcxtOrderBook D) (exchangeName : String) (now : ℕ) :
    (∃ e, Faults stores update exchangeName e ∧
        (handleMessage (.ccxtOrderBook update : CcxtMessage D F) exchangeName now).run stores =
          .error e stores) ∨
      ∃ t : Stores D, BookHandled stores t exchangeName update ∧
        (handleMessage (.ccxtOrderBook update : CcxtMessage D F) exchangeName now).run stores =
          .ok () t := by
  have hrun := run_handleMessage hs (.ccxtOrderBook update : CcxtMessage D F) exchangeName now
  rcases handleOrderBook_spec hs update exchangeName with ⟨t, -, ht, hok⟩ | ⟨e, he, herr⟩
  · exact Or.inr ⟨t, ht, hrun.trans hok⟩
  · exact Or.inl ⟨e, he, hrun.trans herr⟩

/-- A book of one level on each side. -/
private def plainBook : CcxtOrderBook ℚ where
  bids := [⟨100, 1⟩]
  asks := [⟨101, 1⟩]
  symbol := "BTC-USD"
  nonce := none

/-- Without parameters the book leaves the stores as they were. -/
theorem order_book_atomic_sample :
    letI := exactOps fun _ => none
    ∃ e, Faults (⟨some .new, some (.new 0)⟩ : Stores ℚ) plainBook "dydx" e ∧
      (handleMessage (.ccxtOrderBook plainBook : CcxtMessage ℚ ℚ) "dydx" 0).run
        ⟨some .new, some (.new 0)⟩ = .error e ⟨some .new, some (.new 0)⟩ := by
  let : DecimalOps ℚ := exactOps fun _ => none
  rcases order_book_atomic (F := ℚ) ⟨some .new, some (.new 0)⟩ ⟨rfl, rfl⟩ plainBook "dydx" 0 with
    hpanic | ⟨t, -, ht⟩
  · exact hpanic
  · have hreason : reason (handleMessage (.ccxtOrderBook plainBook : CcxtMessage ℚ ℚ) "dydx" 0)
        ⟨some .new, some (.new 0)⟩ = some .missingParameter := by decide +kernel
    rw [reason_of_ok ht] at hreason
    cases hreason

end MarketMaker
