/-
**The quotes of the strategy and those of its model.**

The model quotes around the reservation price at a width of two terms: one for the volatility over
the remaining horizon, `γ σ²` times the horizon, and one for the arrival of orders.  The reservation
price of the code is the model's at horizon one.  The width of the code has the second term only, so
that it does not depend on the volatility at all.

* `modelSpread_lt_of_abs_lt` — the width of the model widens with the volatility;
* `ModelQuotes` — the quotes are those of the model;
* `volatility_does_not_widen` — two volatilities, quoted at one width;
* `model_quotes_iff` — **the quotes are those of the model if and only if the volatility is zero**,
  and the width is the same for all volatilities.
-/

import MarketMaker.Quoting

set_option relaxedAutoImplicit false
set_option autoImplicit false

namespace MarketMaker

variable {K : Type} [Field K]

/-! ### The model -/

/-- The quotes lie around the reservation price of the model, half its width away. -/
structure ModelQuotes (ln : K → K) (s q γ σ κ horizon : K) (quotes : Quotes K) : Prop where
  bid : quotes.asmmBidPrice =
    modelReservation s q γ σ horizon - modelSpread ln γ σ κ horizon / 2
  ask : quotes.asmmAskPrice =
    modelReservation s q γ σ horizon + modelSpread ln γ σ κ horizon / 2

theorem modelReservation_one (s q γ σ : K) :
    modelReservation s q γ σ 1 = reservation s q γ σ := by
  rw [modelReservation, reservation, mul_one]

theorem modelSpread_one (ln : K → K) (γ σ κ : K) :
    modelSpread ln γ σ κ 1 = γ * σ ^ 2 + spread ln γ κ := by
  rw [modelSpread, spread, mul_one]

variable [LinearOrder K] [IsStrictOrderedRing K]

/-- The width of the model widens with the volatility. -/
theorem modelSpread_lt_of_abs_lt (ln : K → K) {γ σ σ' horizon : K} (hγ : 0 < γ)
    (hhorizon : 0 < horizon) (hlt : |σ| < |σ'|) (κ : K) :
    modelSpread ln γ σ κ horizon < modelSpread ln γ σ' κ horizon := by
  have hσσ : σ ^ 2 < σ' ^ 2 := sq_lt_sq.2 hlt
  exact add_lt_add_left (mul_lt_mul_of_pos_right (mul_lt_mul_of_pos_left hσσ hγ) hhorizon) _

/-! ### The quotes of the code -/

/-- Quotes half the width of the code away from the reservation price are those of the model
exactly if its first term is zero. -/
theorem modelQuotes_iff {ln : K → K} {s q γ σ κ : K} (hγ : 0 < γ) {quotes : Quotes K}
    (hbid : quotes.asmmBidPrice = reservation s q γ σ - spread ln γ κ / 2)
    (hask : quotes.asmmAskPrice = reservation s q γ σ + spread ln γ κ / 2) :
    ModelQuotes ln s q γ σ κ 1 quotes ↔ σ = 0 := by
  constructor
  · rintro ⟨hmodel, -⟩
    rw [hbid, modelReservation_one, modelSpread_one] at hmodel
    have hterm : γ * σ ^ 2 = 0 := by linarith
    rcases mul_eq_zero.1 hterm with h | h
    · exact absurd h hγ.ne'
    · exact pow_eq_zero_iff two_ne_zero |>.1 h
  · rintro rfl
    have hspread : modelSpread ln γ 0 κ 1 = spread ln γ κ := by
      rw [modelSpread_one, zero_pow two_ne_zero, mul_zero, zero_add]
    constructor
    · rw [hbid, modelReservation_one, hspread]
    · rw [hask, modelReservation_one, hspread]

/-- **Where the quotes are those of the model**: for every state and every two-sided book, with `γ`
and `κ` positive, the quotes are those of the model at horizon one if and only if the volatility
`σ` is zero; and in a state that differs in `σ` the width is the same, while that of the model
widens with the volatility. -/
theorem model_quotes_iff {F : Type} (ln : K → K) (stores : Stores K) (hs : stores.Initialized)
    (update : CcxtOrderBook K) (exchangeName : String) (now : ℕ) (bid ask : CcxtOrderBookLevel K)
    (hbid : update.bids.head? = some bid) (hask : update.asks.head? = some ask) (q γ σ κ : K)
    (hstored : StoredParameters stores exchangeName update.symbol q γ σ κ) (hγ : 0 < γ)
    (hκ : 0 < κ) :
    letI := fieldOps ln
    ∃ quotes, (orderBookQuotes update exchangeName).run stores = .ok quotes stores ∧
      (handleMessage (.ccxtOrderBook update : CcxtMessage K F) exchangeName now).run stores =
        .ok () (stores.setBook exchangeName update.symbol quotes) ∧
      (ModelQuotes ln ((bid.price + ask.price) / 2) q γ σ κ 1 quotes ↔ σ = 0) ∧
      ∀ (stores' : Stores K) (σ' : K),
        StoredParameters stores' exchangeName update.symbol q γ σ' κ →
        ∃ quotes', (orderBookQuotes update exchangeName).run stores' = .ok quotes' stores' ∧
          quotes'.asmmAskPrice - quotes'.asmmBidPrice =
            quotes.asmmAskPrice - quotes.asmmBidPrice ∧
          (|σ| < |σ'| → modelSpread ln γ σ κ 1 < modelSpread ln γ σ' κ 1) := by
  let : DecimalOps K := fieldOps ln
  obtain ⟨quotes, hok, hmid, hr, hw, hb, ha⟩ := orderBookQuotes_eq ln hbid hask hstored hγ hκ
  rw [hr, hw, hmid] at hb ha
  refine ⟨quotes, hok, run_handleMessage_of_quotes hs hok now, modelQuotes_iff hγ hb ha, ?_⟩
  intro stores' σ' hstored'
  obtain ⟨quotes', hok', -, -, hw', hb', ha'⟩ := orderBookQuotes_eq ln hbid hask hstored' hγ hκ
  refine ⟨quotes', hok', ?_, fun hlt => modelSpread_lt_of_abs_lt ln hγ one_pos hlt κ⟩
  rw [hb', ha', hw', hb, ha]
  ring

/-- Stores with `γ` and `κ` one and no inventory, at a given volatility, and a book. -/
private def storesAt (σ : ℝ) : Stores ℝ :=
  (⟨some .new, some (.new 0)⟩ : Stores ℝ).setParameters "dydx" "BTC-USD" 0 1 σ 1

private def bookAround100 : CcxtOrderBook ℝ where
  bids := [⟨99, 1⟩]
  asks := [⟨101, 1⟩]
  symbol := "BTC-USD"
  nonce := none

/-- **Volatilities one and two are quoted at one width**, and at one the model is wider than it. -/
theorem volatility_does_not_widen :
    letI := fieldOps Real.log
    ∃ quotes quotes' : Quotes ℝ,
      (orderBookQuotes bookAround100 "dydx").run (storesAt 1) = .ok quotes (storesAt 1) ∧
      (orderBookQuotes bookAround100 "dydx").run (storesAt 2) = .ok quotes' (storesAt 2) ∧
      quotes.asmmAskPrice - quotes.asmmBidPrice = 2 * Real.log 2 ∧
      quotes'.asmmAskPrice - quotes'.asmmBidPrice = 2 * Real.log 2 ∧
      modelSpread Real.log 1 1 1 1 = 1 + 2 * Real.log 2 ∧
      ¬ ModelQuotes Real.log 100 0 1 1 1 1 quotes := by
  let : DecimalOps ℝ := fieldOps Real.log
  have hstored : ∀ σ, StoredParameters (storesAt σ) "dydx" "BTC-USD" 0 1 σ 1 := fun σ =>
    storedParameters_setParameters rfl "dydx" "BTC-USD" 0 1 σ 1
  have hwidth : spread Real.log 1 1 = 2 * Real.log 2 := by norm_num [spread]
  have hbid : bookAround100.bids.head? = some ⟨99, 1⟩ := rfl
  have hask : bookAround100.asks.head? = some ⟨101, 1⟩ := rfl
  have hquotes : ∀ σ, ∃ quotes,
      (orderBookQuotes bookAround100 "dydx").run (storesAt σ) = .ok quotes (storesAt σ) ∧
      quotes.asmmBidPrice = reservation 100 0 1 σ - spread Real.log 1 1 / 2 ∧
      quotes.asmmAskPrice = reservation 100 0 1 σ + spread Real.log 1 1 / 2 := by
    intro σ
    obtain ⟨quotes, hok, hmid, hr, hw, hb, ha⟩ := orderBookQuotes_eq Real.log
      hbid hask (hstored σ) one_pos one_pos
    have hmid100 : quotes.midPrice = 100 := by
      rw [hmid]
      norm_num
    rw [hr, hw, hmid100] at hb ha
    exact ⟨quotes, hok, hb, ha⟩
  obtain ⟨quotes, hok, hb, ha⟩ := hquotes 1
  obtain ⟨quotes', hok', hb', ha'⟩ := hquotes 2
  refine ⟨quotes, quotes', hok, hok', ?_, ?_, ?_, ?_⟩
  · rw [hb, ha, ← hwidth]
    ring
  · rw [hb', ha', ← hwidth]
    ring
  · rw [modelSpread_one, hwidth]
    norm_num
  · rw [modelQuotes_iff one_pos hb ha]
    exact one_ne_zero

/-- Without volatility the quotes are those of the model. -/
theorem model_quotes_iff_sample :
    letI := fieldOps Real.log
    ∃ quotes : Quotes ℝ,
      (orderBookQuotes bookAround100 "dydx").run (storesAt 0) = .ok quotes (storesAt 0) ∧
      ModelQuotes Real.log 100 0 1 0 1 1 quotes := by
  let : DecimalOps ℝ := fieldOps Real.log
  obtain ⟨quotes, hok, -, hmodel, -⟩ := model_quotes_iff (F := ℝ) Real.log (storesAt 0)
    ⟨rfl, rfl⟩ bookAround100 "dydx" 0 ⟨99, 1⟩ ⟨101, 1⟩ rfl rfl 0 1 0 1
    (storedParameters_setParameters rfl "dydx" "BTC-USD" 0 1 0 1) one_pos one_pos
  refine ⟨quotes, hok, ?_⟩
  have hmid : ((99 : ℝ) + 101) / 2 = 100 := by norm_num
  exact hmid ▸ hmodel.2 rfl

end MarketMaker
