/-
**The quotes of the strategy over exact arithmetic.**

The strategy quotes around a reservation price, the midpoint of the book shifted against the
inventory, at a width that depends on two parameters through a logarithm.  Computed exactly, over
any ordered field with a function that behaves like the logarithm, the two formulas have the
properties they are chosen for.  That the width narrows in the first parameter is the strict
concavity of the logarithm.

* `fieldOps` — exact arithmetic over an ordered field;
* `reservation`, `spread` — what the two formulas of the code compute;
* `modelReservation`, `modelSpread` — the two formulas of the model;
* `orderBookQuotes_eq` — the handler computes them from the midpoint and the stored parameters;
* `quoting_law` — **the quotes lie around the reservation price, at the width, and both respond to
  the parameters as intended**.
-/

import MarketMaker.InitState
import MarketMaker.LogLike

set_option relaxedAutoImplicit false
set_option autoImplicit false

namespace MarketMaker

variable {K : Type} [Field K] [LinearOrder K]

/-- Exact arithmetic: nothing is rounded and nothing overflows; a division by zero panics, and so
does the logarithm of a number that is not positive. -/
@[reducible] def fieldOps (ln : K → K) : DecimalOps K where
  zero := 0
  one := 1
  new coefficient scale := coefficient / 10 ^ scale
  fromInt n := n
  add a b := some (a + b)
  sub a b := some (a - b)
  mul a b := some (a * b)
  div a b := if b = 0 then none else some (a / b)
  powi a n := some (a ^ n)
  ln x := if 0 < x then some (ln x) else none

/-! ### The formulas -/

/-- The price around which an inventory `q` is quoted. -/
def reservation (s q γ σ : K) : K := s - q * γ * σ ^ 2

/-- How far apart the quotes are. -/
def spread (ln : K → K) (γ κ : K) : K := 2 / γ * ln (1 + γ / κ)

/-- The reservation price of the model the strategy is taken from. -/
def modelReservation (s q γ σ horizon : K) : K := s - q * γ * σ ^ 2 * horizon

/-- The width of the model, with a term for the volatility over the remaining horizon. -/
def modelSpread (ln : K → K) (γ σ κ horizon : K) : K :=
  γ * σ ^ 2 * horizon + 2 / γ * ln (1 + γ / κ)

theorem reservationPrice_eq (ln : K → K) (s q γ σ : K) :
    letI := fieldOps ln
    reservationPrice s q γ σ = some (reservation s q γ σ) := by
  simp [reservationPrice, reservation, DecimalOps.mul, DecimalOps.powi, DecimalOps.sub]

variable [IsStrictOrderedRing K]

theorem midPoint_eq (ln : K → K) (bidPrice askPrice : K) :
    letI := fieldOps ln
    midPoint bidPrice askPrice = some ((bidPrice + askPrice) / 2) := by
  simp [midPoint, DecimalOps.add, DecimalOps.div, DecimalOps.new]

theorem optimalSpread_eq (ln : K → K) {γ κ : K} (hγ : 0 < γ) (hκ : 0 < κ) :
    letI := fieldOps ln
    optimalSpread γ κ = some (spread ln γ κ) := by
  have hsum : 0 < 1 + γ / κ := add_pos one_pos (div_pos hγ hκ)
  simp [optimalSpread, spread, DecimalOps.fromInt, DecimalOps.div, DecimalOps.add, DecimalOps.one,
    DecimalOps.ln, DecimalOps.mul, hγ.ne', hκ.ne', hsum]

theorem asmmQuotes_eq (ln : K → K) (s q σ : K) {γ κ : K} (hγ : 0 < γ) (hκ : 0 < κ) :
    letI := fieldOps ln
    asmmQuotes s q γ σ κ = some (reservation s q γ σ, spread ln γ κ,
      reservation s q γ σ - spread ln γ κ / 2, reservation s q γ σ + spread ln γ κ / 2) := by
  simp [asmmQuotes, reservationPrice_eq, optimalSpread_eq ln hγ hκ, DecimalOps.new,
    DecimalOps.div, DecimalOps.add, DecimalOps.sub]

/-! ### The width -/

/-- What is wanted of the width of the quotes: it lies between zero and `2 / κ`, and narrows in both
parameters. -/
structure SpreadLaw [DecimalOps K] (ln : K → K) : Prop where
  computed : ∀ γ κ, 0 < γ → 0 < κ → optimalSpread γ κ = some (spread ln γ κ)
  pos : ∀ γ κ, 0 < γ → 0 < κ → 0 < spread ln γ κ
  lt : ∀ γ κ, 0 < γ → 0 < κ → spread ln γ κ < 2 / κ
  anti_γ : ∀ κ, 0 < κ → StrictAntiOn (fun γ => spread ln γ κ) (Set.Ioi 0)
  anti_κ : ∀ γ, 0 < γ → StrictAntiOn (fun κ => spread ln γ κ) (Set.Ioi 0)

variable {ln : K → K}

theorem spread_pos (hln : LogLike ln) {γ κ : K} (hγ : 0 < γ) (hκ : 0 < κ) : 0 < spread ln γ κ :=
  mul_pos (div_pos two_pos hγ) (hln.pos (div_pos hγ hκ))

omit [LinearOrder K] [IsStrictOrderedRing K] in
/-- The first parameter occurs through the ratio `x = γ / κ` alone, as `ln (1 + x) / x`. -/
theorem spread_eq_ratio (ln : K → K) {γ κ : K} (hγ : γ ≠ 0) (hκ : κ ≠ 0) :
    spread ln γ κ = 2 / κ * (ln (1 + γ / κ) / (γ / κ)) := by
  unfold spread
  field_simp

theorem spread_lt (hln : LogLike ln) {γ κ : K} (hγ : 0 < γ) (hκ : 0 < κ) :
    spread ln γ κ < 2 / κ := by
  rw [spread_eq_ratio ln hγ.ne' hκ.ne']
  exact mul_lt_of_lt_one_right (div_pos two_pos hκ) (hln.ratio_lt_one (div_pos hγ hκ))

theorem spread_anti_γ (hln : LogLike ln) {κ : K} (hκ : 0 < κ) :
    StrictAntiOn (fun γ => spread ln γ κ) (Set.Ioi 0) := by
  intro γ hγ γ' hγ' hlt
  rw [Set.mem_Ioi] at hγ hγ'
  have hratio := hln.ratio_strictAntiOn (Set.mem_Ioi.2 (div_pos hγ hκ))
    (Set.mem_Ioi.2 (div_pos hγ' hκ)) ((div_lt_div_iff_of_pos_right hκ).2 hlt)
  change spread ln γ' κ < spread ln γ κ
  rw [spread_eq_ratio ln hγ.ne' hκ.ne', spread_eq_ratio ln hγ'.ne' hκ.ne']
  exact mul_lt_mul_of_pos_left hratio (div_pos two_pos hκ)

theorem spread_anti_κ (hln : LogLike ln) {γ : K} (hγ : 0 < γ) :
    StrictAntiOn (fun κ => spread ln γ κ) (Set.Ioi 0) := by
  intro κ hκ κ' hκ' hlt
  rw [Set.mem_Ioi] at hκ hκ'
  have harg : 1 + γ / κ' < 1 + γ / κ :=
    add_lt_add_right (div_lt_div_of_pos_left hγ hκ hlt) 1
  have hln' := hln.strictMonoOn (Set.mem_Ioi.2 (add_pos one_pos (div_pos hγ hκ')))
    (Set.mem_Ioi.2 (add_pos one_pos (div_pos hγ hκ))) harg
  exact mul_lt_mul_of_pos_left hln' (div_pos two_pos hγ)

theorem spreadLaw (hln : LogLike ln) :
    letI := fieldOps ln
    SpreadLaw ln :=
  letI := fieldOps ln
  { computed := fun _ _ hγ hκ => optimalSpread_eq ln hγ hκ
    pos := fun _ _ => spread_pos hln
    lt := fun _ _ => spread_lt hln
    anti_γ := fun _ => spread_anti_γ hln
    anti_κ := fun _ => spread_anti_κ hln }

/-! ### The reservation price -/

/-- What is wanted of the reservation price: the inventory pushes it down, away from the midpoint,
and as far as the opposite inventory pushes it up. -/
structure ReservationLaw (K : Type) [Field K] [LinearOrder K] [DecimalOps K] : Prop where
  computed : ∀ s q γ σ : K, reservationPrice s q γ σ = some (reservation s q γ σ)
  anti : ∀ s γ σ : K, 0 < γ → σ ≠ 0 → StrictAnti fun q => reservation s q γ σ
  above : ∀ s q γ σ : K, 0 < γ → σ ≠ 0 → q < 0 → s < reservation s q γ σ
  even : ∀ s γ σ : K, reservation s 0 γ σ = s
  below : ∀ s q γ σ : K, 0 < γ → σ ≠ 0 → 0 < q → reservation s q γ σ < s
  average : ∀ s q γ σ : K, (reservation s q γ σ + reservation s (-q) γ σ) / 2 = s

theorem reservation_anti (s : K) {γ σ : K} (hγ : 0 < γ) (hσ : σ ≠ 0) :
    StrictAnti fun q => reservation s q γ σ := by
  intro q q' hlt
  have hσσ : 0 < σ ^ 2 := sq_pos_iff.2 hσ
  exact sub_lt_sub_left (mul_lt_mul_of_pos_right (mul_lt_mul_of_pos_right hlt hγ) hσσ) s

omit [LinearOrder K] [IsStrictOrderedRing K] in
theorem reservation_zero (s γ σ : K) : reservation s 0 γ σ = s := by simp [reservation]

theorem reservationLaw (ln : K → K) :
    letI := fieldOps ln
    ReservationLaw K :=
  letI := fieldOps ln
  { computed := reservationPrice_eq ln
    anti := fun s _ _ => reservation_anti s
    above := fun s q γ σ hγ hσ hq => by
      simpa only [reservation_zero] using reservation_anti s hγ hσ hq
    even := reservation_zero
    below := fun s q γ σ hγ hσ hq => by
      simpa only [reservation_zero] using reservation_anti s hγ hσ hq
    average := fun s q γ σ => by
      unfold reservation
      ring }

/-! ### The quotes -/

/-- A two-sided book whose parameters are stored is quoted from its midpoint and them, or an
operation on decimals faults. -/
theorem orderBookQuotes_of_stored {D : Type} [DecimalOps D] {stores : Stores D}
    {update : CcxtOrderBook D} {exchangeName : String} {bid ask : CcxtOrderBookLevel D}
    {q γ σ κ : D} (hbid : update.bids.head? = some bid) (hask : update.asks.head? = some ask)
    (hstored : StoredParameters stores exchangeName update.symbol q γ σ κ) :
    (∃ quotes, (orderBookQuotes update exchangeName).run stores = .ok quotes stores ∧
        midPoint bid.price ask.price = some quotes.midPrice ∧
        asmmQuotes quotes.midPrice q γ σ κ = some (quotes.reservationPrice, quotes.optimalSpread,
          quotes.asmmBidPrice, quotes.asmmAskPrice)) ∨
      (orderBookQuotes update exchangeName).run stores = .error .arithmetic stores ∧
        ∀ midPrice, midPoint bid.price ask.price = some midPrice →
          asmmQuotes midPrice q γ σ κ = none := by
  rcases orderBookQuotes_spec update exchangeName stores with
    ⟨quotes, ⟨⟨bid', hbid', hbp, -⟩, ⟨ask', hask', hap, -⟩, hmid, q', γ', σ', κ', hq', hγ', hσ',
      hκ', hasmm⟩, hok⟩ | ⟨e, he, herr⟩
  · obtain rfl := Option.some.inj (hbid.symm.trans hbid')
    obtain rfl := Option.some.inj (hask.symm.trans hask')
    obtain ⟨rfl, rfl, rfl, rfl⟩ := hstored.unique ⟨hq', hγ', hσ', hκ'⟩
    exact Or.inl ⟨quotes, hok, hbp ▸ hap ▸ hmid, hasmm⟩
  · right
    -- both sides have a level and the parameters are stored, so only the arithmetic is left
    cases e with
    | emptySide =>
        rcases he with h | h
        · simp [h] at hbid
        · simp [h] at hask
    | missingParameter =>
        obtain ⟨key, hkey, hnone⟩ := he
        obtain ⟨value, hvalue⟩ := hstored.exists_lookup hkey
        rw [hvalue] at hnone
        cases hnone
    | arithmetic =>
        refine ⟨herr, fun midPrice hmid => ?_⟩
        obtain ⟨bid', ask', hbid', hask', hfault⟩ := he
        obtain rfl := Option.some.inj (hbid.symm.trans hbid')
        obtain rfl := Option.some.inj (hask.symm.trans hask')
        rcases hfault with hnone | ⟨s, q', γ', σ', κ', hs, hq', hγ', hσ', hκ', hasmm⟩
        · rw [hmid] at hnone
          cases hnone
        · obtain rfl := Option.some.inj (hmid.symm.trans hs)
          obtain ⟨rfl, rfl, rfl, rfl⟩ := hstored.unique ⟨hq', hγ', hσ', hκ'⟩
          exact hasmm
    | _ => exact absurd he id

/-- **The handler computes the two formulas**, from the midpoint of the book and the parameters
stored for its symbol. -/
theorem orderBookQuotes_eq (ln : K → K) {stores : Stores K} {update : CcxtOrderBook K}
    {exchangeName : String} {bid ask : CcxtOrderBookLevel K} {q γ σ κ : K}
    (hbid : update.bids.head? = some bid) (hask : update.asks.head? = some ask)
    (hstored : StoredParameters stores exchangeName update.symbol q γ σ κ)
    (hγ : 0 < γ) (hκ : 0 < κ) :
    letI := fieldOps ln
    ∃ quotes, (orderBookQuotes update exchangeName).run stores = .ok quotes stores ∧
      quotes.midPrice = (bid.price + ask.price) / 2 ∧
      quotes.reservationPrice = reservation quotes.midPrice q γ σ ∧
      quotes.optimalSpread = spread ln γ κ ∧
      quotes.asmmBidPrice = quotes.reservationPrice - quotes.optimalSpread / 2 ∧
      quotes.asmmAskPrice = quotes.reservationPrice + quotes.optimalSpread / 2 := by
  let : DecimalOps K := fieldOps ln
  rcases orderBookQuotes_of_stored hbid hask hstored with ⟨quotes, hok, hmid, hasmm⟩ | ⟨-, hnone⟩
  · rw [midPoint_eq, Option.some.injEq] at hmid
    rw [asmmQuotes_eq ln _ _ _ hγ hκ, Option.some.injEq, Prod.mk.injEq, Prod.mk.injEq,
      Prod.mk.injEq] at hasmm
    obtain ⟨hr, hw, hb, ha⟩ := hasmm
    exact ⟨quotes, hok, hmid.symm, hr.symm, hw.symm, by rw [← hb, hr, hw], by rw [← ha, hr, hw]⟩
  · have hfault := hnone _ (midPoint_eq ln bid.price ask.price)
    rw [asmmQuotes_eq ln _ _ _ hγ hκ] at hfault
    cases hfault

/-- The quotes of the strategy lie around its reservation price, at its width. -/
structure QuotedAround (ln : K → K) (s q γ σ κ : K) (quotes : Quotes K) : Prop where
  midPrice : quotes.midPrice = s
  reservationPrice : quotes.reservationPrice = reservation s q γ σ
  optimalSpread : quotes.optimalSpread = spread ln γ κ
  bid : quotes.asmmBidPrice = quotes.reservationPrice - quotes.optimalSpread / 2
  ask : quotes.asmmAskPrice = quotes.reservationPrice + quotes.optimalSpread / 2
  bid_lt : quotes.asmmBidPrice < quotes.reservationPrice
  lt_ask : quotes.reservationPrice < quotes.asmmAskPrice
  width : quotes.asmmAskPrice - quotes.asmmBidPrice = spread ln γ κ

/-- **The quoting law**: with a function that behaves like the logarithm, the handler quotes around
the reservation price at the width, for every book and all stored parameters with `γ` and `κ`
positive; and the width and the reservation price obey their laws. -/
theorem quoting_law {F : Type} (hln : LogLike ln) :
    letI := fieldOps ln
    (∀ (stores : Stores K) (update : CcxtOrderBook K) (exchangeName : String) (now : ℕ)
        (bid ask : CcxtOrderBookLevel K) (q γ σ κ : K), stores.Initialized →
      update.bids.head? = some bid → update.asks.head? = some ask →
      StoredParameters stores exchangeName update.symbol q γ σ κ → 0 < γ → 0 < κ →
      ∃ quotes, (orderBookQuotes update exchangeName).run stores = .ok quotes stores ∧
        (handleMessage (.ccxtOrderBook update : CcxtMessage K F) exchangeName now).run stores =
          .ok () (stores.setBook exchangeName update.symbol quotes) ∧
        QuotedAround ln ((bid.price + ask.price) / 2) q γ σ κ quotes) ∧
      SpreadLaw ln ∧ ReservationLaw K := by
  let : DecimalOps K := fieldOps ln
  refine ⟨?_, spreadLaw hln, reservationLaw ln⟩
  intro stores update exchangeName now bid ask q γ σ κ hs hbid hask hstored hγ hκ
  obtain ⟨quotes, hok, hmid, hr, hw, hb, ha⟩ :=
    orderBookQuotes_eq ln hbid hask hstored hγ hκ
  have hpos := spread_pos hln hγ hκ
  refine ⟨quotes, hok, run_handleMessage_of_quotes hs hok now, hmid, hmid ▸ hr, hw, hb, ha,
    ?_, ?_, ?_⟩
  · rw [hb, hw]
    linarith
  · rw [ha, hw]
    linarith
  · rw [hb, ha, hw]
    ring

/-- A market at 101, quoted around 100 for an inventory of one. -/
theorem quoting_law_sample :
    letI := fieldOps Real.log
    ∃ quotes : Quotes ℝ,
      (orderBookQuotes ⟨[⟨99, 1⟩], [⟨103, 1⟩], "BTC-USD", none, none, none⟩ "dydx").run
          ⟨some ⟨fun _ => some 1⟩, some (.new 0)⟩ =
        .ok quotes ⟨some ⟨fun _ => some 1⟩, some (.new 0)⟩ ∧
      quotes.asmmBidPrice < 100 ∧ 100 < quotes.asmmAskPrice ∧
      quotes.asmmAskPrice - quotes.asmmBidPrice < 2 := by
  let : DecimalOps ℝ := fieldOps Real.log
  obtain ⟨hquotes, hspread, -⟩ := quoting_law (F := ℝ) LogLike.real
  obtain ⟨quotes, hok, -, haround⟩ := hquotes ⟨some ⟨fun _ => some 1⟩, some (.new 0)⟩
    ⟨[⟨99, 1⟩], [⟨103, 1⟩], "BTC-USD", none, none, none⟩ "dydx" 0 ⟨99, 1⟩ ⟨103, 1⟩ 1 1 1 1
    ⟨rfl, rfl⟩ rfl rfl ⟨rfl, rfl, rfl, rfl⟩ one_pos one_pos
  have hr : quotes.reservationPrice = 100 := by
    rw [haround.reservationPrice, reservation]
    norm_num
  have hlt := hspread.lt 1 1 one_pos one_pos
  refine ⟨quotes, hok, hr ▸ haround.bid_lt, hr ▸ haround.lt_ask, ?_⟩
  rw [haround.width]
  linarith

end MarketMaker
