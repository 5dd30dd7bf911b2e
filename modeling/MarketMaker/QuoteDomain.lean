/-
**Where the quotes are defined.**

The quotes divide by two of the parameters and take a logarithm.  The parameters reach them as they
are stored: neither the loading of the configuration nor `init_state` nor the handler looks at a
sign.  So the quotes of a book panic exactly where the arithmetic has it, which is decided by the
stored `γ` and `κ`.

* `OverflowAside` — arithmetic that panics on a zero divisor and on the logarithm of a number that
  is not positive, and nowhere else; results may be rounded;
* `QuotesDefined` — neither divisor is zero, and the argument of the logarithm is positive;
* `orderBookQuotes_defined_iff` — where the quotes of a book are defined, from any stores with the
  parameters of its symbol;
* `zero_risk_aversion_panics` — a configuration after which every book panics;
* `quotes_defined_iff` — **after `init_state` the quotes are defined if and only if the stored `γ`
  and `κ` are of this kind**.
-/

import MarketMaker.Quoting

set_option relaxedAutoImplicit false
set_option autoImplicit false

namespace MarketMaker

variable {D : Type} [DecimalOps D]

/-- Nothing overflows: a division panics exactly on a zero divisor and a logarithm exactly on a
number that is not positive.  `num` is the number a decimal stands for; a quotient by one is not
rounded, and rounding does not change the sign of `1 + a`. -/
structure OverflowAside (num : D → ℚ) : Prop where
  add : ∀ a b : D, (DecimalOps.add a b).isSome
  sub : ∀ a b : D, (DecimalOps.sub a b).isSome
  mul : ∀ a b : D, (DecimalOps.mul a b).isSome
  powi_two : ∀ a : D, (DecimalOps.powi a 2).isSome
  div : ∀ a b : D, (DecimalOps.div a b).isSome ↔ num b ≠ 0
  ln : ∀ a : D, (DecimalOps.ln a).isSome ↔ 0 < num a
  one : num DecimalOps.one = 1
  two : num (DecimalOps.new 2 0) = 2
  div_one : ∀ a b : D, DecimalOps.div a DecimalOps.one = some b → num b = num a
  one_add : ∀ a b : D, DecimalOps.add DecimalOps.one a = some b → (0 < num b ↔ 0 < 1 + num a)

/-- The quotes are defined for these parameters: both divisors are not zero, and the argument of the
logarithm is positive, the quotient `γ / κ` in it being rounded as the arithmetic has it. -/
structure QuotesDefined (num : D → ℚ) (γ κ : D) : Prop where
  γ_ne : num γ ≠ 0
  κ_ne : num κ ≠ 0
  pos : ∀ ratio, DecimalOps.div γ κ = some ratio → 0 < 1 + num ratio

namespace OverflowAside

variable {num : D → ℚ}

/-- Halving is defined. -/
theorem exists_half (h : OverflowAside num) (a : D) :
    ∃ half, DecimalOps.div a (DecimalOps.new 2 0) = some half :=
  Option.isSome_iff_exists.1 ((h.div a _).2 (by rw [h.two]; norm_num))

theorem exists_midPoint (h : OverflowAside num) (bidPrice askPrice : D) :
    ∃ midPrice, midPoint bidPrice askPrice = some midPrice := by
  obtain ⟨sum, hsum⟩ := Option.isSome_iff_exists.1 (h.add bidPrice askPrice)
  obtain ⟨half, hhalf⟩ := h.exists_half sum
  exact ⟨half, by simp [midPoint, hsum, hhalf]⟩

theorem exists_reservationPrice (h : OverflowAside num) (s q γ σ : D) :
    ∃ price, reservationPrice s q γ σ = some price := by
  obtain ⟨qγ, hqγ⟩ := Option.isSome_iff_exists.1 (h.mul q γ)
  obtain ⟨σσ, hσσ⟩ := Option.isSome_iff_exists.1 (h.powi_two σ)
  obtain ⟨shift, hshift⟩ := Option.isSome_iff_exists.1 (h.mul qγ σσ)
  obtain ⟨price, hprice⟩ := Option.isSome_iff_exists.1 (h.sub s shift)
  exact ⟨price, by simp [reservationPrice, hqγ, hσσ, hshift, hprice]⟩

/-- **Where the spread is defined.** -/
theorem isSome_optimalSpread_iff (h : OverflowAside num) (γ κ : D) :
    (optimalSpread γ κ).isSome ↔ QuotesDefined num γ κ := by
  have hdomain : QuotesDefined num γ κ ↔ num γ ≠ 0 ∧ num κ ≠ 0 ∧ ∀ ratio,
      DecimalOps.div γ κ = some ratio → 0 < 1 + num ratio :=
    ⟨fun hdef => ⟨hdef.γ_ne, hdef.κ_ne, hdef.pos⟩, fun ⟨hγ, hκ, hpos⟩ => ⟨hγ, hκ, hpos⟩⟩
  rw [hdomain, ← h.div (DecimalOps.fromInt 2) γ, ← h.div γ κ, optimalSpread]
  cases hfactor : DecimalOps.div (DecimalOps.fromInt 2) γ with
  | none => simp
  | some factor =>
      cases hratio : DecimalOps.div γ κ with
      | none => simp
      | some ratio =>
          obtain ⟨sum, hsum⟩ := Option.isSome_iff_exists.1 (h.add DecimalOps.one ratio)
          have hpos := (h.ln sum).trans (h.one_add ratio sum hsum)
          cases hln : DecimalOps.ln sum with
          | none => simpa [hsum, hln] using hpos
          | some log => simpa [hsum, hln, h.mul] using hpos

/-- With one for `κ` the argument of the logarithm is `1 + γ`. -/
theorem quotesDefined_one_iff (h : OverflowAside num) (γ : D) :
    QuotesDefined num γ DecimalOps.one ↔ num γ ≠ 0 ∧ -1 < num γ := by
  have hone : num (DecimalOps.one : D) ≠ 0 := by rw [h.one]; norm_num
  obtain ⟨ratio, hratio⟩ := Option.isSome_iff_exists.1 ((h.div γ DecimalOps.one).2 hone)
  have hpos : 0 < 1 + num ratio ↔ -1 < num γ := by
    rw [h.div_one γ ratio hratio]
    exact neg_lt_iff_pos_add'.symm
  constructor
  · exact fun hdef => ⟨hdef.γ_ne, hpos.1 (hdef.pos ratio hratio)⟩
  · rintro ⟨hγ, hmore⟩
    refine ⟨hγ, hone, fun ratio' hratio' => ?_⟩
    rw [hratio, Option.some.injEq] at hratio'
    exact hratio' ▸ hpos.2 hmore

/-- The quotes are defined where the spread is. -/
theorem isSome_asmmQuotes_iff (h : OverflowAside num) (s q γ σ κ : D) :
    (asmmQuotes s q γ σ κ).isSome ↔ (optimalSpread γ κ).isSome := by
  obtain ⟨price, hprice⟩ := h.exists_reservationPrice s q γ σ
  rw [asmmQuotes, hprice]
  cases hspread : optimalSpread γ κ with
  | none => simp
  | some spread =>
      obtain ⟨half, hhalf⟩ := h.exists_half spread
      obtain ⟨bidQuote, hbid⟩ := Option.isSome_iff_exists.1 (h.sub price half)
      obtain ⟨askQuote, hask⟩ := Option.isSome_iff_exists.1 (h.add price half)
      simp [hhalf, hbid, hask]

end OverflowAside

/-- Exact arithmetic is such an arithmetic. -/
theorem overflowAside_fieldOps (ln : ℚ → ℚ) :
    letI := fieldOps ln
    OverflowAside (id : ℚ → ℚ) := by
  let : DecimalOps ℚ := fieldOps ln
  constructor
  · exact fun _ _ => rfl
  · exact fun _ _ => rfl
  · exact fun _ _ => rfl
  · exact fun _ => rfl
  · intro a b
    by_cases hb : b = 0 <;> simp [DecimalOps.div, hb]
  · intro a
    by_cases ha : 0 < a <;> simp [DecimalOps.ln, ha]
  · rfl
  · norm_num [DecimalOps.new]
  · intro a b hab
    simpa [DecimalOps.div, DecimalOps.one] using hab.symm
  · intro a b hab
    obtain rfl := Option.some.inj hab
    rfl

/-- **Where the quotes of a two-sided book are defined**, from any stores with the parameters of its
symbol; elsewhere the computation panics in its arithmetic. -/
theorem orderBookQuotes_defined_iff {num : D → ℚ} (h : OverflowAside num) {stores : Stores D}
    {update : CcxtOrderBook D} {exchangeName : String} {q γ σ κ : D} (hbids : update.bids ≠ [])
    (hasks : update.asks ≠ [])
    (hstored : StoredParameters stores exchangeName update.symbol q γ σ κ) :
    ((∃ quotes, (orderBookQuotes update exchangeName).run stores = .ok quotes stores) ↔
        QuotesDefined num γ κ) ∧
      (¬ QuotesDefined num γ κ →
        (orderBookQuotes update exchangeName).run stores = .error .arithmetic stores) := by
  obtain ⟨bid, bids, hbid⟩ := List.exists_cons_of_ne_nil hbids
  obtain ⟨ask, asks, hask⟩ := List.exists_cons_of_ne_nil hasks
  have hdefined : ∀ s, (asmmQuotes s q γ σ κ).isSome ↔ QuotesDefined num γ κ := fun s => by
    rw [h.isSome_asmmQuotes_iff, h.isSome_optimalSpread_iff]
  have hbid' : update.bids.head? = some bid := by simp [hbid]
  have hask' : update.asks.head? = some ask := by simp [hask]
  rcases orderBookQuotes_of_stored hbid' hask' hstored with
    ⟨quotes, hok, -, hasmm⟩ | ⟨herr, hnone⟩
  · have hcond : QuotesDefined num γ κ := by
      rw [← hdefined quotes.midPrice, hasmm]
      rfl
    exact ⟨iff_of_true ⟨quotes, hok⟩ hcond, fun hnot => absurd hcond hnot⟩
  · obtain ⟨midPrice, hmid⟩ := h.exists_midPoint bid.price ask.price
    have hcond : ¬ QuotesDefined num γ κ := by
      rw [← hdefined midPrice, hnone midPrice hmid]
      simp
    refine ⟨iff_of_false ?_ hcond, fun _ => herr⟩
    rintro ⟨quotes, hok⟩
    rw [herr] at hok
    cases hok

/-- **Where the quotes are defined**: after `init_state`, which stores the configured `γ`, the
quotes of a two-sided book of one of the symbols are computed if the stored `γ` and `κ` are not zero
and `1 + γ / κ` is positive, and otherwise the computation panics.  With the one that is stored for
`κ`, that is a `γ` greater than `-1` and not zero. -/
theorem quotes_defined_iff {num : D → ℚ} (h : OverflowAside num) (exchange : Dydx)
    (cfg : AppConfig D) (config : AvellanedaStoikovConfig D)
    (hconfig : cfg.avellanedaStoikovMarketMaking = some config) (stores : Stores D)
    (hs : stores.state.isSome) :
    ∃ t : Stores D, (initState exchange cfg).run stores = .ok () t ∧
      ∀ update : CcxtOrderBook D, update.symbol ∈ exchange.symbols → update.bids ≠ [] →
        update.asks ≠ [] → ∃ κ,
        t.lookup (exchange.name ++ "_" ++ update.symbol ++ "_γ") = some config.γ ∧
          t.lookup (exchange.name ++ "_" ++ update.symbol ++ "_κ") = some κ ∧
          ((∃ quotes, (orderBookQuotes update exchange.name).run t = .ok quotes t) ↔
            QuotesDefined num config.γ κ) ∧
          (¬ QuotesDefined num config.γ κ →
            (orderBookQuotes update exchange.name).run t = .error .arithmetic t) ∧
          (QuotesDefined num config.γ κ ↔ num config.γ ≠ 0 ∧ -1 < num config.γ) := by
  obtain ⟨t, hrun, -, hholds⟩ := initState_spec exchange hconfig hs
  refine ⟨t, hrun, fun update hsymbol hbids hasks => ?_⟩
  have hstored := hholds.stored update.symbol hsymbol
  obtain ⟨hdefined, hpanics⟩ := orderBookQuotes_defined_iff h hbids hasks hstored
  exact ⟨DecimalOps.one, hstored.γ, hstored.κ, hdefined, hpanics,
    h.quotesDefined_one_iff config.γ⟩

/-- The exchange with one symbol, and a book of it. -/
private def oneTicker : Dydx := ⟨["BTC-USD"], "", 0⟩

private def oneLevelBook : CcxtOrderBook ℚ where
  bids := [⟨100, 1⟩]
  asks := [⟨101, 1⟩]
  symbol := "BTC-USD"
  nonce := none

/-- Exact arithmetic with the logarithm of two, which is the only one taken below. -/
@[reducible] private def lnOfTwo : DecimalOps ℚ :=
  fieldOps fun _ => 6931471805599453094172321215 / 10 ^ 28

/-- **With zero configured for `γ` every book panics** on a division by zero; with `-3`, on the
logarithm of a number that is not positive, be `κ` one or the configured three. -/
theorem zero_risk_aversion_panics :
    letI := lnOfTwo
    (∃ t : Stores ℚ,
        (initState oneTicker ⟨none, some ⟨0, 3, 1 / 10⟩⟩).run ⟨some .new, none⟩ = .ok () t ∧
        DecimalOps.div (DecimalOps.fromInt 2) (0 : ℚ) = none ∧
        Panicking.reason (orderBookQuotes oneLevelBook "dydx") t = some .arithmetic) ∧
      ∃ t : Stores ℚ,
        (initState oneTicker ⟨none, some ⟨-3, 3, 1 / 10⟩⟩).run ⟨some .new, none⟩ = .ok () t ∧
        Panicking.reason (orderBookQuotes oneLevelBook "dydx") t = some .arithmetic :=
  ⟨⟨_, rfl, rfl, by decide +kernel⟩, ⟨_, rfl, by decide +kernel⟩⟩

/-- A configuration after which the book is quoted. -/
theorem quotes_defined_iff_sample :
    letI := lnOfTwo
    ∃ t : Stores ℚ,
      (initState oneTicker ⟨none, some ⟨1, 3, 1 / 10⟩⟩).run ⟨some .new, none⟩ = .ok () t ∧
      ∃ quotes, (orderBookQuotes oneLevelBook "dydx").run t = .ok quotes t := by
  let : DecimalOps ℚ := lnOfTwo
  obtain ⟨t, hrun, hquotes⟩ := quotes_defined_iff (overflowAside_fieldOps _) oneTicker
    ⟨none, some ⟨1, 3, 1 / 10⟩⟩ ⟨1, 3, 1 / 10⟩ rfl ⟨some .new, none⟩ rfl
  obtain ⟨κ, -, -, hdefined, -, hone⟩ := hquotes oneLevelBook (by decide) (by decide) (by decide)
  exact ⟨t, hrun, hdefined.2 (hone.2 (by norm_num))⟩

end MarketMaker
