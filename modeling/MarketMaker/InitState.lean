/-
**What the start stores for each symbol.**

`init_state` walks over the symbols of the exchange and stores four parameters for each.  The
configuration has three of them, `γ`, `κ` and `σ`, but only `γ` is taken from it; the other two are
stored as one, whatever the configuration says, and nothing reads the configured values.

* `StoredParameters` — the parameters stored for a symbol;
* `HoldsParameters` — given parameters are stored for each symbol, and nothing else has changed;
* `initState_spec` — **what `init_state` stores**;
* `configured_parameter_is_ignored` — a configuration whose `κ` is not stored;
* `parameters_configured_iff` — **the configured parameters are stored if and only if the two that
  are not taken are one**.
-/

import MarketMaker.LifeCycle

set_option relaxedAutoImplicit false
set_option autoImplicit false

namespace MarketMaker

open Panicking

variable {D : Type}

/-! ### The parameters of a symbol -/

/-- The parameters stored for a symbol. -/
structure StoredParameters (stores : Stores D) (exchangeName symbol : String) (q γ σ κ : D) :
    Prop where
  q : stores.lookup (exchangeName ++ "_" ++ symbol ++ "_q") = some q
  γ : stores.lookup (exchangeName ++ "_" ++ symbol ++ "_γ") = some γ
  σ : stores.lookup (exchangeName ++ "_" ++ symbol ++ "_σ") = some σ
  κ : stores.lookup (exchangeName ++ "_" ++ symbol ++ "_κ") = some κ

section StoredParameters

variable {stores t : Stores D} {exchangeName symbol symbol' key : String} {q γ σ κ : D}

theorem StoredParameters.exists_lookup
    (h : StoredParameters stores exchangeName symbol q γ σ κ)
    (hkey : key ∈ parameterKeys exchangeName symbol) : ∃ value, stores.lookup key = some value := by
  simp only [parameterKeys, parameterSuffixes, List.map_cons, List.map_nil, List.mem_cons,
    List.not_mem_nil, or_false] at hkey
  rcases hkey with rfl | rfl | rfl | rfl
  · exact ⟨q, h.q⟩
  · exact ⟨γ, h.γ⟩
  · exact ⟨σ, h.σ⟩
  · exact ⟨κ, h.κ⟩

theorem StoredParameters.unique {q' γ' σ' κ' : D}
    (h : StoredParameters stores exchangeName symbol q γ σ κ)
    (h' : StoredParameters stores exchangeName symbol q' γ' σ' κ') :
    q = q' ∧ γ = γ' ∧ σ = σ' ∧ κ = κ' :=
  ⟨Option.some.inj (h.q.symm.trans h'.q), Option.some.inj (h.γ.symm.trans h'.γ),
    Option.some.inj (h.σ.symm.trans h'.σ), Option.some.inj (h.κ.symm.trans h'.κ)⟩

/-- The parameters stay stored while their keys do not change. -/
theorem StoredParameters.congr (h : StoredParameters stores exchangeName symbol q γ σ κ)
    (hkeys : ∀ key ∈ parameterKeys exchangeName symbol, t.lookup key = stores.lookup key) :
    StoredParameters t exchangeName symbol q γ σ κ := by
  have hkey : ∀ suffix ∈ parameterSuffixes,
      t.lookup (exchangeName ++ "_" ++ symbol ++ suffix) =
        stores.lookup (exchangeName ++ "_" ++ symbol ++ suffix) :=
    fun suffix hsuffix => hkeys _ (List.mem_map_of_mem hsuffix)
  constructor
  · rw [hkey "_q" (by decide), h.q]
  · rw [hkey "_γ" (by decide), h.γ]
  · rw [hkey "_σ" (by decide), h.σ]
  · rw [hkey "_κ" (by decide), h.κ]

/-- No key is for parameters of two symbols. -/
theorem parameterKeys_disjoint (hne : symbol ≠ symbol')
    (h : key ∈ parameterKeys exchangeName symbol) : key ∉ parameterKeys exchangeName symbol' := by
  intro h'
  have hend : ∀ a ∈ parameterSuffixes, ∀ b ∈ parameterSuffixes, a.toList <:+ b.toList → a = b := by
    decide
  obtain ⟨suffix, hs, rfl⟩ := List.mem_map.1 h
  obtain ⟨suffix', hs', heq⟩ := List.mem_map.1 h'
  exact hne (symbol_suffix_of_key_eq hend hs' hs heq).1.symm

/-- The stores after the parameters of a symbol were stored. -/
def Stores.setParameters (stores : Stores D) (exchangeName symbol : String) (q γ σ κ : D) :
    Stores D :=
  (((stores.set (exchangeName ++ "_" ++ symbol ++ "_γ") γ).set
    (exchangeName ++ "_" ++ symbol ++ "_σ") σ).set
    (exchangeName ++ "_" ++ symbol ++ "_κ") κ).set
    (exchangeName ++ "_" ++ symbol ++ "_q") q

/-- What is stored for a symbol, in the order it is stored. -/
def parameterWrites (exchangeName symbol : String) (q γ σ κ : D) : List (String × D) :=
  [(exchangeName ++ "_" ++ symbol ++ "_γ", γ), (exchangeName ++ "_" ++ symbol ++ "_σ", σ),
    (exchangeName ++ "_" ++ symbol ++ "_κ", κ), (exchangeName ++ "_" ++ symbol ++ "_q", q)]

theorem nodup_parameterWrites (exchangeName symbol : String) (q γ σ κ : D) :
    ((parameterWrites exchangeName symbol q γ σ κ).map Prod.fst).Nodup := by
  have hsuffixes : (["_γ", "_σ", "_κ", "_q"] : List String).Nodup := by decide
  exact nodup_keys hsuffixes exchangeName symbol

theorem Stores.setParameters_eq (stores : Stores D) (exchangeName symbol : String) (q γ σ κ : D) :
    stores.setParameters exchangeName symbol q γ σ κ =
      stores.setAll (parameterWrites exchangeName symbol q γ σ κ) := rfl

theorem Stores.isSome_state_setParameters (h : stores.state.isSome) (exchangeName symbol : String)
    (q γ σ κ : D) : (stores.setParameters exchangeName symbol q γ σ κ).state.isSome := by
  rw [setParameters_eq]
  exact isSome_state_setAll h _

theorem Stores.lookup_setParameters (stores : Stores D)
    (hkey : key ∉ parameterKeys exchangeName symbol) (q γ σ κ : D) :
    (stores.setParameters exchangeName symbol q γ σ κ).lookup key = stores.lookup key := by
  rw [setParameters_eq]
  refine lookup_setAll_of_not_mem stores ?_
  simpa [parameterWrites, parameterKeys, parameterSuffixes, and_comm, and_left_comm, and_assoc]
    using hkey

theorem storedParameters_setParameters (h : stores.state.isSome) (exchangeName symbol : String)
    (q γ σ κ : D) :
    StoredParameters (stores.setParameters exchangeName symbol q γ σ κ) exchangeName symbol
      q γ σ κ := by
  have hstored : ∀ {key : String} {value : D}, (key, value) ∈ parameterWrites exchangeName symbol
      q γ σ κ → (stores.setParameters exchangeName symbol q γ σ κ).lookup key = some value :=
    fun hmem =>
      Stores.lookup_setAll_of_mem h (nodup_parameterWrites exchangeName symbol q γ σ κ) hmem
  constructor
  · exact hstored (by simp [parameterWrites])
  · exact hstored (by simp [parameterWrites])
  · exact hstored (by simp [parameterWrites])
  · exact hstored (by simp [parameterWrites])

end StoredParameters

/-! ### The walk over the symbols -/

/-- Given parameters are stored for every symbol, and every other key is as it was. -/
structure HoldsParameters (exchangeName : String) (symbols : List String) (q γ σ κ : D)
    (stores t : Stores D) : Prop where
  stored : ∀ symbol ∈ symbols, StoredParameters t exchangeName symbol q γ σ κ
  others : ∀ key, (∀ symbol ∈ symbols, key ∉ parameterKeys exchangeName symbol) →
    t.lookup key = stores.lookup key

/-- One more symbol. -/
theorem HoldsParameters.step {exchangeName : String} {symbols : List String} {q γ σ κ : D}
    {stores t : Stores D} (h : HoldsParameters exchangeName symbols q γ σ κ stores t)
    (ht : t.state.isSome) (symbol : String) :
    HoldsParameters exchangeName (symbols ++ [symbol]) q γ σ κ stores
      (t.setParameters exchangeName symbol q γ σ κ) := by
  constructor
  · intro symbol' hs
    by_cases heq : symbol' = symbol
    · exact heq ▸ storedParameters_setParameters ht exchangeName symbol q γ σ κ
    · have hold : symbol' ∈ symbols := by simpa [heq] using hs
      exact (h.stored symbol' hold).congr fun key hkey =>
        Stores.lookup_setParameters t (parameterKeys_disjoint heq hkey) q γ σ κ
  · intro key hkey
    rw [Stores.lookup_setParameters t (hkey symbol (by simp)),
      h.others key fun symbol' hs => hkey symbol' (List.mem_append_left _ hs)]

/-- A symbol that occurs again has its parameters stored again. -/
theorem holdsParameters_foldl {stores : Stores D} (hs : stores.state.isSome)
    (exchangeName : String) (symbols : List String) (q γ σ κ : D) :
    let t := symbols.foldl
      (fun stores symbol => stores.setParameters exchangeName symbol q γ σ κ) stores
    (t.state.isSome ∧ t.trades = stores.trades) ∧
      HoldsParameters exchangeName symbols q γ σ κ stores t := by
  induction symbols using List.reverseRecOn with
  | nil => exact ⟨⟨hs, rfl⟩, fun _ h => absurd h List.not_mem_nil, fun _ _ => rfl⟩
  | append_singleton symbols symbol ih =>
      obtain ⟨⟨hstate, htrades⟩, hholds⟩ := ih
      rw [List.foldl_concat]
      exact ⟨⟨Stores.isSome_state_setParameters hstate _ _ _ _ _ _, htrades⟩,
        hholds.step hstate symbol⟩

variable [DecimalOps D]

/-- **What `init_state` stores**: `γ` as configured, one for `σ` and `κ`, and no inventory. -/
theorem initState_spec (exchange : Dydx) {cfg : AppConfig D} {config : AvellanedaStoikovConfig D}
    (hconfig : cfg.avellanedaStoikovMarketMaking = some config) {stores : Stores D}
    (hs : stores.state.isSome) :
    ∃ t : Stores D, (initState exchange cfg).run stores = .ok () t ∧
      (t.state.isSome ∧ t.trades = stores.trades) ∧
      HoldsParameters exchange.name exchange.symbols DecimalOps.zero config.γ DecimalOps.one
        DecimalOps.one stores t := by
  obtain ⟨state, hstate⟩ := Option.isSome_iff_exists.1 hs
  refine ⟨_, ?_, holdsParameters_foldl hs exchange.name exchange.symbols _ _ _ _⟩
  have hexpect : (expectState : Handler D Unit).run stores = .ok () stores := by
    simp [expectState, hstate]
  rw [initState, EStateM.run_bind, hexpect]
  refine run_forM_of_ok (fun symbol _ s => ?_) stores
  rw [hconfig]
  rfl

/-- **The configured parameters are stored** for every symbol, with no inventory, if and only if
there is no symbol or the configured `σ` and `κ` are one, whatever was stored before. -/
theorem parameters_configured_iff (exchange : Dydx) (cfg : AppConfig D)
    (config : AvellanedaStoikovConfig D)
    (hconfig : cfg.avellanedaStoikovMarketMaking = some config) (stores : Stores D)
    (hs : stores.state.isSome) :
    (∃ t : Stores D, (initState exchange cfg).run stores = .ok () t ∧
        HoldsParameters exchange.name exchange.symbols DecimalOps.zero config.γ config.σ config.κ
          stores t) ↔
      exchange.symbols = [] ∨ config.σ = DecimalOps.one ∧ config.κ = DecimalOps.one := by
  obtain ⟨t, hrun, -, hholds⟩ := initState_spec exchange hconfig hs
  constructor
  · rintro ⟨t', hrun', hholds'⟩
    obtain rfl : t' = t := (EStateM.Result.ok.inj (hrun'.symm.trans hrun)).2
    rcases hsymbols : exchange.symbols with _ | ⟨symbol, symbols⟩
    · exact Or.inl rfl
    · have hmem : symbol ∈ exchange.symbols := by simp [hsymbols]
      exact Or.inr ((hholds'.stored symbol hmem).unique (hholds.stored symbol hmem)).2.2
  · rintro (hnil | ⟨hσ, hκ⟩)
    · refine ⟨t, hrun, ?_, hholds.others⟩
      simp [hnil]
    · exact ⟨t, hrun, hσ ▸ hκ ▸ hholds⟩

/-- The exchange with one symbol, and a configuration. -/
private def oneSymbol : Dydx := ⟨["BTC-USD"], "", 0⟩

private def defaultConfig : AppConfig ℚ := ⟨none, some ⟨1, 3, 1 / 10⟩⟩

/-- **The configured `κ` is not stored.** -/
theorem configured_parameter_is_ignored :
    letI := exactOps fun _ => none
    ∃ t : Stores ℚ, (initState oneSymbol defaultConfig).run ⟨some .new, none⟩ = .ok () t ∧
      t.lookup "dydx_BTC-USD_κ" = some 1 ∧ t.lookup "dydx_BTC-USD_σ" = some 1 ∧
      ¬ ∃ t' : Stores ℚ, (initState oneSymbol defaultConfig).run ⟨some .new, none⟩ = .ok () t' ∧
        HoldsParameters "dydx" ["BTC-USD"] 0 1 (1 / 10) 3 ⟨some .new, none⟩ t' := by
  refine ⟨_, rfl, by decide, by decide, ?_⟩
  rintro ⟨t', hrun, hholds⟩
  obtain rfl := (EStateM.Result.ok.inj hrun).2
  have hκ : some (1 : ℚ) = some 3 := (hholds.stored "BTC-USD" (by simp)).κ
  norm_num at hκ

/-- With ones configured everything is stored as configured. -/
theorem parameters_configured_iff_sample :
    letI := exactOps fun _ => none
    ∃ t : Stores ℚ, (initState oneSymbol ⟨none, some ⟨2, 1, 1⟩⟩).run ⟨some .new, none⟩ = .ok () t ∧
      HoldsParameters "dydx" ["BTC-USD"] 0 2 1 1 ⟨some .new, none⟩ t :=
  letI := exactOps fun _ => none
  (parameters_configured_iff oneSymbol ⟨none, some ⟨2, 1, 1⟩⟩ ⟨2, 1, 1⟩ rfl ⟨some .new, none⟩
    rfl).2 (Or.inr ⟨rfl, rfl⟩)

end MarketMaker
