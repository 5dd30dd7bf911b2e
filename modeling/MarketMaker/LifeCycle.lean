/-
**Which order books find their parameters stored.**

`new` stores the parameters of the symbols the exchange has at that time, and it has none: symbols
are registered by `run`, afterwards.  What is stored at the key of a parameter can then only come
from a trade, whose price is stored at a key that ends in the name of its symbol; a trade of the
symbol `BTC-USD_q` writes where the parameter `q` of `BTC-USD` is read.

* `not_mem_bookKeys` — no key of a book is the key of a parameter;
* `new_stores` — after `new` the stores are empty and the exchange has no symbols;
* `lookup_after_handleMessage`, `isSome_lookup_handleAll` — what one message and what a run of
  messages leaves at the key of a parameter;
* `first_book_misses_parameters` — the first order book of a registered symbol panics;
* `parameters_stored_iff` — **in every run, the parameters are stored at every order book of a
  registered symbol if and only if each was preceded by trades of four such symbols**.
-/

import MarketMaker.Strategy
import Mathlib.Data.List.Induction

set_option relaxedAutoImplicit false
set_option autoImplicit false

namespace MarketMaker

open Panicking

variable {D F : Type}

/-! ### The keys -/

theorem getLast?_append_of_isSome {a b : String} {c : Char} (h : b.toList.getLast? = some c) :
    (a ++ b).toList.getLast? = some c := by
  rw [String.toList_append, List.getLast?_append, h]
  rfl

/-- **A key says which symbol and which value it is for**, if of the endings none ends another. -/
theorem symbol_suffix_of_key_eq {suffixes : List String}
    (hend : ∀ a ∈ suffixes, ∀ b ∈ suffixes, a.toList <:+ b.toList → a = b)
    {exchangeName symbol symbol' suffix suffix' : String} (hs : suffix ∈ suffixes)
    (hs' : suffix' ∈ suffixes)
    (h : exchangeName ++ "_" ++ symbol ++ suffix = exchangeName ++ "_" ++ symbol' ++ suffix') :
    symbol = symbol' ∧ suffix = suffix' := by
  have hlist := congrArg String.toList h
  simp only [String.toList_append] at hlist
  have hleft := List.suffix_append (exchangeName.toList ++ "_".toList ++ symbol.toList)
    suffix.toList
  have hright := List.suffix_append (exchangeName.toList ++ "_".toList ++ symbol'.toList)
    suffix'.toList
  rw [hlist] at hleft
  have heq : suffix = suffix' := by
    rcases Nat.le_total suffix.toList.length suffix'.toList.length with hle | hle
    · exact hend _ hs _ hs' (List.suffix_of_suffix_length_le hleft hright hle)
    · exact (hend _ hs' _ hs (List.suffix_of_suffix_length_le hright hleft hle)).symm
  rw [heq, String.append_left_inj, String.append_right_inj] at h
  exact ⟨h, heq⟩

/-- The keys of a book end in `e`, those of the parameters do not. -/
theorem not_mem_bookKeys {exchangeName symbol exchangeName' symbol' key : String}
    (h : key ∈ parameterKeys exchangeName symbol) : key ∉ bookKeys exchangeName' symbol' := by
  intro hbook
  obtain ⟨suffix, hsuffix, rfl⟩ := List.mem_map.1 h
  obtain ⟨suffix', hsuffix', heq⟩ := List.mem_map.1 hbook
  have hparam : ∀ s ∈ parameterSuffixes,
      s.toList.getLast?.isSome ∧ s.toList.getLast? ≠ some 'e' := by decide
  have hends : ∀ s ∈ ["_bid_price", "_bid_size", "_ask_price", "_ask_size", "_mid_price"],
      s.toList.getLast? = some 'e' := by decide
  obtain ⟨hsome, hne⟩ := hparam suffix hsuffix
  obtain ⟨c, hc⟩ := Option.isSome_iff_exists.1 hsome
  have hlast := congrArg (fun s : String => s.toList.getLast?) heq
  simp only [getLast?_append_of_isSome hc, getLast?_append_of_isSome (hends suffix' hsuffix')]
    at hlast
  exact hne (hc.trans hlast.symm)

/-! ### Messages -/

section Messages

variable [DecimalOps D]

/-- The price a message stores at a key, if it is a trade whose key it is. -/
def tradeAt (exchangeName key : String) : CcxtMessage D F → Option D
  | .ccxtTrade update =>
      if exchangeName ++ "_" ++ update.symbol = key then some update.price else none
  | _ => none

/-- **What one message leaves** at a key that is none of a book's. -/
theorem lookup_after_handleMessage {stores : Stores D} (hs : stores.Initialized)
    (message : CcxtMessage D F) {exchangeName key : String}
    (hkey : ∀ symbol, key ∉ bookKeys exchangeName symbol) (now : ℕ) :
    (after (handleMessage message exchangeName now) stores).Initialized ∧
      (after (handleMessage message exchangeName now) stores).lookup key =
        (tradeAt exchangeName key message).or (stores.lookup key) := by
  rcases after_handleMessage_cases hs message exchangeName now with
    ⟨update, rfl, hafter⟩ | ⟨update, quotes, rfl, hafter⟩ | ⟨hnot, hafter⟩
  · rw [hafter, Stores.lookup_addTrade, tradeAt]
    refine ⟨(hs.set _ _).addTrade _ _, ?_⟩
    split_ifs with heq
    · rw [heq, Stores.lookup_set_self hs.1]
      rfl
    · rw [Stores.lookup_set_of_ne _ (Ne.symm heq), Option.none_or]
  · rw [hafter]
    exact ⟨hs.setBook _ _ _, Stores.lookup_setBook stores (hkey update.symbol) quotes⟩
  · have hnone : tradeAt exchangeName key message = none := by
      cases message with
      | ccxtTrade update => exact absurd rfl (hnot update)
      | _ => rfl
    rw [hafter, hnone]
    exact ⟨hs, rfl⟩

/-- The stores after messages were handled one after another, each at a reading of the clock. -/
def handleAll (exchangeName : String) (msgs : List (CcxtMessage D F × ℕ)) (stores : Stores D) :
    Stores D :=
  msgs.foldl (fun stores e => after (handleMessage e.1 exchangeName e.2) stores) stores

/-- **What a run of messages leaves** at the key of a parameter: something exactly if something was
stored there before, or one of the messages was a trade with that key. -/
theorem isSome_lookup_handleAll {stores : Stores D} (hs : stores.Initialized)
    {exchangeName key : String} (hkey : ∀ symbol, key ∉ bookKeys exchangeName symbol)
    (msgs : List (CcxtMessage D F × ℕ)) :
    (handleAll exchangeName msgs stores).Initialized ∧
      (((handleAll exchangeName msgs stores).lookup key).isSome ↔
        (stores.lookup key).isSome ∨ ∃ e ∈ msgs, (tradeAt exchangeName key e.1).isSome) := by
  induction msgs using List.reverseRecOn with
  | nil => exact ⟨hs, by simp [handleAll]⟩
  | append_singleton msgs e ih =>
      obtain ⟨hinit, hlookup⟩ := ih
      rw [handleAll, List.foldl_concat, ← handleAll]
      obtain ⟨hinit', hlookup'⟩ := lookup_after_handleMessage hinit e.1 hkey e.2
      refine ⟨hinit', ?_⟩
      rw [hlookup', Option.isSome_or, Bool.or_eq_true, hlookup]
      simp only [List.mem_append, List.mem_singleton, or_and_right, exists_or, exists_eq_left]
      exact or_comm.trans or_assoc

omit [DecimalOps D] in
/-- The trades stored at the key of a parameter. -/
theorem isSome_tradeAt_iff {exchangeName symbol suffix : String} {message : CcxtMessage D F} :
    (tradeAt exchangeName (exchangeName ++ "_" ++ symbol ++ suffix) message).isSome ↔
      ∃ trade, message = .ccxtTrade trade ∧ trade.symbol = symbol ++ suffix := by
  cases message with
  | ccxtTrade update =>
      have hkey : exchangeName ++ "_" ++ update.symbol = exchangeName ++ "_" ++ symbol ++ suffix ↔
          update.symbol = symbol ++ suffix := by
        have happ : exchangeName ++ "_" ++ symbol ++ suffix =
            exchangeName ++ "_" ++ (symbol ++ suffix) := String.append_assoc
        rw [happ, String.append_right_inj]
      rw [tradeAt]
      split_ifs with heq
      · exact iff_of_true rfl ⟨update, rfl, hkey.1 heq⟩
      · refine iff_of_false (by simp) ?_
        rintro ⟨trade, ⟨⟩, htrade⟩
        exact heq (hkey.2 htrade)
  | _ => simp [tradeAt]

/-! ### The start -/

/-- **The stores after `new`**: both are set, nothing is stored, and no symbol is registered. -/
theorem new_stores {wallet : String → Option String} {cfg : AppConfig D}
    {self : AvellanedaStoikovMarketMaking} {stores : Stores D}
    (h : (AvellanedaStoikovMarketMaking.new wallet cfg).run .uninit = .ok self stores) :
    self.exchange.symbols = [] ∧ stores.Initialized ∧ ∀ key, stores.lookup key = none := by
  rw [AvellanedaStoikovMarketMaking.new] at h
  rcases hconfig : cfg.dydx with _ | config
  · simp [hconfig] at h
  rcases hwallet : wallet config.mnemonic with _ | address
  · simp [hconfig, hwallet] at h
  simp only [hconfig, hwallet, unwrap_some, pure_bind, initState, expectState, Dydx.new] at h
  obtain ⟨rfl, rfl⟩ := EStateM.Result.ok.inj h
  exact ⟨rfl, ⟨rfl, rfl⟩, fun _ => rfl⟩

/-- The four parameters of a symbol are stored. -/
def ParametersStored (stores : Stores D) (exchangeName symbol : String) : Prop :=
  ∀ key ∈ parameterKeys exchangeName symbol, (stores.lookup key).isSome

/-- **When the parameters of a symbol are stored** after a run of messages from stores where nothing
is stored: when each has had its trade. -/
theorem parametersStored_handleAll_iff {stores : Stores D} (hs : stores.Initialized)
    (hnone : ∀ key, stores.lookup key = none) (exchangeName symbol : String)
    (msgs : List (CcxtMessage D F × ℕ)) :
    ParametersStored (handleAll exchangeName msgs stores) exchangeName symbol ↔
      ∀ suffix ∈ parameterSuffixes, ∃ trade now,
        (.ccxtTrade trade, now) ∈ msgs ∧ trade.symbol = symbol ++ suffix := by
  rw [ParametersStored, parameterKeys, List.forall_mem_map]
  refine forall_congr' fun suffix => forall_congr' fun hsuffix => ?_
  have hkey : ∀ symbol', exchangeName ++ "_" ++ symbol ++ suffix ∉ bookKeys exchangeName symbol' :=
    fun symbol' => not_mem_bookKeys (List.mem_map_of_mem hsuffix)
  rw [(isSome_lookup_handleAll hs hkey msgs).2, hnone, Option.isSome_none, Bool.false_eq_true,
    false_or]
  simp only [isSome_tradeAt_iff]
  constructor
  · rintro ⟨⟨_, now⟩, hmem, trade, rfl, htrade⟩
    exact ⟨trade, now, hmem, htrade⟩
  · rintro ⟨trade, now, hmem, htrade⟩
    exact ⟨_, hmem, trade, rfl, htrade⟩

/-- **Which order books find their parameters stored**: after `new` has returned and `run` has
registered the symbols, every order book of a registered symbol finds the four parameters of its
symbol stored if and only if, in the messages before each, there are trades whose symbols are that
symbol followed by `_q`, by `_γ`, by `_σ` and by `_κ`. -/
theorem parameters_stored_iff (wallet : String → Option String) (cfg : AppConfig D)
    (self : AvellanedaStoikovMarketMaking) (stores : Stores D)
    (hnew : (AvellanedaStoikovMarketMaking.new wallet cfg).run .uninit = .ok self stores)
    (msgs : List (CcxtMessage D F × ℕ)) :
    (∀ before update now later, msgs = before ++ (.ccxtOrderBook update, now) :: later →
        update.symbol ∈ self.run.exchange.symbols →
        ParametersStored (handleAll self.exchangeName before stores) self.exchangeName
          update.symbol) ↔
      ∀ before update now later, msgs = before ++ (.ccxtOrderBook update, now) :: later →
        update.symbol ∈ self.run.exchange.symbols →
        ∀ suffix ∈ parameterSuffixes, ∃ trade now',
          (.ccxtTrade trade, now') ∈ before ∧ trade.symbol = update.symbol ++ suffix := by
  obtain ⟨-, hs, hnone⟩ := new_stores hnew
  constructor
  · intro h before update now later hsplit hsymbol
    exact (parametersStored_handleAll_iff hs hnone self.exchangeName update.symbol before).1
      (h before update now later hsplit hsymbol)
  · intro h before update now later hsplit hsymbol
    exact (parametersStored_handleAll_iff hs hnone self.exchangeName update.symbol before).2
      (h before update now later hsplit hsymbol)

end Messages

/-- A phrase of twelve words. -/
def samplePhrase : String :=
  "abandon abandon abandon abandon abandon abandon abandon abandon abandon abandon abandon about"

/-- The wallet of the phrase. -/
def sampleWallet (mnemonic : String) : Option String :=
  if mnemonic = samplePhrase then some "dydx19rl4cm2hmr8afy4kldpxz3fka4jguq0a4erelz" else none

/-- A configuration with the phrase. -/
def sampleConfig : AppConfig ℚ := ⟨some ⟨samplePhrase, 0⟩, some ⟨1, 3, 1 / 10⟩⟩

/-- A book of the symbol `run` registers. -/
private def sampleBook : CcxtOrderBook ℚ where
  bids := [⟨100, 1⟩]
  asks := [⟨101, 1⟩]
  symbol := "BTC-USD"
  nonce := none

/-- **The first order book of a registered symbol panics**: its parameters are not stored. -/
theorem first_book_misses_parameters :
    letI := exactOps fun _ => none
    ∃ self stores, (AvellanedaStoikovMarketMaking.new sampleWallet sampleConfig).run .uninit =
        .ok self stores ∧
      sampleBook.symbol ∈ self.run.exchange.symbols ∧
      ¬ ParametersStored stores self.exchangeName sampleBook.symbol ∧
      reason (handleMessage (.ccxtOrderBook sampleBook : CcxtMessage ℚ ℚ) self.exchangeName 0)
        stores = some .missingParameter := by
  refine ⟨_, _, rfl, by decide, fun h => ?_, by decide +kernel⟩
  exact absurd (h "dydx_BTC-USD_q" (by decide)) (by decide)

/-- A trade of a symbol named like a parameter. -/
private def parameterTrade (suffix : String) : CcxtTrade ℚ :=
  ⟨"a", 0, ⟨0⟩, "BTC-USD" ++ suffix, none, none, 1, 1⟩

/-- The trades of the four parameters. -/
private def parameterTrades : List (CcxtMessage ℚ ℚ × ℕ) :=
  parameterSuffixes.map fun suffix => (.ccxtTrade (parameterTrade suffix), 0)

/-- The trades, and then the book. -/
private def tradesThenBook : List (CcxtMessage ℚ ℚ × ℕ) :=
  parameterTrades ++ [(.ccxtOrderBook sampleBook, 1)]

theorem parameters_stored_iff_sample :
    letI := exactOps fun _ => none
    ∃ self stores, (AvellanedaStoikovMarketMaking.new sampleWallet sampleConfig).run .uninit =
        .ok self stores ∧
      sampleBook.symbol ∈ self.run.exchange.symbols ∧
      ∀ before update now later, tradesThenBook = before ++ (.ccxtOrderBook update, now) :: later →
        update.symbol ∈ self.run.exchange.symbols →
        ParametersStored (handleAll self.exchangeName before stores) self.exchangeName
          update.symbol := by
  let : DecimalOps ℚ := exactOps fun _ => none
  refine ⟨_, _, rfl, by decide,
    (parameters_stored_iff sampleWallet sampleConfig _ _ rfl tradesThenBook).2 ?_⟩
  intro before update now later hsplit hsymbol suffix hsuffix
  -- the only book is the last message
  have htrade : (.ccxtTrade (parameterTrade suffix), 0) ∈ parameterTrades :=
    List.mem_map_of_mem hsuffix
  have hname : (parameterTrade suffix).symbol = update.symbol ++ suffix := by
    rw [List.mem_singleton.1 hsymbol]
    rfl
  rcases List.append_eq_append_iff.1 hsplit with ⟨rest, rfl, -⟩ | ⟨rest, heq, hlast⟩
  · exact ⟨_, _, List.mem_append_left _ htrade, hname⟩
  · cases rest with
    | nil =>
        rw [List.append_nil] at heq
        exact ⟨_, _, heq ▸ htrade, hname⟩
    | cons e rest =>
        obtain ⟨rfl, -⟩ := List.cons.inj hlast
        have hmem : ((.ccxtOrderBook update, now) : CcxtMessage ℚ ℚ × ℕ) ∈ parameterTrades :=
          heq ▸ List.mem_append_right before (List.mem_cons_self ..)
        obtain ⟨_, -, hmessage⟩ := List.mem_map.1 hmem
        cases hmessage

end MarketMaker
