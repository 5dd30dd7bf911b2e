/-
**The strategy: its stores, its start and its message handler.**

The strategy keeps two static stores: the last value of everything it tracks, in a map whose keys
are built from the names of the exchange, of the symbol and of the value; and the prices of recent
trades, in a buffer with a ttl.  `new` creates the stores and stores the parameters of the symbols
of the exchange; `run` registers the symbols and loads the markets; then messages are handled one
after another.  The stores outlive a panic of the handler.

Loading the markets subscribes to feeds, and the tasks `run` spawns log what they watch; neither
touches the stores or the symbols.

* `handleMessage` — the handler, and `orderBookQuotes`, what it reads and computes for a book;
* `initState`, `AvellanedaStoikovMarketMaking.new`, `AvellanedaStoikovMarketMaking.run` — the start;
* `handleOrderBook_cases` — **an order book is handled to the end, or leaves the stores alone**;
* `emptySide_of_reason`, `reason_of_emptySide` — it panics on an empty side exactly when the book
  has one.
-/

import MarketMaker.Ccxt
import MarketMaker.MemoryMap
import MarketMaker.NativeBuffer
import MarketMaker.Panicking

set_option relaxedAutoImplicit false
set_option autoImplicit false

namespace MarketMaker

/-! ### The configuration -/

structure DydxConfig where
  mnemonic : String
  subaccountNumber : UInt32

structure AvellanedaStoikovConfig (D : Type) where
  γ : D
  κ : D
  σ : D

/-- The parts of the configuration the strategy reads. -/
structure AppConfig (D : Type) where
  dydx : Option DydxConfig
  avellanedaStoikovMarketMaking : Option (AvellanedaStoikovConfig D)

/-! ### The exchange -/

/-- The exchange, less its client and its channels. -/
structure Dydx where
  symbols : List String
  address : String
  subaccountNumber : UInt32

namespace Dydx

/-- The exchange starts with no symbols. -/
def new (cfg : DydxConfig) (address : String) : Dydx := ⟨[], address, cfg.subaccountNumber⟩

def name (_ : Dydx) : String := "dydx"

def addSymbol (self : Dydx) (symbol : String) : Dydx :=
  { self with symbols := self.symbols ++ [symbol] }

end Dydx

/-! ### The stores -/

/-- Why the code panics. -/
inductive Panic
  | stateNotInitialized
  | tradesNotInitialized
  | todo
  /-- `first().unwrap()` on a side of a book without levels. -/
  | emptySide
  /-- `unwrap` on a parameter that is not stored. -/
  | missingParameter
  | arithmetic
  /-- `unwrap` on a part of the configuration that is not there. -/
  | missingConfig
  /-- No wallet from the mnemonic. -/
  | wallet
deriving DecidableEq, Repr

/-- The two static stores, absent until they are first set. -/
structure Stores (D : Type) where
  state : Option (NativeMemoryMap D)
  trades : Option (NativeExpirationBuffer D)

/-- A computation over the stores. -/
abbrev Handler (D α : Type) := EStateM Panic (Stores D) α

namespace Stores

variable {D : Type}

/-- The stores of a process that has just started. -/
def uninit : Stores D := ⟨none, none⟩

/-- The value stored at a key. -/
def lookup (stores : Stores D) (key : String) : Option D :=
  stores.state.bind fun state => state.get key

/-- The stores after a value was stored at a key. -/
def set (stores : Stores D) (key : String) (value : D) : Stores D :=
  { stores with state := stores.state.map fun state => state.set key value }

/-- The stores after a trade was added. -/
def addTrade (stores : Stores D) (now : ℕ) (value : D) : Stores D :=
  { stores with trades := stores.trades.map fun trades => trades.add now value }

/-- Both stores have been set. -/
def Initialized (stores : Stores D) : Prop :=
  stores.state.isSome ∧ stores.trades.isSome

theorem lookup_set_self {stores : Stores D} (h : stores.state.isSome) (key : String) (value : D) :
    (stores.set key value).lookup key = some value := by
  obtain ⟨state, hstate⟩ := Option.isSome_iff_exists.1 h
  simp [set, lookup, hstate, NativeMemoryMap.set, NativeMemoryMap.get]

theorem lookup_set_of_ne (stores : Stores D) {key key' : String} (h : key' ≠ key) (value : D) :
    (stores.set key value).lookup key' = stores.lookup key' := by
  cases hstate : stores.state <;>
    simp [set, lookup, hstate, NativeMemoryMap.set, NativeMemoryMap.get, h]

theorem isSome_state_set {stores : Stores D} (h : stores.state.isSome) (key : String) (value : D) :
    (stores.set key value).state.isSome := by
  simpa [Stores.set] using h

theorem Initialized.set {stores : Stores D} (h : stores.Initialized) (key : String) (value : D) :
    (stores.set key value).Initialized := by
  simpa [Initialized, Stores.set] using h

theorem Initialized.addTrade {stores : Stores D} (h : stores.Initialized) (now : ℕ) (value : D) :
    (stores.addTrade now value).Initialized := by
  simpa [Initialized, Stores.addTrade] using h

/-- The stores after a list of values was stored, each at its key. -/
def setAll (stores : Stores D) (log : List (String × D)) : Stores D :=
  log.foldl (fun stores w => stores.set w.1 w.2) stores

theorem isSome_state_setAll {stores : Stores D} (h : stores.state.isSome)
    (log : List (String × D)) : (stores.setAll log).state.isSome := by
  induction log generalizing stores with
  | nil => exact h
  | cons w log ih => exact ih (isSome_state_set h w.1 w.2)

theorem lookup_setAll_of_not_mem (stores : Stores D) {log : List (String × D)} {key : String}
    (h : key ∉ log.map Prod.fst) : (stores.setAll log).lookup key = stores.lookup key := by
  induction log generalizing stores with
  | nil => rfl
  | cons w log ih =>
      rw [List.map_cons, List.mem_cons, not_or] at h
      exact (ih (stores.set w.1 w.2) h.2).trans (lookup_set_of_ne stores h.1 w.2)

/-- Values stored at different keys are found there. -/
theorem lookup_setAll_of_mem {stores : Stores D} (hs : stores.state.isSome)
    {log : List (String × D)} (h : (log.map Prod.fst).Nodup) {key : String} {value : D}
    (hmem : (key, value) ∈ log) : (stores.setAll log).lookup key = some value := by
  induction log generalizing stores with
  | nil => cases hmem
  | cons w log ih =>
      obtain ⟨hnot, hrest⟩ := List.nodup_cons.1 h
      rcases List.mem_cons.1 hmem with rfl | hmem
      · exact (lookup_setAll_of_not_mem _ hnot).trans (lookup_set_self hs key value)
      · exact ih (isSome_state_set hs w.1 w.2) hrest hmem

@[simp] theorem lookup_addTrade (stores : Stores D) (now : ℕ) (value : D) (key : String) :
    (stores.addTrade now value).lookup key = stores.lookup key := rfl

end Stores

section Handlers

open Panicking

variable {D F : Type}

/-- `STATE_STORAGE.get().expect(..)`. -/
def expectState : Handler D Unit := do
  let stores ← get
  let _ ← unwrap .stateNotInitialized stores.state

/-- `TRADES_STORAGE.get().expect(..)`. -/
def expectTrades : Handler D Unit := do
  let stores ← get
  let _ ← unwrap .tradesNotInitialized stores.trades

def getState (key : String) : Handler D (Option D) := do
  let stores ← get
  pure (stores.lookup key)

def setState (key : String) (value : D) : Handler D Unit :=
  modify fun stores => stores.set key value

def addTrade (now : ℕ) (value : D) : Handler D Unit :=
  modify fun stores => stores.addTrade now value

/-! ### The message handler -/

variable [DecimalOps D]

open DecimalOps in
def reservationPrice (s q γ σ : D) : Option D := do
  let qγ ← mul q γ
  let σσ ← powi σ 2
  sub s (← mul qγ σσ)

open DecimalOps in
def optimalSpread (γ κ : D) : Option D := do
  let two := fromInt 2
  let factor ← div two γ
  let sum ← add one (← div γ κ)
  mul factor (← ln sum)

/-- What the handler reads off a book and computes from it. -/
structure Quotes (D : Type) where
  bidPrice : D
  askPrice : D
  bidSize : D
  askSize : D
  midPrice : D
  reservationPrice : D
  optimalSpread : D
  asmmBidPrice : D
  asmmAskPrice : D

/-- The handling of an order book up to the first value it stores. -/
def orderBookQuotes (update : CcxtOrderBook D) (exchangeName : String) : Handler D (Quotes D) := do
  let bidPrice := (← unwrap .emptySide update.bids.head?).price
  let askPrice := (← unwrap .emptySide update.asks.head?).price
  let bidSize := (← unwrap .emptySide update.bids.head?).amount
  let askSize := (← unwrap .emptySide update.asks.head?).amount
  let sum ← unwrap .arithmetic (DecimalOps.add bidPrice askPrice)
  let midPrice ← unwrap .arithmetic (DecimalOps.div sum (DecimalOps.new 2 0))
  let q ← unwrap .missingParameter (← getState (exchangeName ++ "_" ++ update.symbol ++ "_q"))
  let γ ← unwrap .missingParameter (← getState (exchangeName ++ "_" ++ update.symbol ++ "_γ"))
  let σ ← unwrap .missingParameter (← getState (exchangeName ++ "_" ++ update.symbol ++ "_σ"))
  let κ ← unwrap .missingParameter (← getState (exchangeName ++ "_" ++ update.symbol ++ "_κ"))
  let reservationPrice ← unwrap .arithmetic (reservationPrice midPrice q γ σ)
  let optimalSpread ← unwrap .arithmetic (optimalSpread γ κ)
  let halfBid ← unwrap .arithmetic (DecimalOps.div optimalSpread (DecimalOps.new 2 0))
  let asmmBidPrice ← unwrap .arithmetic (DecimalOps.sub reservationPrice halfBid)
  let halfAsk ← unwrap .arithmetic (DecimalOps.div optimalSpread (DecimalOps.new 2 0))
  let asmmAskPrice ← unwrap .arithmetic (DecimalOps.add reservationPrice halfAsk)
  pure ⟨bidPrice, askPrice, bidSize, askSize, midPrice, reservationPrice, optimalSpread,
    asmmBidPrice, asmmAskPrice⟩

def handleOrderBook (update : CcxtOrderBook D) (exchangeName : String) : Handler D Unit := do
  let quotes ← orderBookQuotes update exchangeName
  setState (exchangeName ++ "_" ++ update.symbol ++ "_bid_price") quotes.bidPrice
  setState (exchangeName ++ "_" ++ update.symbol ++ "_bid_size") quotes.bidSize
  setState (exchangeName ++ "_" ++ update.symbol ++ "_ask_price") quotes.askPrice
  setState (exchangeName ++ "_" ++ update.symbol ++ "_ask_size") quotes.askSize
  setState (exchangeName ++ "_" ++ update.symbol ++ "_mid_price") quotes.midPrice

/-- Handle a message, at the reading `now` of the clock. -/
def handleMessage (message : CcxtMessage D F) (exchangeName : String) (now : ℕ) :
    Handler D Unit := do
  expectState
  expectTrades
  match message with
  | .ccxtBalance _ => pure ()
  | .ccxtEmpty => throw .todo
  | .ccxtTrade update =>
      let key := exchangeName ++ "_" ++ update.symbol
      setState key update.price
      addTrade now update.price
  | .ccxtOrderBook update => handleOrderBook update exchangeName
  | .ccxtPosition _ => pure ()
  | .ccxtOrder => throw .todo

/-! ### The start -/

def initState (exchange : Dydx) (cfg : AppConfig D) : Handler D Unit := do
  expectState
  exchange.symbols.forM fun symbol => do
    let config ← unwrap .missingConfig cfg.avellanedaStoikovMarketMaking
    setState (exchange.name ++ "_" ++ symbol ++ "_γ") config.γ
    setState (exchange.name ++ "_" ++ symbol ++ "_σ") DecimalOps.one
    setState (exchange.name ++ "_" ++ symbol ++ "_κ") DecimalOps.one
    setState (exchange.name ++ "_" ++ symbol ++ "_q") DecimalOps.zero

/-- The strategy, with the name of the exchange its message handler was given. -/
structure AvellanedaStoikovMarketMaking where
  exchange : Dydx
  exchangeName : String

namespace AvellanedaStoikovMarketMaking

/-- The start of the strategy, where `wallet` derives the address from a mnemonic if it can.  The
stores are set unless they already are. -/
def new (wallet : String → Option String) (cfg : AppConfig D) :
    Handler D AvellanedaStoikovMarketMaking := do
  let config ← unwrap .missingConfig cfg.dydx
  let address ← unwrap .wallet (wallet config.mnemonic)
  let exchange := Dydx.new config address
  let exchangeName := exchange.name
  modify fun stores => { stores with state := stores.state.or (some .new) }
  -- five minutes
  modify fun stores => { stores with trades := stores.trades.or (some (.new 300000000000)) }
  initState exchange cfg
  pure ⟨exchange, exchangeName⟩

/-- The strategy with the symbols `run` registers. -/
def run (self : AvellanedaStoikovMarketMaking) : AvellanedaStoikovMarketMaking :=
  let symbols := ["BTC-USD"]
  -- the markets are loaded for these symbols; neither they nor the stores change after this
  { self with exchange := symbols.foldl Dydx.addSymbol self.exchange }

end AvellanedaStoikovMarketMaking

/-! ### What the handler does -/

/-- What a message makes of stores that have been set. -/
theorem run_handleMessage {stores : Stores D} (hs : stores.Initialized)
    (message : CcxtMessage D F) (exchangeName : String) (now : ℕ) :
    (handleMessage message exchangeName now).run stores =
      match message with
      | .ccxtBalance _ => .ok () stores
      | .ccxtEmpty => .error .todo stores
      | .ccxtTrade update =>
          .ok () ((stores.set (exchangeName ++ "_" ++ update.symbol) update.price).addTrade now
            update.price)
      | .ccxtOrderBook update => (handleOrderBook update exchangeName).run stores
      | .ccxtPosition _ => .ok () stores
      | .ccxtOrder => .error .todo stores := by
  obtain ⟨state, hstate⟩ := Option.isSome_iff_exists.1 hs.1
  obtain ⟨trades, htrades⟩ := Option.isSome_iff_exists.1 hs.2
  cases message <;> simp [handleMessage, expectState, expectTrades, hstate, htrades]
  rfl

/-- The keys the handler stores the values of a book at. -/
def bookKeys (exchangeName symbol : String) : List String :=
  ["_bid_price", "_bid_size", "_ask_price", "_ask_size", "_mid_price"].map fun suffix =>
    exchangeName ++ "_" ++ symbol ++ suffix

/-- The stores after the values of a book were stored. -/
def Stores.setBook (stores : Stores D) (exchangeName symbol : String) (quotes : Quotes D) :
    Stores D :=
  ((((stores.set (exchangeName ++ "_" ++ symbol ++ "_bid_price") quotes.bidPrice).set
    (exchangeName ++ "_" ++ symbol ++ "_bid_size") quotes.bidSize).set
    (exchangeName ++ "_" ++ symbol ++ "_ask_price") quotes.askPrice).set
    (exchangeName ++ "_" ++ symbol ++ "_ask_size") quotes.askSize).set
    (exchangeName ++ "_" ++ symbol ++ "_mid_price") quotes.midPrice

/-- The keys of a symbol for different endings differ. -/
theorem nodup_keys {suffixes : List String} (h : suffixes.Nodup) (exchangeName symbol : String) :
    (suffixes.map fun suffix => exchangeName ++ "_" ++ symbol ++ suffix).Nodup :=
  h.map fun _ _ heq => (String.append_right_inj _).1 heq

/-- What is stored for a book, in the order it is stored. -/
def bookWrites (exchangeName symbol : String) (quotes : Quotes D) : List (String × D) :=
  [(exchangeName ++ "_" ++ symbol ++ "_bid_price", quotes.bidPrice),
    (exchangeName ++ "_" ++ symbol ++ "_bid_size", quotes.bidSize),
    (exchangeName ++ "_" ++ symbol ++ "_ask_price", quotes.askPrice),
    (exchangeName ++ "_" ++ symbol ++ "_ask_size", quotes.askSize),
    (exchangeName ++ "_" ++ symbol ++ "_mid_price", quotes.midPrice)]

omit [DecimalOps D] in
theorem nodup_bookWrites (exchangeName symbol : String) (quotes : Quotes D) :
    ((bookWrites exchangeName symbol quotes).map Prod.fst).Nodup := by
  have hsuffixes :
      (["_bid_price", "_bid_size", "_ask_price", "_ask_size", "_mid_price"] : List String).Nodup :=
    by decide
  exact nodup_keys hsuffixes exchangeName symbol

omit [DecimalOps D] in
theorem Stores.setBook_eq (stores : Stores D) (exchangeName symbol : String) (quotes : Quotes D) :
    stores.setBook exchangeName symbol quotes =
      stores.setAll (bookWrites exchangeName symbol quotes) := rfl

omit [DecimalOps D] in
theorem Stores.lookup_setBook (stores : Stores D) {exchangeName symbol key : String}
    (hkey : key ∉ bookKeys exchangeName symbol) (quotes : Quotes D) :
    (stores.setBook exchangeName symbol quotes).lookup key = stores.lookup key := by
  rw [setBook_eq]
  exact lookup_setAll_of_not_mem stores hkey

omit [DecimalOps D] in
theorem Stores.Initialized.setBook {stores : Stores D} (h : stores.Initialized)
    (exchangeName symbol : String) (quotes : Quotes D) :
    (stores.setBook exchangeName symbol quotes).Initialized :=
  ((((h.set _ _).set _ _).set _ _).set _ _).set _ _

/-- What the keys of the parameters of a symbol end in. -/
def parameterSuffixes : List String := ["_q", "_γ", "_σ", "_κ"]

/-- The keys of the parameters of a symbol. -/
def parameterKeys (exchangeName symbol : String) : List String :=
  parameterSuffixes.map fun suffix => exchangeName ++ "_" ++ symbol ++ suffix

open DecimalOps in
/-- The midpoint of two prices. -/
def midPoint (bidPrice askPrice : D) : Option D := do
  let sum ← add bidPrice askPrice
  div sum (new 2 0)

open DecimalOps in
/-- What is computed from a midpoint and the parameters: the reservation price, the spread, and the
quotes on both sides. -/
def asmmQuotes (midPrice q γ σ κ : D) : Option (D × D × D × D) := do
  let reservationPrice ← reservationPrice midPrice q γ σ
  let optimalSpread ← optimalSpread γ κ
  let halfBid ← div optimalSpread (new 2 0)
  let asmmBidPrice ← sub reservationPrice halfBid
  let halfAsk ← div optimalSpread (new 2 0)
  let asmmAskPrice ← add reservationPrice halfAsk
  some (reservationPrice, optimalSpread, asmmBidPrice, asmmAskPrice)

/-- The quotes are those of the book: its best levels, their midpoint, and what is computed from it
and the parameters of its symbol. -/
structure IsQuotes (stores : Stores D) (update : CcxtOrderBook D) (exchangeName : String)
    (quotes : Quotes D) : Prop where
  bid : ∃ bid, update.bids.head? = some bid ∧ quotes.bidPrice = bid.price ∧
    quotes.bidSize = bid.amount
  ask : ∃ ask, update.asks.head? = some ask ∧ quotes.askPrice = ask.price ∧
    quotes.askSize = ask.amount
  mid : midPoint quotes.bidPrice quotes.askPrice = some quotes.midPrice
  asmm : ∃ q γ σ κ, stores.lookup (exchangeName ++ "_" ++ update.symbol ++ "_q") = some q ∧
    stores.lookup (exchangeName ++ "_" ++ update.symbol ++ "_γ") = some γ ∧
    stores.lookup (exchangeName ++ "_" ++ update.symbol ++ "_σ") = some σ ∧
    stores.lookup (exchangeName ++ "_" ++ update.symbol ++ "_κ") = some κ ∧
    asmmQuotes quotes.midPrice q γ σ κ = some (quotes.reservationPrice, quotes.optimalSpread,
      quotes.asmmBidPrice, quotes.asmmAskPrice)

/-- Some operation on decimals faults: on the way to the midpoint, or from it to the quotes. -/
def ArithmeticFaults (stores : Stores D) (update : CcxtOrderBook D) (exchangeName : String) :
    Prop :=
  ∃ bid ask, update.bids.head? = some bid ∧ update.asks.head? = some ask ∧
    (midPoint bid.price ask.price = none ∨
      ∃ midPrice q γ σ κ, midPoint bid.price ask.price = some midPrice ∧
        stores.lookup (exchangeName ++ "_" ++ update.symbol ++ "_q") = some q ∧
        stores.lookup (exchangeName ++ "_" ++ update.symbol ++ "_γ") = some γ ∧
        stores.lookup (exchangeName ++ "_" ++ update.symbol ++ "_σ") = some σ ∧
        stores.lookup (exchangeName ++ "_" ++ update.symbol ++ "_κ") = some κ ∧
        asmmQuotes midPrice q γ σ κ = none)

/-- Why handling a book panics: a side is empty, a parameter is not stored, or an operation on
decimals faults. -/
def Faults (stores : Stores D) (update : CcxtOrderBook D) (exchangeName : String) : Panic → Prop
  | .emptySide => update.bids = [] ∨ update.asks = []
  | .missingParameter =>
      ∃ key ∈ parameterKeys exchangeName update.symbol, stores.lookup key = none
  | .arithmetic => ArithmeticFaults stores update exchangeName
  | _ => False

/-- Nothing is there to panic for. -/
theorem not_faults {stores : Stores D} {update : CcxtOrderBook D} {exchangeName : String}
    (hbids : update.bids ≠ []) (hasks : update.asks ≠ [])
    (hparams : ∀ key ∈ parameterKeys exchangeName update.symbol, (stores.lookup key).isSome)
    (harith : ¬ ArithmeticFaults stores update exchangeName) (e : Panic) :
    ¬ Faults stores update exchangeName e := by
  intro he
  cases e with
  | emptySide => exact he.elim hbids hasks
  | missingParameter =>
      obtain ⟨key, hkey, hnone⟩ := he
      have hsome := hparams key hkey
      rw [hnone] at hsome
      cases hsome
  | arithmetic => exact harith he
  | _ => exact he

omit [DecimalOps D] in
theorem readsAt_getState {P : Panic → Prop} (stores : Stores D) (key : String) :
    ReadsAt stores P (fun value => value = stores.lookup key)
      (getState key : Handler D (Option D)) :=
  (readsAt_get (Q := fun stores' => stores' = stores) rfl).bind fun _ h =>
    readsAt_pure (congrArg (Stores.lookup · key) h)

/-- **Reading and computing the values of a book** stores nothing; it gives the quotes of the book,
or panics for a reason that is there. -/
theorem orderBookQuotes_spec (update : CcxtOrderBook D) (exchangeName : String)
    (stores : Stores D) :
    ReadsAt stores (Faults stores update exchangeName) (IsQuotes stores update exchangeName)
      (orderBookQuotes update exchangeName) := by
  have hbid : update.bids.head? = none → Faults stores update exchangeName .emptySide := fun h =>
    Or.inl (List.head?_eq_none_iff.1 h)
  have hask : update.asks.head? = none → Faults stores update exchangeName .emptySide := fun h =>
    Or.inr (List.head?_eq_none_iff.1 h)
  have hmissing : ∀ suffix ∈ parameterSuffixes,
      stores.lookup (exchangeName ++ "_" ++ update.symbol ++ suffix) = none →
        Faults stores update exchangeName .missingParameter :=
    fun suffix hsuffix h => ⟨_, List.mem_map_of_mem hsuffix, h⟩
  refine (readsAt_unwrap hbid).bind fun bid hb => (readsAt_unwrap hask).bind fun ask ha => ?_
  refine (readsAt_unwrap hbid).bind fun bid' hb' => (readsAt_unwrap hask).bind fun ask' ha' => ?_
  obtain rfl := Option.some.inj (hb.symm.trans hb')
  obtain rfl := Option.some.inj (ha.symm.trans ha')
  -- the midpoint
  refine (readsAt_unwrap fun h => ⟨bid, ask, hb, ha, Or.inl (by simp [midPoint, h])⟩).bind
    fun sum hsum => ?_
  refine (readsAt_unwrap fun h => ⟨bid, ask, hb, ha, Or.inl (by simp [midPoint, hsum, h])⟩).bind
    fun midPrice hdiv => ?_
  have hmid : midPoint bid.price ask.price = some midPrice := by simp [midPoint, hsum, hdiv]
  -- the parameters
  refine (readsAt_getState stores _).bind ?_
  rintro _ rfl
  refine (readsAt_unwrap (hmissing "_q" (by decide))).bind fun q hq => ?_
  refine (readsAt_getState stores _).bind ?_
  rintro _ rfl
  refine (readsAt_unwrap (hmissing "_γ" (by decide))).bind fun γ hγ => ?_
  refine (readsAt_getState stores _).bind ?_
  rintro _ rfl
  refine (readsAt_unwrap (hmissing "_σ" (by decide))).bind fun σ hσ => ?_
  refine (readsAt_getState stores _).bind ?_
  rintro _ rfl
  refine (readsAt_unwrap (hmissing "_κ" (by decide))).bind fun κ hκ => ?_
  -- the quotes
  have hfault : asmmQuotes midPrice q γ σ κ = none →
      Faults stores update exchangeName .arithmetic := fun h =>
    ⟨bid, ask, hb, ha, Or.inr ⟨midPrice, q, γ, σ, κ, hmid, hq, hγ, hσ, hκ, h⟩⟩
  refine (readsAt_unwrap fun h => hfault (by simp [asmmQuotes, h])).bind fun reservation hr => ?_
  refine (readsAt_unwrap fun h => hfault (by simp [asmmQuotes, hr, h])).bind fun spread hs => ?_
  refine (readsAt_unwrap fun h => hfault (by simp [asmmQuotes, hr, hs, h])).bind
    fun half hhalf => ?_
  refine (readsAt_unwrap fun h => hfault (by simp [asmmQuotes, hr, hs, hhalf, h])).bind
    fun bidQuote hbq => ?_
  refine (readsAt_unwrap fun h => hfault (by simp [asmmQuotes, hr, hs, h])).bind
    fun half' hhalf' => ?_
  obtain rfl := Option.some.inj (hhalf.symm.trans hhalf')
  refine (readsAt_unwrap fun h => hfault (by simp [asmmQuotes, hr, hs, hhalf, hbq, h])).bind
    fun askQuote haq => readsAt_pure ?_
  exact ⟨⟨bid, hb, rfl, rfl⟩, ⟨ask, ha, rfl, rfl⟩, hmid, q, γ, σ, κ, hq, hγ, hσ, hκ,
    by simp [asmmQuotes, hr, hs, hhalf, hbq, haq]⟩

/-- Whatever the stores, the reading changes nothing. -/
theorem readsOnly_orderBookQuotes {P : Panic → Prop} {update : CcxtOrderBook D}
    (hside : update.bids = [] ∨ update.asks = [] → P .emptySide) (hmissing : P .missingParameter)
    (harith : P .arithmetic) (exchangeName : String) :
    ReadsOnly P (orderBookQuotes update exchangeName) := by
  intro stores
  rcases orderBookQuotes_spec update exchangeName stores with ⟨quotes, -, hok⟩ | ⟨e, he, herr⟩
  · exact Or.inl ⟨quotes, hok⟩
  · refine Or.inr ⟨e, ?_, herr⟩
    cases e with
    | emptySide => exact hside he
    | missingParameter => exact hmissing
    | arithmetic => exact harith
    | _ => exact absurd he id

/-- **An order book is handled to the end, or leaves the stores alone.** -/
theorem handleOrderBook_cases (update : CcxtOrderBook D) (exchangeName : String)
    (stores : Stores D) :
    (∃ quotes, (orderBookQuotes update exchangeName).run stores = .ok quotes stores ∧
        (handleOrderBook update exchangeName).run stores =
          .ok () (stores.setBook exchangeName update.symbol quotes)) ∨
      ∃ e, (handleOrderBook update exchangeName).run stores = .error e stores ∧
        (e = .emptySide → update.bids = [] ∨ update.asks = []) := by
  have hreads : ReadsOnly (fun e => e = .emptySide → update.bids = [] ∨ update.asks = [])
      (orderBookQuotes update exchangeName) :=
    readsOnly_orderBookQuotes (fun h _ => h) (fun h => by cases h) (fun h => by cases h)
      exchangeName
  rcases (hreads.readsAt stores).run_bind _ with ⟨quotes, -, hok, hrun⟩ | ⟨e, he, hrun⟩
  · exact Or.inl ⟨quotes, hok, hrun⟩
  · exact Or.inr ⟨e, hrun, he⟩

/-- A book whose quotes are computed is handled to the end. -/
theorem run_handleMessage_of_quotes {stores : Stores D} (hs : stores.Initialized)
    {update : CcxtOrderBook D} {exchangeName : String} {quotes : Quotes D}
    (hok : (orderBookQuotes update exchangeName).run stores = .ok quotes stores) (now : ℕ) :
    (handleMessage (.ccxtOrderBook update : CcxtMessage D F) exchangeName now).run stores =
      .ok () (stores.setBook exchangeName update.symbol quotes) := by
  rw [run_handleMessage hs]
  change (handleOrderBook update exchangeName).run stores = _
  rw [handleOrderBook, EStateM.run_bind, hok]
  rfl

/-- **What a message can leave**: the stores with its trade, the stores with the values of its book,
or the stores as they were. -/
theorem after_handleMessage_cases {stores : Stores D} (hs : stores.Initialized)
    (message : CcxtMessage D F) (exchangeName : String) (now : ℕ) :
    (∃ update, message = .ccxtTrade update ∧
        after (handleMessage message exchangeName now) stores =
          (stores.set (exchangeName ++ "_" ++ update.symbol) update.price).addTrade now
            update.price) ∨
      (∃ update quotes, message = .ccxtOrderBook update ∧
        after (handleMessage message exchangeName now) stores =
          stores.setBook exchangeName update.symbol quotes) ∨
      ((∀ update, message ≠ .ccxtTrade update) ∧
        after (handleMessage message exchangeName now) stores = stores) := by
  have hrun := run_handleMessage hs message exchangeName now
  cases message with
  | ccxtTrade update => exact Or.inl ⟨update, rfl, after_of_ok hrun⟩
  | ccxtOrderBook update =>
      rcases handleOrderBook_cases update exchangeName stores with ⟨quotes, -, hok⟩ | ⟨e, herr, -⟩
      · exact Or.inr (Or.inl ⟨update, quotes, rfl, after_of_ok (hrun.trans hok)⟩)
      · exact Or.inr (Or.inr ⟨by simp, after_of_error (hrun.trans herr)⟩)
  | ccxtEmpty => exact Or.inr (Or.inr ⟨by simp, after_of_error hrun⟩)
  | ccxtOrder => exact Or.inr (Or.inr ⟨by simp, after_of_error hrun⟩)
  | ccxtBalance update => exact Or.inr (Or.inr ⟨by simp, after_of_ok hrun⟩)
  | ccxtPosition update => exact Or.inr (Or.inr ⟨by simp, after_of_ok hrun⟩)

/-- Whatever happens, the stores stay set. -/
theorem Stores.Initialized.after_handleMessage {stores : Stores D} (hs : stores.Initialized)
    (message : CcxtMessage D F) (exchangeName : String) (now : ℕ) :
    (after (handleMessage message exchangeName now) stores).Initialized := by
  rcases after_handleMessage_cases hs message exchangeName now with
    ⟨update, rfl, hafter⟩ | ⟨update, quotes, rfl, hafter⟩ | ⟨-, hafter⟩
  · rw [hafter]
    exact (hs.set _ _).addTrade _ _
  · rw [hafter]
    exact hs.setBook _ _ _
  · rwa [hafter]

/-- A side without levels is met before anything else. -/
theorem orderBookQuotes_of_emptySide {update : CcxtOrderBook D}
    (h : update.bids = [] ∨ update.asks = []) (exchangeName : String) (stores : Stores D) :
    (orderBookQuotes update exchangeName).run stores = .error .emptySide stores := by
  rcases hbids : update.bids with _ | ⟨bid, bids⟩
  · simp [orderBookQuotes, hbids]
  · obtain hasks : update.asks = [] := by simpa [hbids] using h
    simp [orderBookQuotes, hbids, hasks]

/-- A book panics on an empty side only if it has one. -/
theorem emptySide_of_reason {stores : Stores D} {update : CcxtOrderBook D} {exchangeName : String}
    {now : ℕ}
    (h : reason (handleMessage (.ccxtOrderBook update : CcxtMessage D F) exchangeName now) stores =
      some .emptySide) : update.bids = [] ∨ update.asks = [] := by
  rcases hstate : stores.state with _ | state
  · simp [reason, handleMessage, expectState, hstate] at h
  rcases htrades : stores.trades with _ | trades
  · simp [reason, handleMessage, expectState, expectTrades, hstate, htrades] at h
  have hs : stores.Initialized := ⟨by simp [hstate], by simp [htrades]⟩
  have hrun := run_handleMessage hs (.ccxtOrderBook update : CcxtMessage D F) exchangeName now
  rcases handleOrderBook_cases update exchangeName stores with ⟨quotes, -, hok⟩ | ⟨e, herr, hside⟩
  · rw [reason_of_ok (hrun.trans hok)] at h
    cases h
  · rw [reason_of_error (hrun.trans herr), Option.some.injEq] at h
    exact hside h

/-- A book with an empty side panics on it. -/
theorem reason_of_emptySide {stores : Stores D} (hs : stores.Initialized)
    {update : CcxtOrderBook D} (h : update.bids = [] ∨ update.asks = []) (exchangeName : String)
    (now : ℕ) :
    reason (handleMessage (.ccxtOrderBook update : CcxtMessage D F) exchangeName now) stores =
      some .emptySide := by
  have hrun := run_handleMessage hs (.ccxtOrderBook update : CcxtMessage D F) exchangeName now
  have hbook : (handleOrderBook update exchangeName).run stores = .error .emptySide stores := by
    rw [handleOrderBook, EStateM.run_bind, orderBookQuotes_of_emptySide h]
  exact reason_of_error (hrun.trans hbook)

end Handlers

end MarketMaker
