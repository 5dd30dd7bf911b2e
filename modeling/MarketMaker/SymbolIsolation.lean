/-
**The symbols do not interfere.**

All symbols share one map, and a call of the handler may panic, which ends that call only; but a
message reads and writes keys of its own symbol only.  So what a run of calls leaves at the keys of
a symbol, and which of the symbol's messages panic and why, depends on the messages for that symbol
alone, as long as no message of another symbol writes to one of its keys.  Those of symbols without
underscores never do.

A trade may be named like the key of a parameter; this is the only way a parameter changes.

* `symbolKeys`, `CcxtMessage.written`, `KeepsOff` — the keys of a symbol, and messages that write
  none of them;
* `keepsOff_of_plain` — symbols without underscores keep off each other's keys;
* `AgreeOn.own`, `AgreeOn.other` — **one message**, of the symbol or of another;
* `symbols_do_not_interfere` — **what a run does for a symbol depends on its messages alone**;
* `parameters_hold_last_trade` — **a parameter holds the price of the last trade named like its
  key**, or what it held before.
-/

import MarketMaker.StateProjection
import MarketMaker.Transition

set_option relaxedAutoImplicit false
set_option autoImplicit false

namespace MarketMaker

open Panicking

variable {D F : Type}

/-! ### Keys -/

/-- The keys of a symbol: of its last trade, of its last book and of its parameters. -/
def symbolKeys (exchangeName symbol : String) : List String :=
  (exchangeName ++ "_" ++ symbol) ::
    (bookKeys exchangeName symbol ++ parameterKeys exchangeName symbol)

/-- The symbol a message is stored for. -/
def CcxtMessage.symbol? : CcxtMessage D F → Option String
  | .ccxtTrade update => some update.symbol
  | .ccxtOrderBook update => some update.symbol
  | _ => none

/-- The keys a message may write to. -/
def CcxtMessage.written (exchangeName : String) : CcxtMessage D F → List String
  | .ccxtTrade update => [exchangeName ++ "_" ++ update.symbol]
  | .ccxtOrderBook update => bookKeys exchangeName update.symbol
  | _ => []

/-- The message writes to none of the keys of the symbol. -/
def KeepsOff (exchangeName symbol : String) (message : CcxtMessage D F) : Prop :=
  ∀ key ∈ message.written exchangeName, key ∉ symbolKeys exchangeName symbol

/-- The endings of the keys start with an underscore, or are empty. -/
theorem takeWhile_suffix {suffix : String}
    (h : suffix ∈ "" :: (bookSuffixes ++ parameterSuffixes)) :
    suffix.toList.takeWhile (· ≠ '_') = [] := by
  have hall : ∀ s ∈ "" :: (bookSuffixes ++ parameterSuffixes),
      s.toList.takeWhile (· ≠ '_') = [] := by decide
  exact hall suffix h

/-- A symbol without underscores can be read off its keys. -/
theorem symbol_of_key_eq {exchangeName symbol symbol' suffix suffix' : String}
    (hplain : '_' ∉ symbol.toList) (hplain' : '_' ∉ symbol'.toList)
    (hs : suffix ∈ "" :: (bookSuffixes ++ parameterSuffixes))
    (hs' : suffix' ∈ "" :: (bookSuffixes ++ parameterSuffixes))
    (h : exchangeName ++ "_" ++ symbol ++ suffix = exchangeName ++ "_" ++ symbol' ++ suffix') :
    symbol = symbol' := by
  have hread : ∀ {s suf : String}, '_' ∉ s.toList →
      suf ∈ "" :: (bookSuffixes ++ parameterSuffixes) →
      (s ++ suf).toList.takeWhile (· ≠ '_') = s.toList := by
    intro s suf hs hsuf
    have hall : ∀ c ∈ s.toList, decide (c ≠ '_') = true := fun c hc =>
      decide_eq_true fun heq => hs (heq ▸ hc)
    rw [String.toList_append, List.takeWhile_append_of_pos hall, takeWhile_suffix hsuf,
      List.append_nil]
  have happ : ∀ s suf : String,
      exchangeName ++ "_" ++ s ++ suf = exchangeName ++ "_" ++ (s ++ suf) :=
    fun s suf => String.append_assoc
  rw [happ, happ, String.append_right_inj] at h
  rw [← String.toList_inj, ← hread hplain hs, h, hread hplain' hs']

theorem exists_suffix_of_mem_symbolKeys {exchangeName symbol key : String}
    (h : key ∈ symbolKeys exchangeName symbol) :
    ∃ suffix ∈ "" :: (bookSuffixes ++ parameterSuffixes),
      exchangeName ++ "_" ++ symbol ++ suffix = key := by
  rcases List.mem_cons.1 h with rfl | h
  · exact ⟨"", List.mem_cons_self, String.append_empty⟩
  · rcases List.mem_append.1 h with h | h
    · obtain ⟨suffix, hsuffix, rfl⟩ := mem_bookKeys.1 h
      exact ⟨suffix, List.mem_cons_of_mem _ (List.mem_append_left _ hsuffix), rfl⟩
    · obtain ⟨suffix, hsuffix, rfl⟩ := List.mem_map.1 h
      exact ⟨suffix, List.mem_cons_of_mem _ (List.mem_append_right _ hsuffix), rfl⟩

/-- What a message writes are keys of its symbol. -/
theorem exists_symbol_of_mem_written {exchangeName key : String} {message : CcxtMessage D F}
    (h : key ∈ message.written exchangeName) :
    ∃ symbol, message.symbol? = some symbol ∧ key ∈ symbolKeys exchangeName symbol := by
  cases message with
  | ccxtTrade update =>
      rw [List.mem_singleton.1 h]
      exact ⟨update.symbol, rfl, List.mem_cons_self⟩
  | ccxtOrderBook update =>
      exact ⟨update.symbol, rfl, List.mem_cons_of_mem _ (List.mem_append_left _ h)⟩
  | _ => cases h

/-- **Symbols without underscores keep off each other's keys.** -/
theorem keepsOff_of_plain (exchangeName : String) {symbol : String} (hplain : '_' ∉ symbol.toList)
    {message : CcxtMessage D F}
    (hmessage : ∀ symbol', message.symbol? = some symbol' → '_' ∉ symbol'.toList)
    (hne : message.symbol? ≠ some symbol) : KeepsOff exchangeName symbol message := by
  intro key hwritten hkey
  obtain ⟨symbol', hsymbol, hkey'⟩ := exists_symbol_of_mem_written hwritten
  obtain ⟨suffix, hs, heq⟩ := exists_suffix_of_mem_symbolKeys hkey
  obtain ⟨suffix', hs', heq'⟩ := exists_suffix_of_mem_symbolKeys hkey'
  obtain rfl := symbol_of_key_eq hplain (hmessage symbol' hsymbol) hs hs' (heq.trans heq'.symm)
  exact hne hsymbol

/-! ### One message -/

section Messages

variable [DecimalOps D]

omit [DecimalOps D] in
theorem readsAlike_getState {stores stores' : Stores D} {key : String}
    (h : stores.lookup key = stores'.lookup key) :
    ReadsAlike stores stores' (getState key : Handler D (Option D)) :=
  Or.inl ⟨stores.lookup key, rfl, by rw [h]; rfl⟩

/-- The values of a book depend on the parameters of its symbol alone. -/
theorem readsAlike_orderBookQuotes {stores stores' : Stores D} {update : CcxtOrderBook D}
    {exchangeName : String}
    (h : ∀ key ∈ parameterKeys exchangeName update.symbol, stores.lookup key = stores'.lookup key) :
    ReadsAlike stores stores' (orderBookQuotes update exchangeName) := by
  have hparameter : ∀ suffix ∈ parameterSuffixes,
      ReadsAlike stores stores' (getState (exchangeName ++ "_" ++ update.symbol ++ suffix)) :=
    fun suffix hsuffix => readsAlike_getState (h _ (List.mem_map_of_mem hsuffix))
  refine (readsAlike_unwrap _ _).bind fun bid => (readsAlike_unwrap _ _).bind fun ask => ?_
  refine (readsAlike_unwrap _ _).bind fun bid' => (readsAlike_unwrap _ _).bind fun ask' => ?_
  refine (readsAlike_unwrap _ _).bind fun sum => (readsAlike_unwrap _ _).bind fun midPrice => ?_
  refine (hparameter "_q" (by decide)).bind fun q? => (readsAlike_unwrap _ _).bind fun q => ?_
  refine (hparameter "_γ" (by decide)).bind fun γ? => (readsAlike_unwrap _ _).bind fun γ => ?_
  refine (hparameter "_σ" (by decide)).bind fun σ? => (readsAlike_unwrap _ _).bind fun σ => ?_
  refine (hparameter "_κ" (by decide)).bind fun κ? => (readsAlike_unwrap _ _).bind fun κ => ?_
  refine (readsAlike_unwrap _ _).bind fun reservation => ?_
  refine (readsAlike_unwrap _ _).bind fun spread => ?_
  refine (readsAlike_unwrap _ _).bind fun half => (readsAlike_unwrap _ _).bind fun bidQuote => ?_
  refine (readsAlike_unwrap _ _).bind fun half' => (readsAlike_unwrap _ _).bind fun askQuote => ?_
  exact readsAlike_pure _

omit [DecimalOps D] in
/-- Values stored in both stores are found in both. -/
theorem Stores.lookup_setAll_congr {stores stores' : Stores D} (hs : stores.state.isSome)
    (hs' : stores'.state.isSome) {key : String} (h : stores.lookup key = stores'.lookup key)
    (log : List (String × D)) :
    (stores.setAll log).lookup key = (stores'.setAll log).lookup key := by
  induction log generalizing stores stores' with
  | nil => exact h
  | cons w log ih =>
      refine ih (isSome_state_set hs w.1 w.2) (isSome_state_set hs' w.1 w.2) ?_
      by_cases heq : key = w.1
      · rw [heq, lookup_set_self hs, lookup_set_self hs']
      · rw [lookup_set_of_ne stores heq, lookup_set_of_ne stores' heq, h]

/-- A message writes to its keys only. -/
theorem lookup_after_of_not_written {stores : Stores D} (hs : stores.Initialized)
    {message : CcxtMessage D F} {exchangeName key : String}
    (hkey : key ∉ message.written exchangeName) (now : ℕ) :
    (after (handleMessage message exchangeName now) stores).lookup key = stores.lookup key := by
  rcases after_handleMessage_cases hs message exchangeName now with
    ⟨update, rfl, hafter⟩ | ⟨update, quotes, rfl, hafter⟩ | ⟨-, hafter⟩
  · rw [hafter, Stores.lookup_addTrade]
    exact Stores.lookup_set_of_ne stores (fun heq => hkey (List.mem_singleton.2 heq)) _
  · rw [hafter, Stores.lookup_setBook stores hkey]
  · rw [hafter]

/-- The stores have been set, and agree on the keys of the symbol. -/
structure AgreeOn (exchangeName symbol : String) (stores stores' : Stores D) : Prop where
  left : stores.Initialized
  right : stores'.Initialized
  lookup : ∀ key ∈ symbolKeys exchangeName symbol, stores.lookup key = stores'.lookup key

variable {exchangeName symbol : String} {stores stores' : Stores D}

/-- **A message that keeps off** the keys of the symbol changes nothing there. -/
theorem AgreeOn.other (h : AgreeOn exchangeName symbol stores stores') {message : CcxtMessage D F}
    (hoff : KeepsOff exchangeName symbol message) (now : ℕ) :
    AgreeOn exchangeName symbol (after (handleMessage message exchangeName now) stores)
      stores' := by
  refine ⟨h.left.after_handleMessage message exchangeName now, h.right, fun key hkey => ?_⟩
  rw [lookup_after_of_not_written h.left (fun hwritten => hoff key hwritten hkey)]
  exact h.lookup key hkey

/-- **A message of the symbol** does the same in both, at whatever readings of the clock. -/
theorem AgreeOn.own (h : AgreeOn exchangeName symbol stores stores') {message : CcxtMessage D F}
    (hsymbol : message.symbol? = some symbol) (now now' : ℕ) :
    AgreeOn exchangeName symbol (after (handleMessage message exchangeName now) stores)
        (after (handleMessage message exchangeName now') stores') ∧
      reason (handleMessage message exchangeName now) stores =
        reason (handleMessage message exchangeName now') stores' := by
  have hrun := run_handleMessage h.left message exchangeName now
  have hrun' := run_handleMessage h.right message exchangeName now'
  have hinit := h.left.after_handleMessage message exchangeName now
  have hinit' := h.right.after_handleMessage message exchangeName now'
  cases message with
  | ccxtTrade update =>
      refine ⟨⟨hinit, hinit', fun key hkey => ?_⟩, by rw [reason_of_ok hrun, reason_of_ok hrun']⟩
      rw [after_of_ok hrun, after_of_ok hrun', Stores.lookup_addTrade, Stores.lookup_addTrade]
      exact Stores.lookup_setAll_congr h.left.1 h.right.1 (h.lookup key hkey)
        [(exchangeName ++ "_" ++ update.symbol, update.price)]
  | ccxtOrderBook update =>
      obtain rfl : update.symbol = symbol := Option.some.inj hsymbol
      have hquotes : ReadsAlike stores stores' (orderBookQuotes update exchangeName) :=
        readsAlike_orderBookQuotes fun key hkey =>
          h.lookup key (List.mem_cons_of_mem _ (List.mem_append_right _ hkey))
      rcases hquotes with ⟨quotes, hok, hok'⟩ | ⟨e, herr, herr'⟩
      · have hset := run_handleMessage_of_quotes (F := F) h.left hok now
        have hset' := run_handleMessage_of_quotes (F := F) h.right hok' now'
        refine ⟨⟨hinit, hinit', fun key hkey => ?_⟩, by rw [reason_of_ok hset, reason_of_ok hset']⟩
        rw [after_of_ok hset, after_of_ok hset', Stores.setBook_eq, Stores.setBook_eq]
        exact Stores.lookup_setAll_congr h.left.1 h.right.1 (h.lookup key hkey) _
      · have hfault : (handleOrderBook update exchangeName).run stores = .error e stores := by
          rw [handleOrderBook, EStateM.run_bind, herr]
        have hfault' : (handleOrderBook update exchangeName).run stores' = .error e stores' := by
          rw [handleOrderBook, EStateM.run_bind, herr']
        refine ⟨⟨hinit, hinit', fun key hkey => ?_⟩, ?_⟩
        · rw [after_of_error (hrun.trans hfault), after_of_error (hrun'.trans hfault')]
          exact h.lookup key hkey
        · rw [reason_of_error (hrun.trans hfault), reason_of_error (hrun'.trans hfault')]
  | _ => cases hsymbol

/-! ### A run -/

/-- The message, if it is for the symbol. -/
def messageFor (symbol : String) (e : CcxtMessage D F × ℕ) : Option (CcxtMessage D F) :=
  if e.1.symbol? = some symbol then some e.1 else none

/-- Handling a message, with how it went: why it panicked, if it did. -/
def handlerStep (exchangeName : String) (stores : Stores D) (m : CcxtMessage D F) (now : ℕ) :
    Stores D × Option (Option Panic) :=
  (after (handleMessage m exchangeName now) stores,
    some (reason (handleMessage m exchangeName now) stores))

/-- The same, where only the messages of the symbol are looked at. -/
def symbolStep (exchangeName symbol : String) (stores : Stores D) (e : CcxtMessage D F × ℕ) :
    Stores D × Option (Option Panic) :=
  ((handlerStep exchangeName stores e.1 e.2).1,
    (messageFor symbol e).bind fun m => (handlerStep exchangeName stores m e.2).2)

/-- How the messages of a symbol went in a run. -/
def outcomes (exchangeName symbol : String) (msgs : List (CcxtMessage D F × ℕ))
    (stores : Stores D) : List (Option Panic) :=
  Transition.outputs (symbolStep exchangeName symbol) stores msgs

/-- A run, and the messages of the symbol handled by themselves, the clock standing still. -/
theorem agreeOn_messagesFor (h : AgreeOn exchangeName symbol stores stores')
    {msgs : List (CcxtMessage D F × ℕ)}
    (hoff : ∀ e ∈ msgs, e.1.symbol? ≠ some symbol → KeepsOff exchangeName symbol e.1) :
    AgreeOn exchangeName symbol (handleAll exchangeName msgs stores)
        (Transition.after (fun stores m => handlerStep exchangeName stores m 0) stores'
          (msgs.filterMap (messageFor symbol))) ∧
      outcomes exchangeName symbol msgs stores =
        Transition.outputs (fun stores m => handlerStep exchangeName stores m 0) stores'
          (msgs.filterMap (messageFor symbol)) := by
  have hafter : handleAll exchangeName msgs stores =
      Transition.after (symbolStep exchangeName symbol) stores msgs := rfl
  rw [hafter, outcomes]
  refine Transition.outputs_filterMap ?_ ?_ h
  · rintro s t ⟨m, now⟩ b hst - hb
    obtain ⟨hsymbol, hm⟩ := Option.ite_none_right_eq_some.1 hb
    obtain rfl : m = b := Option.some.inj hm
    obtain ⟨hagree, hreason⟩ := hst.own hsymbol now 0
    refine ⟨hagree, ?_⟩
    rw [symbolStep, hb, Option.bind_some, handlerStep, handlerStep, hreason]
  · rintro s t ⟨m, now⟩ hst hmem hnone
    have hsymbol : m.symbol? ≠ some symbol := fun heq => by simp [messageFor, heq] at hnone
    refine ⟨hst.other (hoff _ hmem hsymbol) now, ?_⟩
    rw [symbolStep, hnone, Option.bind_none]

/-- **What a run does for a symbol depends on its messages alone.**  Two runs with the same messages
for the symbol, from stores that agree on its keys, leave the same at its keys, and each of its
messages goes the same way in both; whatever the other messages are, whether they panic, and
whatever the clock reads, as long as no message of another symbol writes to a key of this one. -/
theorem symbols_do_not_interfere (hagree : AgreeOn exchangeName symbol stores stores')
    {msgs msgs' : List (CcxtMessage D F × ℕ)}
    (hsame : msgs.filterMap (messageFor symbol) = msgs'.filterMap (messageFor symbol))
    (hoff : ∀ e ∈ msgs ++ msgs', e.1.symbol? ≠ some symbol → KeepsOff exchangeName symbol e.1) :
    (∀ key ∈ symbolKeys exchangeName symbol, (handleAll exchangeName msgs stores).lookup key =
        (handleAll exchangeName msgs' stores').lookup key) ∧
      outcomes exchangeName symbol msgs stores = outcomes exchangeName symbol msgs' stores' := by
  obtain ⟨hstores, houtcomes⟩ := agreeOn_messagesFor hagree fun e he =>
    hoff e (List.mem_append_left _ he)
  have hsame' : AgreeOn exchangeName symbol stores' stores' :=
    ⟨hagree.right, hagree.right, fun _ _ => rfl⟩
  have hoff' : ∀ e ∈ msgs', e.1.symbol? ≠ some symbol → KeepsOff exchangeName symbol e.1 :=
    fun e he => hoff e (List.mem_append_right _ he)
  obtain ⟨hstores', houtcomes'⟩ := agreeOn_messagesFor hsame' hoff'
  rw [hsame] at hstores houtcomes
  exact ⟨fun key hkey => (hstores.lookup key hkey).trans (hstores'.lookup key hkey).symm,
    houtcomes.trans houtcomes'.symm⟩

/-! ### The parameters -/

omit [DecimalOps D] in
/-- The trades stored at the key of a parameter are those named like it. -/
theorem tradeAt_parameterKey (exchangeName symbol suffix : String) (m : CcxtMessage D F) :
    tradeAt exchangeName (exchangeName ++ "_" ++ symbol ++ suffix) m =
      (m.trade.filter fun t => t.symbol = symbol ++ suffix).map CcxtTrade.price := by
  cases m with
  | ccxtTrade update =>
      have hkey : exchangeName ++ "_" ++ update.symbol = exchangeName ++ "_" ++ symbol ++ suffix ↔
          update.symbol = symbol ++ suffix := by
        have happ : exchangeName ++ "_" ++ symbol ++ suffix =
            exchangeName ++ "_" ++ (symbol ++ suffix) := String.append_assoc
        rw [happ, String.append_right_inj]
      simp only [tradeAt, hkey, CcxtMessage.trade, Option.filter]
      split_ifs <;> simp_all
  | _ => rfl

/-- **A parameter holds the price of the last trade named like its key**, or what it held before the
run if there was none: nothing else changes a parameter, and no panic does. -/
theorem parameters_hold_last_trade (hs : stores.Initialized) (exchangeName symbol : String)
    {suffix : String} (hsuffix : suffix ∈ parameterSuffixes)
    (msgs : List (CcxtMessage D F × ℕ)) :
    (handleAll exchangeName msgs stores).lookup (exchangeName ++ "_" ++ symbol ++ suffix) =
      ((lastTrade msgs (symbol ++ suffix)).map CcxtTrade.price).or
        (stores.lookup (exchangeName ++ "_" ++ symbol ++ suffix)) := by
  have hkey : ∀ symbol', exchangeName ++ "_" ++ symbol ++ suffix ∉ bookKeys exchangeName symbol' :=
    fun symbol' => not_mem_bookKeys (List.mem_map_of_mem hsuffix)
  have hrun : (handleAll exchangeName msgs stores).Initialized ∧
      (handleAll exchangeName msgs stores).lookup (exchangeName ++ "_" ++ symbol ++ suffix) =
        ((lastTrade msgs (symbol ++ suffix)).map CcxtTrade.price).or
          (stores.lookup (exchangeName ++ "_" ++ symbol ++ suffix)) := by
    induction msgs using List.reverseRecOn with
    | nil => exact ⟨hs, rfl⟩
    | append_singleton msgs e ih =>
        obtain ⟨hinit, hlookup⟩ := ih
        obtain ⟨hinit', hlookup'⟩ := lookup_after_handleMessage hinit e.1 hkey e.2
        rw [handleAll, List.foldl_concat, ← handleAll]
        refine ⟨hinit', ?_⟩
        rw [hlookup', hlookup, tradeAt_parameterKey, lastTrade_concat, Option.map_or,
          Option.or_assoc]
  exact hrun.2

end Messages

/-- Stores that have just been set. -/
private def freshStores : Stores ℚ := ⟨some .new, some (.new 0)⟩

/-- A trade between two books of another symbol, one of which panics. -/
private def mixedMessages : List (CcxtMessage ℚ ℚ × ℕ) :=
  [(.ccxtOrderBook ⟨[⟨3000, 1⟩], [], "ETH-USD", none, none, none⟩, 0),
    (.ccxtTrade ⟨"1", 0, ⟨0⟩, "BTC-USD", none, some .buy, 100, 1⟩, 1),
    (.ccxtOrderBook ⟨[⟨3000, 1⟩], [⟨3001, 1⟩], "ETH-USD", none, none, none⟩, 2)]

/-- The trade alone, at another reading of the clock. -/
private def ownMessages : List (CcxtMessage ℚ ℚ × ℕ) :=
  [(.ccxtTrade ⟨"1", 0, ⟨0⟩, "BTC-USD", none, some .buy, 100, 1⟩, 7)]

theorem symbols_do_not_interfere_sample :
    letI := exactOps fun _ => none
    (∀ key ∈ symbolKeys "dydx" "BTC-USD", (handleAll "dydx" mixedMessages freshStores).lookup key =
        (handleAll "dydx" ownMessages freshStores).lookup key) ∧
      outcomes "dydx" "BTC-USD" mixedMessages freshStores =
        outcomes "dydx" "BTC-USD" ownMessages freshStores := by
  let : DecimalOps ℚ := exactOps fun _ => none
  have hagree : AgreeOn "dydx" "BTC-USD" freshStores freshStores :=
    ⟨⟨rfl, rfl⟩, ⟨rfl, rfl⟩, fun _ _ => rfl⟩
  refine symbols_do_not_interfere hagree rfl fun e he hne =>
    keepsOff_of_plain "dydx" (by decide) (fun symbol' hsymbol => ?_) hne
  have hplain : ∀ e ∈ mixedMessages ++ ownMessages, e.1.symbol?.all ('_' ∉ ·.toList) := by decide
  simpa [hsymbol] using hplain e he

/-- A trade named like a parameter sets it. -/
theorem parameters_hold_last_trade_sample :
    letI := exactOps fun _ => none
    (handleAll "dydx" [((.ccxtTrade ⟨"1", 0, ⟨0⟩, "BTC-USD_γ", none, some .buy, 2, 1⟩ :
      CcxtMessage ℚ ℚ), 0)] freshStores).lookup ("dydx" ++ "_" ++ "BTC-USD" ++ "_γ") = some 2 := by
  let : DecimalOps ℚ := exactOps fun _ => none
  have hs : freshStores.Initialized := ⟨rfl, rfl⟩
  exact parameters_hold_last_trade hs "dydx" "BTC-USD" (by decide)
    [(.ccxtTrade ⟨"1", 0, ⟨0⟩, "BTC-USD_γ", none, some .buy, 2, 1⟩, 0)]

end MarketMaker
