/-
**Between the exchange and the strategy nothing is lost.**

The strategy registers one symbol and watches the trades and the order books of that symbol, and the
balances and positions of the account; each of these comes from a single feed.  So what its watchers
were returned, followed by what is in the channel, is always a first part of what the handler of the
feed makes of the messages delivered; and it can always come to be all of it.

* `run_symbols` — the symbol the strategy registers;
* `strategy_gets_books`, `strategy_gets_trades` — **the markets**, for that symbol;
* `account_feed_delivers` — what the watchers of a channel of the account get;
* `strategy_gets_balances`, `strategy_gets_positions` — **the account**: of a message at most one
  balance, and one position for each it reports.
-/

import MarketMaker.LifeCycle
import MarketMaker.MarketData

set_option relaxedAutoImplicit false
set_option autoImplicit false

namespace MarketMaker

variable {D F : Type} [DecimalText D] [DecimalOps D]

/-- What the watchers were returned, in order. -/
def WatchState.values {M : Type} (s : WatchState M) : List M := s.returned.map fun e => e.2.1

/-- What is in the channel, in order. -/
def WatchState.queued {M : Type} (s : WatchState M) : List M := s.queue.map Prod.fst

omit [DecimalText D] in
/-- The strategy registers one symbol. -/
theorem run_symbols {wallet : String → Option String} {cfg : AppConfig D}
    {self : AvellanedaStoikovMarketMaking} {stores : Stores D}
    (hnew : (AvellanedaStoikovMarketMaking.new wallet cfg).run .uninit = .ok self stores) :
    self.run.exchange.symbols = ["BTC-USD"] := by
  have hnone := (new_stores hnew).1
  simp [AvellanedaStoikovMarketMaking.run, Dydx.addSymbol, hnone]

omit [DecimalText D] in
/-- Its calls are for this symbol. -/
theorem symbol_of_call {wallet : String → Option String} {cfg : AppConfig D}
    {self : AvellanedaStoikovMarketMaking} {stores : Stores D}
    (hnew : (AvellanedaStoikovMarketMaking.new wallet cfg).run .uninit = .ok self stores)
    {N : Type} {acts : List (ConnectorAction N)}
    (hcalls : ∀ symbol, .call symbol ∈ acts → self.run.exchange.symbols.head? = some symbol)
    (symbol : String) (hmem : .call symbol ∈ acts) : symbol = "BTC-USD" := by
  have hhead := hcalls symbol hmem
  rw [run_symbols hnew] at hhead
  exact (Option.some.inj hhead).symm

section Markets

variable {wallet : String → Option String} {cfg : AppConfig D}
  {self : AvellanedaStoikovMarketMaking} {stores : Stores D}

/-- **The strategy gets every order book.**  After `new` has returned and while `run` loads and
watches the markets, what its watchers of the order books were returned and what is in the channel
are together a first part of what the handler sends on the messages delivered; and once the markets
are loaded, if the messages convert, the tasks and the watchers can by themselves come to a state
where all of it was returned: one book for each message, the top of the reference book after it. -/
theorem strategy_gets_books
    (hnew : (AvellanedaStoikovMarketMaking.new wallet cfg).run .uninit = .ok self stores)
    {acts : List (ConnectorAction OrdersMessage)}
    {s : Connector OrdersMessage (CcxtOrderBook D) OrderBook (CcxtOrderBook D)}
    (hrun : Transition.exec (connectorStep (ordersFeed D)) (.start self.run.exchange.symbols) acts =
      some s)
    (hcalls : ∀ symbol, .call symbol ∈ acts → self.run.exchange.symbols.head? = some symbol) :
    s.channel.values ++ s.channel.queued <+:
        (handleOrderBookFeed "BTC-USD" ((deliveredTo 0 acts).length + 1) (deliveredTo 0 acts)).1 ∧
      (s.alive = true → s.toLoad = [] → Convertible D (deliveredTo 0 acts) →
        ∃ acts' u, (∀ a ∈ acts', a.Internal) ∧
          Transition.exec (connectorStep (ordersFeed D)) s acts' = some u ∧
          u.channel.values.length = (deliveredTo 0 acts).length ∧
          ∀ n m, (deliveredTo 0 acts)[n]? = some m → ∃ ob, u.channel.values[n]? = some ob ∧
            ob.symbol = "BTC-USD" ∧ ob.nonce = some m.messageId ∧
            ∀ side, ListsBest side (levelsSince side ((deliveredTo 0 acts).take (n + 1)))
              (ob.side side)) := by
  have hcalls' := symbol_of_call hnew hcalls
  rw [run_symbols hnew] at hrun
  have hserves : (ordersFeed D).serves "BTC-USD" := trivial
  constructor
  · have hkept := one_feed_conserves hserves hrun hcalls'
    rw [show (ordersFeed D).select = some from rfl, List.filterMap_some] at hkept
    rw [sent_handleOrderBookFeed "BTC-USD" (Nat.lt_succ_self _)]
    exact hkept
  · intro halive hload hconv
    obtain ⟨hresult, hlen⟩ := onMessages_of_convertible (D := D) hconv "BTC-USD"
    obtain ⟨acts', u, hint, hu, hvalues⟩ := one_feed_delivers hserves hrun hcalls' halive hload
      (Option.isSome_iff_exists.2 ⟨_, hresult⟩)
    rw [show (ordersFeed D).select = some from rfl, List.filterMap_some] at hvalues
    refine ⟨acts', u, hint, hu, (congrArg List.length hvalues).trans hlen, fun n m hm => ?_⟩
    obtain ⟨ob, hob, hbook⟩ := exists_sent_listsBest hconv "BTC-USD" hm
    exact ⟨ob, (congrArg (·[n]?) hvalues).trans hob, hbook⟩

/-- **The strategy gets every trade.**  What its watchers of the trades were returned and what is in
the channel are together a first part of what the handler sends on the messages delivered; and once
the markets are loaded, if the trades convert, the tasks and the watchers can by themselves come to
a state where every trade listed was returned, in order. -/
theorem strategy_gets_trades
    (hnew : (AvellanedaStoikovMarketMaking.new wallet cfg).run .uninit = .ok self stores)
    {acts : List (ConnectorAction TradesMessage)}
    {s : Connector TradesMessage (CcxtTrade D) Unit (CcxtTrade D)}
    (hrun : Transition.exec (connectorStep (tradesFeed D)) (.start self.run.exchange.symbols) acts =
      some s)
    (hcalls : ∀ symbol, .call symbol ∈ acts → self.run.exchange.symbols.head? = some symbol) :
    s.channel.values ++ s.channel.queued <+:
        (handleTradesFeed "BTC-USD" (deliveredTo 0 acts).length (deliveredTo 0 acts)).1 ∧
      (s.alive = true → s.toLoad = [] →
        (∀ m ∈ deliveredTo 0 acts, (tradesOf (D := D) "BTC-USD" (some m)).isSome) →
        ∃ acts' u, (∀ a ∈ acts', a.Internal) ∧
          Transition.exec (connectorStep (tradesFeed D)) s acts' = some u ∧
          List.Forall₂ (Carries "BTC-USD") ((deliveredTo 0 acts).flatMap TradesMessage.trades)
            u.channel.values) := by
  have hcalls' := symbol_of_call hnew hcalls
  rw [run_symbols hnew] at hrun
  have hserves : (tradesFeed D).serves "BTC-USD" := trivial
  constructor
  · have hkept := one_feed_conserves hserves hrun hcalls'
    rw [show (tradesFeed D).select = some from rfl, List.filterMap_some] at hkept
    rw [sent_handleTradesFeed "BTC-USD" le_rfl, ← sent_onTradesMessages]
    exact hkept
  · intro halive hload hconv
    obtain ⟨acts', u, hint, hu, hvalues⟩ := one_feed_delivers hserves hrun hcalls' halive hload
      (isSome_onTradesMessages hconv)
    rw [show (tradesFeed D).select = some from rfl, List.filterMap_some] at hvalues
    have hsent := hvalues.trans (sent_onTradesMessages "BTC-USD" (deliveredTo 0 acts))
    -- every message is handled
    have hall : handledMessages D "BTC-USD" (deliveredTo 0 acts) = deliveredTo 0 acts :=
      List.takeWhile_eq_self_iff.2 fun m hm => by
        rw [← tradesOf_some]
        exact hconv m hm
    have hcarries := forall₂_carries_handled (D := D) "BTC-USD" (deliveredTo 0 acts)
    rw [← hsent, hall] at hcarries
    exact ⟨acts', u, hint, hu, hcarries⟩

/-- The markets are loaded, and two messages arrive while a watcher waits. -/
private def loadedOrdersFeed : List (ConnectorAction OrdersMessage) :=
  [.subscribe true, .call "BTC-USD",
    .task 0 (.deliver (.initial 1 [⟨⟨⟨100, 0⟩⟩, ⟨⟨5, 0⟩⟩⟩] [])), .task 0 .recv,
    .task 0 (.deliver (.update 2 none (some [⟨⟨⟨103, 0⟩⟩, ⟨⟨2, 0⟩⟩⟩]))), .task 0 .send]

theorem strategy_gets_books_sample :
    letI := exactOps fun _ => none
    ∃ self stores, (AvellanedaStoikovMarketMaking.new sampleWallet sampleConfig).run .uninit =
        .ok self stores ∧
      ∃ s, Transition.exec (connectorStep (ordersFeed ℚ)) (.start self.run.exchange.symbols)
          loadedOrdersFeed = some s ∧
        ∃ acts' u, Transition.exec (connectorStep (ordersFeed ℚ)) s acts' = some u ∧
          u.channel.values.length = 2 := by
  let : DecimalOps ℚ := exactOps fun _ => none
  have hrun : Transition.exec (connectorStep (ordersFeed ℚ)) (.start ["BTC-USD"])
    loadedOrdersFeed = some _ := rfl
  refine ⟨_, _, rfl, _, hrun, ?_⟩
  have hcalls : ∀ symbol, .call symbol ∈ loadedOrdersFeed → ["BTC-USD"].head? = some symbol := by
    simp [loadedOrdersFeed]
  obtain ⟨acts', u, -, hu, hlength, -⟩ :=
    (strategy_gets_books (show (AvellanedaStoikovMarketMaking.new sampleWallet
      sampleConfig).run .uninit = .ok _ _ from rfl) hrun hcalls).2 rfl rfl
        (by unfold Convertible; decide +kernel)
  exact ⟨acts', u, hu, hlength⟩

/-- The markets are loaded, and a snapshot of two trades arrives. -/
private def loadedTradesFeed : List (ConnectorAction TradesMessage) :=
  [.subscribe true, .task 0 (.deliver (.initial [⟨"a", ⟨0⟩, .buy, ⟨⟨100, 0⟩⟩, ⟨⟨1, 0⟩⟩⟩,
    ⟨"b", ⟨0⟩, .sell, ⟨⟨101, 0⟩⟩, ⟨⟨1, 0⟩⟩⟩])), .task 0 .recv, .call "BTC-USD", .task 0 .send]

theorem strategy_gets_trades_sample :
    letI := exactOps fun _ => none
    ∃ self stores, (AvellanedaStoikovMarketMaking.new sampleWallet sampleConfig).run .uninit =
        .ok self stores ∧
      ∃ s, Transition.exec (connectorStep (tradesFeed ℚ)) (.start self.run.exchange.symbols)
          loadedTradesFeed = some s ∧
        ∃ acts' u, Transition.exec (connectorStep (tradesFeed ℚ)) s acts' = some u ∧
          u.channel.values.length = 2 := by
  let : DecimalOps ℚ := exactOps fun _ => none
  have hrun : Transition.exec (connectorStep (tradesFeed ℚ)) (.start ["BTC-USD"])
    loadedTradesFeed = some _ := rfl
  have hcalls : ∀ symbol, .call symbol ∈ loadedTradesFeed → ["BTC-USD"].head? = some symbol := by
    simp [loadedTradesFeed]
  refine ⟨_, _, rfl, _, hrun, ?_⟩
  obtain ⟨acts', u, -, hu, hcarries⟩ :=
    (strategy_gets_trades (show (AvellanedaStoikovMarketMaking.new sampleWallet
      sampleConfig).run .uninit = .ok _ _ from rfl) hrun hcalls).2 rfl rfl (by decide +kernel)
  exact ⟨acts', u, hu, hcarries.length_eq.symm⟩

end Markets

/-! ### The account -/

section Account

variable [ToF64 D F]

/-- Of what a message makes the handler send, one is a balance, or none. -/
theorem filterMap_balance?_sends (m : SubaccountsMessage) :
    (m.sends D).filterMap SubaccountSend.balance? =
      ((m.balance D).toList : List (CcxtBalance F)) := by
  have hbalances : ((m.balance D : Option (CcxtBalance F)).map
      SubaccountSend.balance).toList.filterMap (SubaccountSend.balance? (D := D)) =
        (m.balance D).toList := by
    cases (m.balance D : Option (CcxtBalance F)) <;> rfl
  have hpositions : (m.positionReports.map fun r => SubaccountSend.position (r.toCcxt D)).filterMap
      (SubaccountSend.balance? (F := F)) = [] := by
    rw [List.filterMap_map]
    exact List.filterMap_eq_nil_iff.2 fun _ _ => rfl
  cases m <;> simp [SubaccountsMessage.sends, hbalances, hpositions]

/-- The others are its positions, in order. -/
theorem filterMap_position?_sends (m : SubaccountsMessage) :
    ((m.sends D : List (SubaccountSend D F)).filterMap SubaccountSend.position?) =
      m.positionReports.map fun r => r.toCcxt D := by
  have hbalances : ((m.balance D : Option (CcxtBalance F)).map
      SubaccountSend.balance).toList.filterMap (SubaccountSend.position? (D := D)) = [] := by
    cases (m.balance D : Option (CcxtBalance F)) <;> rfl
  have hpositions : (m.positionReports.map fun r => SubaccountSend.position (r.toCcxt D)).filterMap
      (SubaccountSend.position? (F := F)) = m.positionReports.map fun r => r.toCcxt D := by
    rw [List.filterMap_map]
    exact congrFun List.filterMap_eq_map _
  cases m <;> simp [SubaccountsMessage.sends, hbalances, hpositions]

/-- What the account's handler sends, on one of its channels. -/
theorem filterMap_subaccountSends {M : Type} (select : SubaccountSend D F → Option M)
    {msgs : List SubaccountsMessage} (hconv : ∀ m ∈ msgs, m.Converts D) :
    (ReceiveLoop.onMessages (onSubaccountsMessage (D := D) (F := F)) () msgs).sent.filterMap
        select =
      msgs.flatMap fun m => (m.sends D).filterMap select := by
  rw [onMessages_onSubaccountsMessage hconv, subaccountSends, List.filterMap_flatMap]

/-- What the watchers of a channel of the account get. -/
theorem account_feed_delivers {M : Type} [HasSymbol M] {select : SubaccountSend D F → Option M}
    {habout : ∀ v : M, HasSymbol.symbol v = accountFeed}
    {acts : List (ConnectorAction SubaccountsMessage)}
    {s : Connector SubaccountsMessage (SubaccountSend D F) Unit M}
    (hrun : Transition.exec (connectorStep (subaccountFeed D F select habout))
      (.start [accountFeed]) acts = some s)
    (hcalls : ∀ symbol, .call symbol ∈ acts → symbol = accountFeed)
    (hconv : ∀ m ∈ deliveredTo 0 acts, m.Converts D) :
    s.channel.values ++ s.channel.queued <+:
        (deliveredTo 0 acts).flatMap (fun m => (m.sends D).filterMap select) ∧
      (s.alive = true → s.toLoad = [] →
        ∃ acts' u, (∀ a ∈ acts', a.Internal) ∧
          Transition.exec (connectorStep (subaccountFeed D F select habout)) s acts' = some u ∧
          u.channel.values =
            (deliveredTo 0 acts).flatMap fun m => (m.sends D).filterMap select) := by
  have hserves : (subaccountFeed D F select habout).serves accountFeed := rfl
  rw [← filterMap_subaccountSends select hconv]
  refine ⟨one_feed_conserves hserves hrun hcalls, fun halive hload => ?_⟩
  refine one_feed_delivers hserves hrun hcalls halive hload ?_
  show (ReceiveLoop.onMessages onSubaccountsMessage () (deliveredTo 0 acts)).result.isSome
  rw [onMessages_onSubaccountsMessage hconv]
  rfl

/-- **The strategy gets every balance.**  What its watchers of the balances were returned and what
is in the channel are together a first part of the balances of the messages delivered, one or none
for each; and once the markets are loaded, the task and the watchers can by themselves come to a
state where all of them were returned, in order. -/
theorem strategy_gets_balances {acts : List (ConnectorAction SubaccountsMessage)}
    {s : Connector SubaccountsMessage (SubaccountSend D F) Unit (CcxtBalance F)}
    (hrun : Transition.exec (connectorStep (balanceFeed D F)) (.start [accountFeed]) acts = some s)
    (hcalls : ∀ symbol, .call symbol ∈ acts → symbol = accountFeed)
    (hconv : ∀ m ∈ deliveredTo 0 acts, m.Converts D) :
    s.channel.values ++ s.channel.queued <+:
        (deliveredTo 0 acts).filterMap (SubaccountsMessage.balance D) ∧
      (s.alive = true → s.toLoad = [] →
        ∃ acts' u, (∀ a ∈ acts', a.Internal) ∧
          Transition.exec (connectorStep (balanceFeed D F)) s acts' = some u ∧
          u.channel.values = (deliveredTo 0 acts).filterMap (SubaccountsMessage.balance D)) := by
  have hsends := account_feed_delivers hrun hcalls hconv
  simp only [filterMap_balance?_sends] at hsends
  rwa [← List.filterMap_eq_flatMap_toList] at hsends

/-- **The strategy gets every position.**  What its watchers of the positions were returned and what
is in the channel are together a first part of the positions the messages delivered report; and once
the markets are loaded, the task and the watchers can by themselves come to a state where all of
them were returned, in order. -/
theorem strategy_gets_positions {acts : List (ConnectorAction SubaccountsMessage)}
    {s : Connector SubaccountsMessage (SubaccountSend D F) Unit (CcxtPosition D)}
    (hrun : Transition.exec (connectorStep (positionFeed D F)) (.start [accountFeed]) acts = some s)
    (hcalls : ∀ symbol, .call symbol ∈ acts → symbol = accountFeed)
    (hconv : ∀ m ∈ deliveredTo 0 acts, m.Converts D) :
    s.channel.values ++ s.channel.queued <+:
        ((deliveredTo 0 acts).flatMap SubaccountsMessage.positionReports).map
          (PositionReport.toCcxt D) ∧
      (s.alive = true → s.toLoad = [] →
        ∃ acts' u, (∀ a ∈ acts', a.Internal) ∧
          Transition.exec (connectorStep (positionFeed D F)) s acts' = some u ∧
          u.channel.values =
            ((deliveredTo 0 acts).flatMap SubaccountsMessage.positionReports).map
              (PositionReport.toCcxt D)) := by
  have hsends := account_feed_delivers hrun hcalls hconv
  simp only [filterMap_position?_sends] at hsends
  rwa [← List.map_flatMap] at hsends

end Account

/-- An asset and a position are reported. -/
private def accountReports : List (ConnectorAction SubaccountsMessage) :=
  [.subscribe true, .call accountFeed, .task 0 (.deliver (.update [⟨some [⟨"ETH", ⟨⟨5, 0⟩⟩⟩],
    some [⟨"7f", "BTC-USD", .long, ⟨⟨2, 0⟩⟩, ⟨⟨100, 0⟩⟩, none⟩]⟩])), .task 0 .recv]

theorem strategy_gets_balances_sample :
    letI := exactOps fun _ => none
    ∃ s, Transition.exec (connectorStep (balanceFeed ℚ ℚ)) (.start [accountFeed]) accountReports =
        some s ∧
      ∃ acts' u, Transition.exec (connectorStep (balanceFeed ℚ ℚ)) s acts' = some u ∧
        u.channel.values.length = 1 := by
  let : DecimalOps ℚ := exactOps fun _ => none
  have hrun : Transition.exec (connectorStep (balanceFeed ℚ ℚ)) (.start [accountFeed])
    accountReports = some _ := rfl
  have hcalls : ∀ symbol, .call symbol ∈ accountReports → symbol = accountFeed := by
    simp [accountReports]
  obtain ⟨acts', u, -, hu, hvalues⟩ := (strategy_gets_balances hrun hcalls
    (by unfold SubaccountsMessage.Converts; decide +kernel)).2 rfl rfl
  refine ⟨_, hrun, acts', u, hu, ?_⟩
  rw [hvalues]
  decide +kernel

theorem strategy_gets_positions_sample :
    letI := exactOps fun _ => none
    ∃ s, Transition.exec (connectorStep (positionFeed ℚ ℚ)) (.start [accountFeed]) accountReports =
        some s ∧
      ∃ acts' u, Transition.exec (connectorStep (positionFeed ℚ ℚ)) s acts' = some u ∧
        u.channel.values.length = 1 := by
  let : DecimalOps ℚ := exactOps fun _ => none
  have hrun : Transition.exec (connectorStep (positionFeed ℚ ℚ)) (.start [accountFeed])
    accountReports = some _ := rfl
  have hcalls : ∀ symbol, .call symbol ∈ accountReports → symbol = accountFeed := by
    simp [accountReports]
  obtain ⟨acts', u, -, hu, hvalues⟩ := (strategy_gets_positions hrun hcalls
    (by unfold SubaccountsMessage.Converts; decide +kernel)).2 rfl rfl
  refine ⟨_, hrun, acts', u, hu, ?_⟩
  rw [hvalues]
  decide +kernel

end MarketMaker
