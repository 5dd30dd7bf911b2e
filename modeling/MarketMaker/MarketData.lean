/-
**From the messages of the exchange to those who watch it.**

The four channels of the exchange, each with the tasks that send on it: trades and order books, with
a task for each symbol, and the balances and positions of the account, which come from one task.  A
watcher of balances or of positions takes whatever comes; the account stands in place of a symbol.

What the handlers send is known from the messages they handle, and what the watchers get is known
from what the handlers send.  Here the two are put together, so that what is said about the watchers
is said in terms of the messages the exchange delivers.

* `tradesFeed`, `ordersFeed`, `balanceFeed`, `positionFeed` — the channels;
* `ended_order_book_task`, `ended_trades_task` — **what a task has done when it ends, and why it
  ends**: the one when its feed closes or a number does not convert, the other only when a trade
  does not convert;
* `watched_books_are_tops` — **every book a watcher gets is the top of the reference book** after
  some message delivered for its symbol, and later books are of later messages;
* `watched_trades_are_listed` — **every trade a watcher gets is one listed for its symbol**, and no
  listing is returned twice.
-/

import MarketMaker.ConnectorRun
import MarketMaker.OrderBookFeed
import MarketMaker.SubaccountSends
import MarketMaker.TradesFeed
import Mathlib.Data.List.NodupEquivFin

set_option relaxedAutoImplicit false
set_option autoImplicit false

namespace MarketMaker

/-! ### The account -/

/-- What stands in place of a symbol for the feed of the account. -/
def accountFeed : String := "subaccount"

instance {F : Type} : HasSymbol (CcxtBalance F) := ⟨fun _ => accountFeed⟩

instance {D : Type} : HasSymbol (CcxtPosition D) := ⟨fun _ => accountFeed⟩

/-- One turn of a watcher of balances, which takes what comes. -/
def watchBalance {F : Type} (received : CcxtBalance F) : Option (CcxtBalance F) := some received

/-- One turn of a watcher of positions, which takes what comes, whatever symbols it was given. -/
def watchPositions {D : Type} (_symbols : List String) (received : CcxtPosition D) :
    Option (CcxtPosition D) := some received

theorem watchBalance_eq {F : Type} (received : CcxtBalance F) :
    watchBalance received = watchTurn accountFeed received := (watchTurn_of_eq rfl).symm

theorem watchPositions_eq {D : Type} (symbols : List String) (received : CcxtPosition D) :
    watchPositions symbols received = watchTurn accountFeed received := (watchTurn_of_eq rfl).symm

/-- The balance a value sent by the handler of the account is, if it is one. -/
def SubaccountSend.balance? {D F : Type} : SubaccountSend D F → Option (CcxtBalance F)
  | .balance b => some b
  | .position _ => none

/-- The position a value sent by the handler of the account is, if it is one. -/
def SubaccountSend.position? {D F : Type} : SubaccountSend D F → Option (CcxtPosition D)
  | .balance _ => none
  | .position p => some p

/-! ### The channels -/

/-- What a trade of a feed carries is about the symbol of the feed. -/
theorem symbol_of_onTradesMessage {D : Type} [DecimalText D] {symbol : String} {m : TradesMessage}
    {t : CcxtTrade D} (ht : t ∈ (onTradesMessage symbol () m).sent) : t.symbol = symbol := by
  cases htrades : m.trades.mapM (tradeToCcxt (D := D) symbol) with
  | none =>
      rw [onTradesMessage, tradesOf_some, htrades, Sends.unwrap_none_bind] at ht
      cases ht
  | some trades =>
      rw [onTradesMessage_eq htrades] at ht
      obtain ⟨n, hn⟩ := List.mem_iff_getElem?.1 ht
      obtain ⟨trade, -, hcarries⟩ := exists_carried (forall₂_carries htrades) hn
      exact hcarries.symbol

/-- A book of a feed is about the symbol of the feed. -/
theorem symbol_of_onOrdersMessage {D : Type} [DecimalText D] {symbol : String} {book : OrderBook}
    {m : OrdersMessage} {ob : CcxtOrderBook D} (hob : ob ∈ (onOrdersMessage symbol book m).sent) :
    ob.symbol = symbol := by
  rw [onOrdersMessage] at hob
  cases hout : (bookToCcxt (book.receive m) symbol m.messageId : Option (CcxtOrderBook D)) with
  | none =>
      rw [ReceiveLoop.sendOne_of_none hout] at hob
      cases hob
  | some ob' =>
      rw [ReceiveLoop.sendOne_of_some hout, List.mem_singleton] at hob
      exact hob ▸ (bookToCcxt_eq_some_iff.1 hout).1.1

variable (D F : Type) [DecimalText D]

/-- The channel of trades. -/
def tradesFeed : FeedHandler TradesMessage (CcxtTrade D) Unit (CcxtTrade D) where
  init := ()
  body := tradesFeedBody
  onMessage := onTradesMessage
  select := some
  body_some symbol u m := by simp [tradesFeedBody, onTradesMessage]
  quiet _ _ := Or.inr rfl
  serves _ := True
  about _ _ _ _ _ ho _ hv := Option.some.inj hv ▸ symbol_of_onTradesMessage ho

/-- The channel of order books. -/
def ordersFeed : FeedHandler OrdersMessage (CcxtOrderBook D) OrderBook (CcxtOrderBook D) where
  init := OrderBook.default
  body := orderBookFeedBody
  onMessage := onOrdersMessage
  select := some
  body_some := orderBookFeedBody_some
  quiet _ _ := Or.inl rfl
  serves _ := True
  about _ _ _ _ _ ho _ hv := Option.some.inj hv ▸ symbol_of_onOrdersMessage ho

variable [DecimalOps D] [ToF64 D F]

/-- A channel of the account: its task sends on two of them. -/
def subaccountFeed {M : Type} [HasSymbol M] (select : SubaccountSend D F → Option M)
    (habout : ∀ v : M, HasSymbol.symbol v = accountFeed) :
    FeedHandler SubaccountsMessage (SubaccountSend D F) Unit M where
  init := ()
  body _ := subaccountFeedBody
  onMessage _ := onSubaccountsMessage
  select := select
  body_some _ := subaccountFeedBody_some
  quiet _ _ := Or.inl rfl
  serves symbol := symbol = accountFeed
  about _ hsymbol _ _ _ _ v _ := (habout v).trans hsymbol.symm

/-- The channel of balances. -/
def balanceFeed : FeedHandler SubaccountsMessage (SubaccountSend D F) Unit (CcxtBalance F) :=
  subaccountFeed D F SubaccountSend.balance? fun _ => rfl

/-- The channel of positions. -/
def positionFeed : FeedHandler SubaccountsMessage (SubaccountSend D F) Unit (CcxtPosition D) :=
  subaccountFeed D F SubaccountSend.position? fun _ => rfl

variable {D F}

/-! ### Channels that stay open -/

/-- A book is sent and taken, and the feed closes while a second watcher waits. -/
private def closedWhileWatched : List (ConnectorAction OrdersMessage) :=
  [.subscribe true, .task 0 (.deliver (.initial 1 [⟨⟨⟨100, 0⟩⟩, ⟨⟨5, 0⟩⟩⟩] [])), .task 0 .recv,
    .task 0 .close, .task 0 .send, .task 0 .settle, .call "BTC-USD", .lock, .recv, .task 0 .recv,
    .task 0 .settle, .call "BTC-USD", .lock]

theorem channel_stays_open_sample :
    ∃ s, Transition.exec (connectorStep (ordersFeed ℚ)) (.start ["BTC-USD"]) closedWhileWatched =
        some s ∧
      s.channel.line ≠ [] ∧ s.panicked = [] ∧ s.senders ≠ 0 := by
  have hrun : Transition.exec (connectorStep (ordersFeed ℚ)) (.start ["BTC-USD"])
    closedWhileWatched = some _ := rfl
  obtain ⟨-, hpanicked, hsenders⟩ := channel_stays_open hrun
  have hline := List.cons_ne_nil (⟨1, "BTC-USD"⟩ : WatchCall) []
  exact ⟨_, hrun, hline, hpanicked, hsenders hline⟩

theorem closed_feeds_are_silent_sample :
    ∃ s u, Transition.exec (connectorStep (ordersFeed ℚ)) (.start ["BTC-USD"]) closedWhileWatched =
        some s ∧
      Transition.exec (connectorStep (ordersFeed ℚ)) s [.call "BTC-USD"] = some u ∧
        u.channel.returned = s.channel.returned ∧ u.panicked = [] := by
  have hrun : Transition.exec (connectorStep (ordersFeed ℚ)) (.start ["BTC-USD"])
    closedWhileWatched = some _ := rfl
  refine ⟨_, _, hrun, rfl, closed_feeds_are_silent hrun ⟨rfl, ?_, rfl⟩
    (show Transition.exec _ _ [.call "BTC-USD"] = _ from ?_)⟩
  · exact List.forall_mem_singleton.2 (Or.inl ⟨.returned, rfl⟩)
  · rfl

/-! ### Tasks that end -/

omit [DecimalOps D] [ToF64 D F] in
/-- **An order-book task that has ended has done what its handler does**: run on the messages the
task has received, the handler sends what the task has sent and ends as it has.  It has returned
after all that was delivered, or panicked at a number that does not convert. -/
theorem ended_order_book_task {symbols : List String} {acts : List (ConnectorAction OrdersMessage)}
    {s : Connector OrdersMessage (CcxtOrderBook D) OrderBook (CcxtOrderBook D)}
    (hrun : Transition.exec (connectorStep (ordersFeed D)) (.start symbols) acts = some s) {i : ℕ}
    {symbol : String} {t : ReceiveTask OrdersMessage (CcxtOrderBook D) OrderBook}
    (htask : s.tasks[i]? = some (symbol, t)) {exit : Exit} (hended : t.phase = .ended exit) :
    handleOrderBookFeed symbol (t.received.length + 1) t.received = (t.sent, exit) ∧
      t.received <+: deliveredTo i acts ∧
        (exit = .returned ∧ t.received = deliveredTo i acts ∨
          exit = .panicked ∧ ¬ Convertible D t.received) := by
  obtain ⟨hloop, hprefix, hall⟩ := loop_of_ended_task hrun htask hended
  refine ⟨hloop, hprefix, ?_⟩
  cases exit with
  | returned => exact Or.inl ⟨rfl, hall rfl⟩
  | panicked =>
      refine Or.inr ⟨rfl, fun hconv => ?_⟩
      have hreturns := handleOrderBookFeed_eq hconv symbol (Nat.lt_succ_self _)
      cases (Prod.mk.inj (hreturns.symm.trans hloop)).2
  | running =>
      have hfollows := (connector_sound hrun).follows _ (List.mem_of_getElem? htask)
      simp only [ReceiveTask.FollowsLoop, hended] at hfollows

/-- A feed that closes after one message, and its task up to the end. -/
private def closingOrdersFeed : List (ConnectorAction OrdersMessage) :=
  [.subscribe true, .task 0 (.deliver (.initial 1 [⟨⟨⟨100, 0⟩⟩, ⟨⟨5, 0⟩⟩⟩] [])), .task 0 .recv,
    .task 0 .close, .task 0 .send, .task 0 .settle, .task 0 .recv, .task 0 .settle]

theorem ended_order_book_task_sample :
    ∃ s t, Transition.exec (connectorStep (ordersFeed ℚ)) (.start ["BTC-USD"]) closingOrdersFeed =
        some s ∧
      s.tasks[0]? = some ("BTC-USD", t) ∧ t.phase = .ended .returned ∧
        handleOrderBookFeed "BTC-USD" (t.received.length + 1) t.received = (t.sent, .returned) :=
  ⟨_, _, rfl, rfl, rfl, (ended_order_book_task (i := 0)
    (show Transition.exec (connectorStep (ordersFeed ℚ)) (.start ["BTC-USD"]) closingOrdersFeed =
      some _ from rfl) rfl (show _ = TaskPhase.ended .returned from rfl)).1⟩

omit [DecimalOps D] [ToF64 D F] in
/-- **A trades task ends only by a panic**, at a trade that does not convert: not when its feed has
closed, however long it runs. -/
theorem ended_trades_task {symbols : List String} {acts : List (ConnectorAction TradesMessage)}
    {s : Connector TradesMessage (CcxtTrade D) Unit (CcxtTrade D)}
    (hrun : Transition.exec (connectorStep (tradesFeed D)) (.start symbols) acts = some s) {i : ℕ}
    {symbol : String} {t : ReceiveTask TradesMessage (CcxtTrade D) Unit}
    (htask : s.tasks[i]? = some (symbol, t)) {exit : Exit} (hended : t.phase = .ended exit) :
    exit = .panicked ∧
      handleTradesFeed symbol (t.received.length + 1) t.received = (t.sent, exit) ∧
        t.received <+: deliveredTo i acts ∧
          ∃ m ∈ t.received, ∃ trade ∈ m.trades, tradeToCcxt (D := D) symbol trade = none := by
  obtain ⟨hloop, hprefix, -⟩ := loop_of_ended_task hrun htask hended
  have hfollows := (connector_sound hrun).follows _ (List.mem_of_getElem? htask)
  cases exit with
  | returned =>
      exact absurd (congrArg Prod.snd hloop)
        (handleTradesFeed_ne_returned symbol (t.received.length + 1) t.received)
  | panicked =>
      refine ⟨rfl, hloop, hprefix, ?_⟩
      have hpanic : (ReceiveLoop.onMessages (onTradesMessage (D := D) symbol) ()
          t.received).result = none := by
        simp only [ReceiveTask.FollowsLoop, hended] at hfollows
        exact congrArg Sends.result hfollows
      by_contra hall
      have hconv : ∀ m ∈ t.received, (tradesOf (D := D) symbol (some m)).isSome := fun m hm =>
        Option.isSome_iff_ne_none.2 fun hnone => hall ⟨m, hm, exists_of_tradesOf_eq_none hnone⟩
      have hsome := isSome_onTradesMessages hconv
      rw [hpanic] at hsome
      cases hsome
  | running => simp only [ReceiveTask.FollowsLoop, hended] at hfollows

/-- A trade at a price of `2 ^ 96`, which is not a decimal, and the closing of its feed. -/
private def panickingTradesFeed : List (ConnectorAction TradesMessage) :=
  [.subscribe true,
    .task 0 (.deliver (.initial
      [⟨"a", ⟨0⟩, .buy, ⟨⟨79228162514264337593543950336, 0⟩⟩, ⟨⟨1, 0⟩⟩⟩])),
    .task 0 .close, .task 0 .recv, .task 0 .settle]

theorem ended_trades_task_sample :
    ∃ s t, Transition.exec (connectorStep (tradesFeed ℚ)) (.start ["BTC-USD"]) panickingTradesFeed =
        some s ∧
      s.tasks[0]? = some ("BTC-USD", t) ∧ t.phase = .ended .panicked ∧
        ∃ m ∈ t.received, ∃ trade ∈ m.trades, tradeToCcxt (D := ℚ) "BTC-USD" trade = none :=
  ⟨_, _, rfl, rfl, rfl, (ended_trades_task (i := 0)
    (show Transition.exec (connectorStep (tradesFeed ℚ)) (.start ["BTC-USD"]) panickingTradesFeed =
      some _ from rfl) rfl (show _ = TaskPhase.ended .panicked from rfl)).2.2.2⟩

/-! ### What the watchers of the markets get -/

omit [DecimalOps D] [ToF64 D F] in
/-- The books returned to calls for a symbol are records of the book after ever later messages
among those delivered to the feed of the symbol. -/
theorem exists_books_returned {symbols : List String} (hnodup : symbols.Nodup)
    {acts : List (ConnectorAction OrdersMessage)}
    {s : Connector OrdersMessage (CcxtOrderBook D) OrderBook (CcxtOrderBook D)}
    (hrun : Transition.exec (connectorStep (ordersFeed D)) (.start symbols) acts = some s) {i : ℕ}
    {symbol : String} (hsymbol : symbols[i]? = some symbol) :
    ∃ f : ℕ ↪o ℕ, ∀ k ob, (s.channel.returnedFor symbol)[k]? = some ob →
      ∃ m, (deliveredTo i acts)[f k]? = some m ∧
        bookToCcxt (OrderBook.after ((deliveredTo i acts).take (f k + 1))) symbol m.messageId =
          some ob := by
  obtain ⟨received, hprefix, hsub⟩ :=
    returnedFor_of_delivered hnodup (fun _ _ => trivial) hrun hsymbol
  obtain ⟨f, hf⟩ := List.sublist_iff_exists_orderEmbedding_getElem?_eq.1 hsub
  refine ⟨f, fun k ob hob => ?_⟩
  have hsent : (ReceiveLoop.onMessages (onOrdersMessage (D := D) symbol) OrderBook.default
      received).sent[f k]? = some ob := by
    have hk := (hf k).symm.trans hob
    rwa [show (ordersFeed D).select = some from rfl, List.filterMap_some] at hk
  obtain ⟨m, hm, hbook⟩ := bookToCcxt_of_sent hsent
  -- up to this message, what was received is what was delivered
  obtain ⟨rest, hrest⟩ := hprefix
  obtain ⟨hlt, -⟩ := List.getElem?_eq_some_iff.1 hm
  refine ⟨m, ?_, ?_⟩
  · rw [← hrest, List.getElem?_append_left hlt, hm]
  · rwa [← hrest, List.take_append_of_le_length hlt]

omit [DecimalOps D] [ToF64 D F] in
/-- **Every book a watcher gets is a top of the reference book.**  In every run of the exchange,
with any symbols registered once each, the books returned to calls for a symbol are, in order, tops
of the reference book after ever later messages among those delivered to the feed of the symbol;
and each carries the identifier of its message. -/
theorem watched_books_are_tops {symbols : List String} (hnodup : symbols.Nodup)
    {acts : List (ConnectorAction OrdersMessage)}
    {s : Connector OrdersMessage (CcxtOrderBook D) OrderBook (CcxtOrderBook D)}
    (hrun : Transition.exec (connectorStep (ordersFeed D)) (.start symbols) acts = some s) {i : ℕ}
    {symbol : String} (hsymbol : symbols[i]? = some symbol) :
    ∃ f : ℕ ↪o ℕ, ∀ k ob, (s.channel.returnedFor symbol)[k]? = some ob →
      ∃ m, (deliveredTo i acts)[f k]? = some m ∧ ob.symbol = symbol ∧
        ob.nonce = some m.messageId ∧
        ∀ side, ListsBest side (levelsSince side ((deliveredTo i acts).take (f k + 1)))
          (ob.side side) := by
  obtain ⟨f, hf⟩ := exists_books_returned hnodup hrun hsymbol
  refine ⟨f, fun k ob hob => ?_⟩
  obtain ⟨m, hm, hbook⟩ := hf k ob hob
  obtain ⟨⟨hsym, -, -, hnonce⟩, -⟩ := bookToCcxt_eq_some_iff.1 hbook
  exact ⟨m, hm, hsym, hnonce, listsBest_of_bookToCcxt (OrderBook.represents_after _) hbook⟩

/-- Two symbols; a book of each is sent, that of the second first, while the first watcher waits. -/
private def twoOrdersFeeds : List (ConnectorAction OrdersMessage) :=
  [.subscribe true, .subscribe true, .call "BTC-USD", .lock,
    .task 1 (.deliver (.update 9 none none)), .task 1 .recv,
    .task 0 (.deliver (.initial 1 [⟨⟨⟨100, 0⟩⟩, ⟨⟨5, 0⟩⟩⟩] [⟨⟨⟨103, 0⟩⟩, ⟨⟨2, 0⟩⟩⟩])),
    .task 0 .recv, .task 1 .send, .recv, .task 0 .send, .task 0 .settle,
    .task 0 (.deliver (.update 2 (some [⟨⟨⟨101, 0⟩⟩, ⟨⟨1, 0⟩⟩⟩]) none)), .recv]

theorem watched_books_are_tops_sample :
    ∃ s, Transition.exec (connectorStep (ordersFeed ℚ)) (.start ["BTC-USD", "ETH-USD"])
        twoOrdersFeeds = some s ∧
      (s.channel.returnedFor "BTC-USD").length = 1 ∧
      ∃ f : ℕ ↪o ℕ, ∀ k ob, (s.channel.returnedFor "BTC-USD")[k]? = some ob →
        ∃ m, (deliveredTo 0 twoOrdersFeeds)[f k]? = some m ∧ ob.symbol = "BTC-USD" ∧
          ob.nonce = some m.messageId ∧
          ∀ side, ListsBest side (levelsSince side ((deliveredTo 0 twoOrdersFeeds).take (f k + 1)))
            (ob.side side) :=
  ⟨_, rfl, by decide +kernel, watched_books_are_tops (by decide)
    (show Transition.exec (connectorStep (ordersFeed ℚ)) (.start ["BTC-USD", "ETH-USD"])
      twoOrdersFeeds = some _ from rfl) rfl⟩

omit [DecimalOps D] [ToF64 D F] in
/-- **Every trade a watcher gets is listed for its symbol.**  In every run of the exchange, with any
symbols registered once each, the trades returned to calls for a symbol carry, in order, ever later
trades among those the messages delivered to the feed of the symbol list. -/
theorem watched_trades_are_listed {symbols : List String} (hnodup : symbols.Nodup)
    {acts : List (ConnectorAction TradesMessage)}
    {s : Connector TradesMessage (CcxtTrade D) Unit (CcxtTrade D)}
    (hrun : Transition.exec (connectorStep (tradesFeed D)) (.start symbols) acts = some s) {i : ℕ}
    {symbol : String} (hsymbol : symbols[i]? = some symbol) :
    ∃ f : ℕ ↪o ℕ, ∀ k t, (s.channel.returnedFor symbol)[k]? = some t →
      ∃ trade, ((deliveredTo i acts).flatMap TradesMessage.trades)[f k]? = some trade ∧
        Carries symbol trade t := by
  obtain ⟨received, hprefix, hsub⟩ :=
    returnedFor_of_delivered hnodup (fun _ _ => trivial) hrun hsymbol
  obtain ⟨f, hf⟩ := List.sublist_iff_exists_orderEmbedding_getElem?_eq.1 hsub
  refine ⟨f, fun k t ht => ?_⟩
  have hsent : ((handledMessages D symbol received).flatMap (sentTrades D symbol))[f k]? =
      some t := by
    have hk := (hf k).symm.trans ht
    rw [show (tradesFeed D).select = some from rfl, List.filterMap_some] at hk
    rwa [← sent_onTradesMessages]
  obtain ⟨trade, htrade, hcarries⟩ := exists_carried (forall₂_carries_handled symbol received) hsent
  -- the messages handled are a first part of those delivered
  obtain ⟨rest, hrest⟩ : handledMessages D symbol received <+: deliveredTo i acts :=
    (List.takeWhile_prefix _).trans hprefix
  refine ⟨trade, ?_, hcarries⟩
  rw [← hrest, List.flatMap_append,
    List.getElem?_append_left (List.getElem?_eq_some_iff.1 htrade).1]
  exact htrade

/-- Two symbols; a snapshot of each is handled, and the watcher of the first takes two trades. -/
private def twoTradesFeeds : List (ConnectorAction TradesMessage) :=
  [.subscribe true, .subscribe true,
    .task 0 (.deliver (.initial [⟨"a", ⟨0⟩, .buy, ⟨⟨100, 0⟩⟩, ⟨⟨1, 0⟩⟩⟩,
      ⟨"b", ⟨0⟩, .sell, ⟨⟨101, 0⟩⟩, ⟨⟨1, 0⟩⟩⟩])), .task 0 .recv,
    .task 1 (.deliver (.update [[⟨"c", ⟨0⟩, .buy, ⟨⟨3000, 0⟩⟩, ⟨⟨1, 0⟩⟩⟩]])), .task 1 .recv,
    .task 0 .send, .task 1 .send, .task 0 .send, .call "BTC-USD", .lock, .recv,
    .call "BTC-USD", .lock, .recv, .recv]

theorem watched_trades_are_listed_sample :
    ∃ s, Transition.exec (connectorStep (tradesFeed ℚ)) (.start ["BTC-USD", "ETH-USD"])
        twoTradesFeeds = some s ∧
      (s.channel.returnedFor "BTC-USD").length = 2 ∧
      ∃ f : ℕ ↪o ℕ, ∀ k t, (s.channel.returnedFor "BTC-USD")[k]? = some t →
        ∃ trade, ((deliveredTo 0 twoTradesFeeds).flatMap TradesMessage.trades)[f k]? = some trade ∧
          Carries "BTC-USD" trade t :=
  ⟨_, rfl, by decide +kernel, watched_trades_are_listed (by decide)
    (show Transition.exec (connectorStep (tradesFeed ℚ)) (.start ["BTC-USD", "ETH-USD"])
      twoTradesFeeds = some _ from rfl) rfl⟩

end MarketMaker
