/-
**An exchange with one feed loses nothing, and can always deliver.**

The strategy registers one symbol, and everything that watches the exchange watches that symbol; the
account has a single feed too.  Then the watchers and the messages in line always agree, and between
the feed and the watchers nothing is lost: what was returned, what is in the channel and what the
task has still to send are together what the handler sends.  Every message that has arrived can come
to be returned, without anything else arriving.

When the feeds have closed nothing tells the watchers: they wait.

* `one_feed_aligned` — the watchers and the messages in line agree;
* `one_feed_conserves` — **nothing is lost**;
* `one_feed_delivers` — **everything that has arrived can be delivered**;
* `Connector.RunDry`, `closed_feeds_are_silent` — **when all feeds have closed and everything was
  delivered, no call returns any more**, and none panics.
-/

import MarketMaker.ConnectorFeeds
import MarketMaker.WatchersLoss

set_option relaxedAutoImplicit false
set_option autoImplicit false

namespace MarketMaker

variable {N O σ M : Type} [HasSymbol M] {h : FeedHandler N O σ M}

/-! ### Nothing is lost -/

section OneFeed

variable {symbol : String} {acts : List (ConnectorAction N)} {s : Connector N O σ M}

/-- The symbol of a task is the one symbol. -/
theorem symbol_of_task
    (hrun : Transition.exec (connectorStep h) (.start [symbol]) acts = some s)
    {e : String × ReceiveTask N O σ} (he : e ∈ s.tasks) : e.1 = symbol := by
  have hmem := ((List.prefix_append _ _).trans (tasks_isPrefix hrun)).subset
    (List.mem_map_of_mem he)
  simpa using hmem

/-- All messages sent have the one symbol. -/
theorem symbol_of_sentIn (hserves : h.serves symbol)
    (hrun : Transition.exec (connectorStep h) (.start [symbol]) acts = some s) {m : M}
    (hm : m ∈ sentIn (watchedIn h [symbol] acts)) : HasSymbol.symbol m = symbol := by
  by_contra hne
  have hnone := (feed_history (List.nodup_singleton symbol) (by simpa using hserves) hrun).other
    (HasSymbol.symbol m) fun e he heq => hne (heq.symm.trans (symbol_of_task hrun he))
  have hmem : m ∈ sentAbout (HasSymbol.symbol m) (watchedIn h [symbol] acts) :=
    List.mem_filter.2 ⟨hm, by simp⟩
  rw [hnone] at hmem
  cases hmem

/-- A call seen in the channel is a call of the run. -/
theorem call_of_watchedIn {symbol' : String} (symbols : List String)
    (hmem : .call symbol' ∈ watchedIn h symbols acts) : .call symbol' ∈ acts := by
  obtain ⟨u, a, ha, hobs⟩ := Transition.exists_of_mem_observed hmem
  cases a with
  | call symbol'' =>
      obtain rfl : symbol'' = symbol' := by simpa [Connector.watched] using hobs
      exact ha
  | task i b =>
      simp only [Connector.watched] at hobs
      split_ifs at hobs
      obtain ⟨v, -, hv⟩ := Option.map_eq_some_iff.1 hobs
      cases hv
  | _ => simp [Connector.watched] at hobs

/-- **The watchers and the messages in line agree** in every state of a run in which all calls are
for the one symbol. -/
theorem one_feed_aligned (hserves : h.serves symbol)
    (hrun : Transition.exec (connectorStep h) (.start [symbol]) acts = some s)
    (hcalls : ∀ symbol', .call symbol' ∈ acts → symbol' = symbol) :
    AlwaysAligned (watchedIn h [symbol] acts) := by
  intro before later hsplit c hc
  refine aligned_of_one_symbol symbol (fun m hm => ?_) (fun symbol' hm => ?_) hc
  · refine symbol_of_sentIn hserves hrun (List.mem_filterMap.2 ⟨.send m, ?_, rfl⟩)
    rw [hsplit]
    exact List.mem_append_left _ hm
  · refine hcalls symbol' (call_of_watchedIn (h := h) [symbol] ?_)
    rw [hsplit]
    exact List.mem_append_left _ hm

/-- While the exchange is there, what the watchers were returned and what is in the channel are
together, and in order, what the task has sent there. -/
theorem returned_queued_eq (hserves : h.serves symbol)
    (hrun : Transition.exec (connectorStep h) (.start [symbol]) acts = some s)
    (hcalls : ∀ symbol', .call symbol' ∈ acts → symbol' = symbol) :
    (s.channel.returned.map fun e => e.2.1) ++ s.channel.queue.map Prod.fst =
      sentAbout symbol (watchedIn h [symbol] acts) := by
  have hkept := (one_feed_aligned hserves hrun hcalls).conserved (connector_watches hrun)
  have hvalues := congrArg (List.map Prod.fst) hkept
  rw [List.map_append, List.map_map, List.zipIdx_map_fst] at hvalues
  rw [sentAbout, List.filter_eq_self.2 fun m hm => by simp [symbol_of_sentIn hserves hrun hm]]
  exact hvalues

/-- **Nothing is lost**: what the watchers were returned and what is in the channel are together a
first part of what the handler sends on the messages delivered. -/
theorem one_feed_conserves (hserves : h.serves symbol)
    (hrun : Transition.exec (connectorStep h) (.start [symbol]) acts = some s)
    (hcalls : ∀ symbol', .call symbol' ∈ acts → symbol' = symbol) :
    (s.channel.returned.map fun e => e.2.1) ++ s.channel.queue.map Prod.fst <+:
      (ReceiveLoop.onMessages (h.onMessage symbol) h.init
        (deliveredTo 0 acts)).sent.filterMap h.select := by
  have hhistory := feed_history (List.nodup_singleton symbol) (by simpa using hserves) hrun
  rw [returned_queued_eq hserves hrun hcalls, delivered_history hrun 0, Connector.arrived]
  rcases htask : s.tasks[0]? with _ | ⟨symbol', t⟩
  · have hempty : s.tasks = [] := List.length_eq_zero_iff.1 (by simpa using htask)
    rw [hhistory.other symbol (by simp [hempty])]
    exact List.nil_prefix
  · obtain rfl : symbol' = symbol := symbol_of_task hrun (List.mem_of_getElem? htask)
    obtain ⟨rest, hrest, -⟩ := hhistory.ofTask 0 _ htask
    have hsent := ((connector_sound hrun).follows _ (List.mem_of_getElem? htask)).sent_isPrefix
    have hmore : (ReceiveLoop.onMessages (h.onMessage symbol') h.init t.received).sent <+:
        (ReceiveLoop.onMessages (h.onMessage symbol') h.init (t.received ++ t.feed)).sent :=
      ReceiveLoop.sent_prefix_of_prefix h.init (List.prefix_append t.received t.feed)
    exact (show sentAbout symbol' _ <+: t.sent.filterMap h.select from ⟨rest, hrest⟩).trans
      ((hsent.trans hmore).filterMap h.select)

/-! ### Everything can be delivered -/

/-- An action of the tasks or of the watchers, as opposed to those of the feeds and of the owner of
the exchange. -/
def ConnectorAction.Internal : ConnectorAction N → Prop
  | .task _ a => ReceiveTask.Works a
  | .call _ => True
  | .lock => True
  | .recv => True
  | _ => False

/-- The action of the connector for an action of its channel. -/
def WatchAction.toConnector : WatchAction M → ConnectorAction N
  | .call symbol => .call symbol
  | .recv => .recv
  | _ => .lock

/-- The steps of a task are steps of the exchange. -/
theorem exec_task {t u : ReceiveTask N O σ} {i : ℕ} {steps : List (TaskAction N)}
    (htask : s.tasks[i]? = some (symbol, t))
    (hsteps : Transition.exec (ReceiveTask.step (h.body symbol)) t steps = some u) :
    ∃ s' : Connector N O σ M,
      Transition.exec (connectorStep h) s (steps.map (.task i)) = some s' ∧
        s'.tasks[i]? = some (symbol, u) ∧ s'.alive = s.alive ∧ s'.toLoad = s.toLoad := by
  induction steps generalizing s t with
  | nil =>
      obtain rfl := Option.some.inj hsteps
      exact ⟨s, rfl, htask, rfl, rfl⟩
  | cons b steps ih =>
      rw [Transition.exec_cons, Option.bind_eq_some_iff] at hsteps
      obtain ⟨t', ht', hrest⟩ := hsteps
      have hstep : connectorStep h s (.task i b) = some { s with
          tasks := s.tasks.set i (symbol, t')
          channel := s.push ((t.emits b).bind h.select) } := by
        simp [connectorStep, htask, ht']
      obtain ⟨s', hrun, htask', halive, hload⟩ := ih
        (s := { s with
          tasks := s.tasks.set i (symbol, t'), channel := s.push ((t.emits b).bind h.select) })
        (by simp [getElem?_set_of_some htask]) hrest
      refine ⟨s', ?_, htask', halive, hload⟩
      rw [List.map_cons, Transition.exec_cons, hstep]
      exact hrun

/-- A step of the channel that sends nothing is a step of the exchange, once the markets are
loaded. -/
theorem connectorStep_of_watchStep (halive : s.alive = true) (hload : s.toLoad = [])
    {b : WatchAction M} {c : WatchState M} (hnosend : b.message = none)
    (hb : watchStep s.channel b = some c) :
    connectorStep h s b.toConnector = some { s with channel := c } := by
  cases b with
  | send m => cases hnosend
  | call symbol' => simp [WatchAction.toConnector, connectorStep, halive, hload, hb]
  | lock => simp [WatchAction.toConnector, connectorStep, hb]
  | recv =>
      have hsenders : s.senders ≠ 0 := by simp [Connector.senders, halive]
      rw [WatchAction.toConnector, connectorStep]
      split
      · rename_i hzero
        exact absurd hzero hsenders
      · rw [hb]
        rfl

theorem exec_watch (halive : s.alive = true) (hload : s.toLoad = []) {steps : List (WatchAction M)}
    {c : WatchState M} (hnosend : ∀ b ∈ steps, b.message = none)
    (hsteps : Transition.exec watchStep s.channel steps = some c) :
    Transition.exec (connectorStep h) s (steps.map WatchAction.toConnector) =
      some { s with channel := c } := by
  induction steps generalizing s with
  | nil =>
      obtain rfl := Option.some.inj hsteps
      rfl
  | cons b steps ih =>
      rw [Transition.exec_cons, Option.bind_eq_some_iff] at hsteps
      obtain ⟨c', hb, hrest⟩ := hsteps
      obtain ⟨hfirst, hlater⟩ := List.forall_mem_cons.1 hnosend
      rw [List.map_cons, Transition.exec_cons, connectorStep_of_watchStep halive hload hfirst hb]
      exact ih (s := { s with channel := c' }) halive hload hlater hrest

/-- **Everything that was delivered can be returned**: with the markets loaded and the exchange
there, the task and the watchers can, without anything else arriving, come to a state where the
watchers have been returned, in order, all that the handler sends on the messages delivered;
provided it handles them without a panic. -/
theorem one_feed_delivers (hserves : h.serves symbol)
    (hrun : Transition.exec (connectorStep h) (.start [symbol]) acts = some s)
    (hcalls : ∀ symbol', .call symbol' ∈ acts → symbol' = symbol) (halive : s.alive = true)
    (hload : s.toLoad = [])
    (hok : (ReceiveLoop.onMessages (h.onMessage symbol) h.init
      (deliveredTo 0 acts)).result.isSome) :
    ∃ acts' u, (∀ a ∈ acts', a.Internal) ∧ Transition.exec (connectorStep h) s acts' = some u ∧
      (u.channel.returned.map fun e => e.2.1) =
        (ReceiveLoop.onMessages (h.onMessage symbol) h.init
          (deliveredTo 0 acts)).sent.filterMap h.select := by
  have htasks := tasks_of_alive hrun halive
  rw [hload, List.append_nil, List.map_eq_singleton_iff] at htasks
  obtain ⟨⟨symbol', t⟩, htasks, hsymbol⟩ := htasks
  have htask : s.tasks[0]? = some (symbol, t) := by
    rw [htasks, ← hsymbol]
    rfl
  have harrived : deliveredTo 0 acts = t.received ++ t.feed := by
    rw [delivered_history hrun 0, Connector.arrived, htask]
    rfl
  rw [harrived] at hok ⊢
  have hfollows := (connector_sound hrun).follows _ (List.mem_of_getElem? htask)
  -- the task catches up with its feed
  obtain ⟨steps, t', hworks, hsteps, -, hreceived, hsent⟩ :=
    hfollows.exists_catch_up (h.body_some symbol) (h.quiet symbol) hok
  obtain ⟨s', hs', htask', halive', hload'⟩ := exec_task htask hsteps
  have hrun' := Transition.exec_append_eq_some.2 ⟨s, hrun, hs'⟩
  have hcalls' : ∀ symbol', .call symbol' ∈ acts ++ steps.map (.task 0) → symbol' = symbol := by
    intro symbol' hmem
    rcases List.mem_append.1 hmem with hmem | hmem
    · exact hcalls symbol' hmem
    · obtain ⟨b, -, hb⟩ := List.mem_map.1 hmem
      cases hb
  -- the watchers empty the channel
  have haligned : Aligned s'.channel :=
    one_feed_aligned hserves hrun' hcalls' _ [] (List.append_nil _).symm _
      (connector_watches hrun')
  obtain ⟨steps', c, hnosend, hsteps', -, -, hall⟩ := haligned.exists_empty
  refine ⟨steps.map (.task 0) ++ steps'.map WatchAction.toConnector, { s' with channel := c }, ?_,
    Transition.exec_append_eq_some.2 ⟨s', hs', exec_watch (halive'.trans halive)
      (hload'.trans hload) hnosend hsteps'⟩, ?_⟩
  · intro a ha
    rcases List.mem_append.1 ha with ha | ha
    · obtain ⟨b, hb, rfl⟩ := List.mem_map.1 ha
      exact hworks b hb
    · obtain ⟨b, -, rfl⟩ := List.mem_map.1 ha
      cases b <;> trivial
  · obtain ⟨rest, hrest, hnorest⟩ := (feed_history (List.nodup_singleton symbol)
      (by simpa using hserves) hrun').ofTask 0 _ htask'
    obtain rfl := hnorest (halive'.trans halive)
    have hvalues := congrArg (List.map Prod.fst) hall
    rw [List.map_append, List.map_map, List.map_map] at hvalues
    refine hvalues.trans ((returned_queued_eq hserves hrun' hcalls').trans ?_)
    rw [← hreceived, ← hsent, ← hrest, List.append_nil]

end OneFeed

/-! ### When the feeds have closed -/

/-- All feeds have closed, and everything they delivered has been received, sent and taken out of
the channel. -/
structure Connector.RunDry (s : Connector N O σ M) : Prop where
  loaded : s.toLoad = []
  idle : ∀ e ∈ s.tasks, e.2.Idle
  queue : s.channel.queue = []

/-- From such a state every action leads to such a state, and no call returns. -/
theorem Connector.RunDry.step {s u : Connector N O σ M} {a : ConnectorAction N} (hs : s.RunDry)
    (hsound : s.Sound h) (hstep : connectorStep h s a = some u) :
    u.RunDry ∧ u.channel.returned = s.channel.returned := by
  rcases connectorStep_cases hstep with ⟨symbol, toLoad, rfl, -, hload, rfl⟩ |
    ⟨symbol, toLoad, rfl, -, hload, rfl⟩ | ⟨i, b, symbol, t, t', rfl, htask, ht', rfl⟩ |
    ⟨b, c, hb, hc, -, hother, rfl⟩ | ⟨c, rfl, hholder, -, hsenders, rfl⟩ | ⟨rfl, -, -, -, rfl⟩
  · rw [hs.loaded] at hload
    cases hload
  · rw [hs.loaded] at hload
    cases hload
  · obtain ⟨hidle, hnone⟩ := (hs.idle _ (List.mem_of_getElem? htask)).step (h.quiet symbol) ht'
    have hpush : s.push ((t.emits b).bind h.select) = s.channel := by
      rw [hnone]
      simp [push]
    refine ⟨⟨hs.loaded, fun e he => ?_, by simp [hpush, hs.queue]⟩, by simp [hpush]⟩
    rcases List.mem_or_eq_of_mem_set he with he | rfl
    · exact hs.idle e he
    · exact hidle
  · rcases watchStep_cases hc with ⟨m, rfl, -⟩ | ⟨symbol, rfl, rfl⟩ | ⟨w, waiting, rfl, -, -, rfl⟩ |
      ⟨w, e, queue, rfl, -, hqueue, -⟩
    · have hmessage := message_of_watched (h := h) (s := s) hother
      rw [hb] at hmessage
      cases hmessage
    · exact ⟨⟨hs.loaded, hs.idle, hs.queue⟩, rfl⟩
    · exact ⟨⟨hs.loaded, hs.idle, hs.queue⟩, rfl⟩
    · rw [hs.queue] at hqueue
      cases hqueue
  · exact absurd hsenders (hsound.senders_ne_zero hholder)
  · exact ⟨⟨hs.loaded, hs.idle, hs.queue⟩, rfl⟩

/-- **When the feeds have closed the watchers wait**: once everything has been delivered, no call
under way or made later returns, and none panics. -/
theorem closed_feeds_are_silent {symbols : List String} {acts acts' : List (ConnectorAction N)}
    {s u : Connector N O σ M}
    (hrun : Transition.exec (connectorStep h) (.start symbols) acts = some s) (hdry : s.RunDry)
    (hlater : Transition.exec (connectorStep h) s acts' = some u) :
    u.channel.returned = s.channel.returned ∧ u.panicked = [] := by
  have hall : u.Sound h ∧ u.RunDry ∧ u.channel.returned = s.channel.returned :=
    Transition.exec_invariant
      (I := fun u => u.Sound h ∧ u.RunDry ∧ u.channel.returned = s.channel.returned)
      (fun v a w hv hstep => by
        obtain ⟨hdry', hsame⟩ := hv.2.1.step hv.1 hstep
        exact ⟨hv.1.step hstep, hdry', hsame.trans hv.2.2⟩)
      ⟨connector_sound hrun, hdry, rfl⟩ hlater
  exact ⟨hall.2.2, hall.1.panicked⟩

end MarketMaker
