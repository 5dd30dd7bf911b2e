/-
**What the watchers of an exchange get of its feeds.**

Between the message that arrives at a feed and the value a watcher returns stand the task of the
feed, the channel and the other tasks and watchers on it.  In every interleaving of all of them,
what the watchers of a symbol get is, in order, among what the handler sends on the messages its
task has received; a feed of another symbol adds nothing to it, and takes nothing out of it by
panicking.

* `deliveredTo` — the messages that arrive at a feed, and `delivered_history` — they are those the
  task has received, followed by those waiting;
* `Connector.OneEach` — no two tasks have the same symbol, `oneEach_of_nodup` — as is the case when
  no symbol is registered twice;
* `FeedHistory` — what has gone into the channel, symbol by symbol;
* `returnedFor_sublist` — **what the watchers of a symbol get**.
-/

import MarketMaker.Connector

set_option relaxedAutoImplicit false
set_option autoImplicit false

namespace MarketMaker

variable {N O σ M : Type}

/-! ### The messages that arrive -/

/-- The message an action delivers to the feed of a task. -/
def ConnectorAction.delivers (i : ℕ) : ConnectorAction N → Option N
  | .task j (.deliver m) => if j = i then some m else none
  | _ => none

/-- The messages delivered to the feed of a task in a run. -/
def deliveredTo (i : ℕ) (acts : List (ConnectorAction N)) : List N :=
  acts.filterMap (ConnectorAction.delivers i)

theorem deliveredTo_concat (i : ℕ) (acts : List (ConnectorAction N)) (a : ConnectorAction N) :
    deliveredTo i (acts ++ [a]) = deliveredTo i acts ++ (a.delivers i).toList := by
  rw [deliveredTo, List.filterMap_append]
  cases ha : a.delivers i <;> simp [deliveredTo, ha]

/-- A step of a task moves a message from those waiting to those received, or adds one. -/
theorem received_feed_of_step {body : σ → Option N → Sends O (LoopFlow σ)}
    {t u : ReceiveTask N O σ} {b : TaskAction N} (h : t.step body b = some u) (i : ℕ) :
    u.received ++ u.feed =
      t.received ++ t.feed ++ ((ConnectorAction.task i b).delivers i).toList := by
  rcases ReceiveTask.step_cases h with ⟨m, rfl, -, rfl⟩ | ⟨rfl, rfl⟩ |
    ⟨s, m, feed, rfl, -, hfeed, rfl⟩ | ⟨s, rfl, -, -, -, rfl⟩ | ⟨o, left, flow, rfl, -, rfl⟩ |
    ⟨flow, rfl, -, rfl⟩
  · simp [ConnectorAction.delivers]
  · simp [ConnectorAction.delivers]
  · simp [ConnectorAction.delivers, ReceiveTask.iterate, hfeed]
  · simp [ConnectorAction.delivers, ReceiveTask.iterate]
  · simp [ConnectorAction.delivers]
  · simp [ConnectorAction.delivers]

variable [HasSymbol M] {h : FeedHandler N O σ M}

theorem getElem?_set_of_some {α : Type} {l : List α} {j : ℕ} {a : α} (hj : l[j]? = some a) (b : α)
    (i : ℕ) : (l.set j b)[i]? = if j = i then some b else l[i]? := by
  rw [List.getElem?_set, if_pos (List.getElem?_eq_some_iff.1 hj).1]

/-- The messages that have arrived at the feed of a task: those received, then those waiting. -/
def Connector.arrived (s : Connector N O σ M) (i : ℕ) : List N :=
  s.tasks[i]?.elim [] fun e => e.2.received ++ e.2.feed

theorem ConnectorAction.delivers_of_ne_task {a : ConnectorAction N}
    (ha : ∀ i b, a ≠ .task i b) (i : ℕ) : a.delivers i = none := by
  cases a with
  | task j b => exact absurd rfl (ha j b)
  | _ => rfl

/-- **The messages delivered to a feed** are those that have arrived there. -/
theorem delivered_history {symbols : List String} {acts : List (ConnectorAction N)}
    {s : Connector N O σ M}
    (hrun : Transition.exec (connectorStep h) (.start symbols) acts = some s) (i : ℕ) :
    deliveredTo i acts = s.arrived i := by
  refine Transition.exec_history (I := fun acts s => deliveredTo i acts = s.arrived i) ?_ ?_ hrun
  · rfl
  · intro acts s a u hs hstep
    rw [deliveredTo_concat, hs]
    rcases connectorStep_cases hstep with ⟨symbol, toLoad, rfl, -, -, rfl⟩ |
      ⟨symbol, toLoad, rfl, -, -, rfl⟩ | ⟨j, b, symbol, t, t', rfl, htask, ht', rfl⟩ |
      ⟨b, c, -, -, -, hother, rfl⟩ | ⟨c, rfl, -, -, -, rfl⟩ | ⟨rfl, -, -, -, rfl⟩
    · -- a new task starts with nothing
      simp only [ConnectorAction.delivers, Option.toList_none, List.append_nil, Connector.arrived]
      rcases Nat.lt_trichotomy i s.tasks.length with hlt | rfl | hgt
      · rw [List.getElem?_append_left hlt]
      · simp [ReceiveTask.spawn]
      · have hgt' : (s.tasks ++ [(symbol, ReceiveTask.spawn (h.init))]).length ≤ i := by
          rw [List.length_append]
          exact hgt
        rw [List.getElem?_eq_none hgt.le, List.getElem?_eq_none hgt']
    · simp [ConnectorAction.delivers, Connector.arrived]
    · have hmoved := received_feed_of_step ht' i
      simp only [Connector.arrived, getElem?_set_of_some htask]
      split_ifs with hij
      · subst hij
        rw [htask]
        exact hmoved.symm
      · have hnone : (ConnectorAction.task j b).delivers i = none := by
          cases b <;> simp [ConnectorAction.delivers, hij]
        simp [hnone]
    · simp [ConnectorAction.delivers_of_ne_task hother, Connector.arrived]
    · simp [ConnectorAction.delivers, Connector.arrived]
    · simp [ConnectorAction.delivers, Connector.arrived]

/-- **A task that has ended has run its loop** on the messages it has received, a first part of
those delivered; and if it has returned, it has received them all. -/
theorem loop_of_ended_task {symbols : List String} {acts : List (ConnectorAction N)}
    {s : Connector N O σ M}
    (hrun : Transition.exec (connectorStep h) (.start symbols) acts = some s) {i : ℕ}
    {symbol : String} {t : ReceiveTask N O σ} (htask : s.tasks[i]? = some (symbol, t)) {exit : Exit}
    (hended : t.phase = .ended exit) :
    ReceiveLoop.loop (h.body symbol) (t.received.length + 1) h.init t.received = (t.sent, exit) ∧
      t.received <+: deliveredTo i acts ∧ (exit = .returned → t.received = deliveredTo i acts) := by
  have hfollows := (connector_sound hrun).follows _ (List.mem_of_getElem? htask)
  have harrived : deliveredTo i acts = t.received ++ t.feed := by
    rw [delivered_history hrun i, Connector.arrived, htask]
    rfl
  refine ⟨hfollows.loop_of_ended (h.body_some symbol) hended, harrived ▸ List.prefix_append _ _, ?_⟩
  rintro rfl
  rw [harrived, (hfollows.drained_of_returned hended).2, List.append_nil]

/-! ### One task for each symbol -/

/-- No two tasks have the same symbol. -/
def Connector.OneEach (s : Connector N O σ M) : Prop :=
  ∀ (i j : ℕ) (e e' : String × ReceiveTask N O σ), s.tasks[i]? = some e → s.tasks[j]? = some e' →
    e.1 = e'.1 → i = j

omit [HasSymbol M] in
/-- A task keeps its symbol. -/
theorem map_fst_set_of_some {l : List (String × ReceiveTask N O σ)} {j : ℕ} {symbol : String}
    {t : ReceiveTask N O σ} (hj : l[j]? = some (symbol, t)) (t' : ReceiveTask N O σ) :
    (l.set j (symbol, t')).map Prod.fst = l.map Prod.fst := by
  refine List.ext_getElem? fun i => ?_
  rw [List.getElem?_map, getElem?_set_of_some hj, List.getElem?_map]
  split_ifs with hij
  · simp [← hij, hj]
  · rfl

/-- The tasks are those of the first symbols, in order. -/
theorem tasks_isPrefix {symbols : List String} {acts : List (ConnectorAction N)}
    {s : Connector N O σ M}
    (hrun : Transition.exec (connectorStep h) (.start symbols) acts = some s) :
    s.tasks.map Prod.fst ++ s.toLoad <+: symbols := by
  refine Transition.exec_invariant (I := fun s => s.tasks.map Prod.fst ++ s.toLoad <+: symbols)
    ?_ ?_ hrun
  · intro s a u hs hstep
    rcases connectorStep_cases hstep with ⟨symbol, toLoad, rfl, -, hload, rfl⟩ |
      ⟨symbol, toLoad, rfl, -, -, rfl⟩ | ⟨j, b, symbol, t, t', rfl, htask, -, rfl⟩ |
      ⟨b, c, -, -, -, -, rfl⟩ | ⟨c, rfl, -, -, -, rfl⟩ | ⟨rfl, -, -, -, rfl⟩
    · simpa [hload] using hs
    · simpa using (List.prefix_append _ _).trans hs
    · rw [map_fst_set_of_some htask]
      exact hs
    · exact hs
    · exact hs
    · exact hs
  · simp [Connector.start]

/-- While the exchange is there, the symbols without a task are those still to be subscribed to. -/
theorem tasks_of_alive {symbols : List String} {acts : List (ConnectorAction N)}
    {s : Connector N O σ M}
    (hrun : Transition.exec (connectorStep h) (.start symbols) acts = some s)
    (halive : s.alive = true) : s.tasks.map Prod.fst ++ s.toLoad = symbols := by
  refine Transition.exec_invariant
    (I := fun s => s.alive = true → s.tasks.map Prod.fst ++ s.toLoad = symbols) ?_ ?_ hrun halive
  · intro s a u hs hstep hu
    rcases connectorStep_cases hstep with ⟨symbol, toLoad, rfl, halive, hload, rfl⟩ |
      ⟨symbol, toLoad, rfl, -, -, rfl⟩ | ⟨j, b, symbol, t, t', rfl, htask, -, rfl⟩ |
      ⟨b, c, -, -, -, -, rfl⟩ | ⟨c, rfl, -, -, -, rfl⟩ | ⟨rfl, -, -, -, rfl⟩
    · simpa [hload] using hs halive
    · cases hu
    · rw [map_fst_set_of_some htask]
      exact hs hu
    · exact hs hu
    · exact hs hu
    · cases hu
  · simp [Connector.start]

/-- If no symbol is registered twice, no two tasks have the same symbol. -/
theorem oneEach_of_nodup {symbols : List String} (hnodup : symbols.Nodup)
    {acts : List (ConnectorAction N)} {s : Connector N O σ M}
    (hrun : Transition.exec (connectorStep h) (.start symbols) acts = some s) : s.OneEach := by
  have hfst : (s.tasks.map Prod.fst).Nodup :=
    ((List.prefix_append _ _).trans (tasks_isPrefix hrun)).sublist.nodup hnodup
  intro i j e e' hi hj heq
  have hi' : (s.tasks.map Prod.fst)[i]? = some e.1 := by simp [hi]
  have hj' : (s.tasks.map Prod.fst)[j]? = some e.1 := by simp [hj, heq]
  obtain ⟨hlt, -⟩ := List.getElem?_eq_some_iff.1 hi'
  exact (List.getElem?_inj hlt hfst).1 (hi'.trans hj'.symm)

/-! ### What goes into the channel -/

/-- The messages of a symbol among those sent. -/
def sentAbout (symbol : String) (watched : List (WatchAction M)) : List M :=
  (sentIn watched).filter fun m => HasSymbol.symbol m = symbol

/-- What the actions so far have put into the channel: of the symbol of a task, what the task has
sent that goes there, as long as the exchange is there, and afterwards a first part of it; and
nothing of other symbols. -/
structure FeedHistory (h : FeedHandler N O σ M) (watched : List (WatchAction M))
    (s : Connector N O σ M) : Prop where
  ofTask : ∀ (i : ℕ) (e : String × ReceiveTask N O σ), s.tasks[i]? = some e →
    ∃ rest, sentAbout e.1 watched ++ rest = e.2.sent.filterMap h.select ∧
      (s.alive = true → rest = [])
  other : ∀ symbol, (∀ e ∈ s.tasks, e.1 ≠ symbol) → sentAbout symbol watched = []

/-- What a task has sent is about its symbol. -/
theorem about_of_sent {symbol : String} (hserves : h.serves symbol) {t : ReceiveTask N O σ}
    (ht : t.FollowsLoop (h.body symbol) (h.onMessage symbol) h.init) {o : O} (ho : o ∈ t.sent)
    {v : M} (hv : h.select o = some v) : HasSymbol.symbol v = symbol := by
  obtain ⟨s, m, -, hsent⟩ := ReceiveLoop.exists_of_mem_sent (ht.sent_isPrefix.subset ho)
  exact h.about symbol hserves s m o hsent v hv

/-- The value a step of a task sends to the channel is about the symbol of the task. -/
theorem about_of_emits {s : Connector N O σ M} (hs : s.Sound h) {i : ℕ} {symbol : String}
    (hserves : h.serves symbol) {t t' : ReceiveTask N O σ} {b : TaskAction N}
    (htask : s.tasks[i]? = some (symbol, t)) (ht' : t.step (h.body symbol) b = some t') {v : M}
    (hv : (t.emits b).bind h.select = some v) :
    HasSymbol.symbol v = symbol := by
  obtain ⟨o, ho, hselect⟩ := Option.bind_eq_some_iff.1 hv
  have hfollows := (hs.follows _ (List.mem_of_getElem? htask)).step (h.body_some symbol)
    (h.quiet symbol) ht'
  refine about_of_sent hserves hfollows ?_ hselect
  rw [ReceiveTask.sent_of_step ht', ho]
  simp

theorem sentAbout_append_toList (symbol : String) (watched : List (WatchAction M))
    (b : Option (WatchAction M)) :
    sentAbout symbol (watched ++ b.toList) = sentAbout symbol watched ++
      (b.bind WatchAction.message).toList.filter fun m => HasSymbol.symbol m = symbol := by
  cases b with
  | none => simp
  | some b =>
      rw [Option.toList_some, sentAbout, sentIn_concat, List.filter_append]
      rfl

/-- Actions other than those of tasks send nothing. -/
theorem message_of_watched {s : Connector N O σ M} {a : ConnectorAction N}
    (ha : ∀ i b, a ≠ .task i b) : (s.watched h a).bind WatchAction.message = none := by
  cases a with
  | task i b => exact absurd rfl (ha i b)
  | _ => rfl

/-- What an action of a task sends to the channel. -/
theorem message_of_watched_task {s : Connector N O σ M} {i : ℕ} {symbol : String}
    {t : ReceiveTask N O σ} (htask : s.tasks[i]? = some (symbol, t)) (b : TaskAction N) :
    (s.watched h (.task i b)).bind WatchAction.message =
      if s.alive then (t.emits b).bind h.select else none := by
  simp only [Connector.watched, htask, Option.bind_some]
  split_ifs
  · cases (t.emits b).bind h.select <;> rfl
  · rfl

/-- An action that is none of a task's keeps it, whatever becomes of the exchange. -/
theorem FeedHistory.of_tasks_eq {watched : List (WatchAction M)} {s u : Connector N O σ M}
    {a : ConnectorAction N} (hs : FeedHistory h watched s) (ha : ∀ i b, a ≠ .task i b)
    (htasks : u.tasks = s.tasks) (halive : u.alive = true → s.alive = true) :
    FeedHistory h (watched ++ (s.watched h a).toList) u := by
  have hsame : ∀ symbol, sentAbout symbol (watched ++ (s.watched h a).toList) =
      sentAbout symbol watched := fun symbol => by
    simp [sentAbout_append_toList, message_of_watched ha]
  constructor
  · intro i e he
    rw [htasks] at he
    obtain ⟨rest, hrest, hall⟩ := hs.ofTask i e he
    exact ⟨rest, by rw [hsame, hrest], fun hu => hall (halive hu)⟩
  · intro symbol hne
    rw [hsame]
    exact hs.other symbol (htasks ▸ hne)

/-- A new task keeps it. -/
theorem FeedHistory.spawn {watched : List (WatchAction M)} {s : Connector N O σ M}
    (hs : FeedHistory h watched s) {symbol : String} {toLoad : List String}
    (hfresh : ∀ e ∈ s.tasks, e.1 ≠ symbol) :
    FeedHistory h watched
      { s with toLoad := toLoad, tasks := s.tasks ++ [(symbol, .spawn h.init)] } := by
  constructor
  · intro i e he
    rcases Nat.lt_or_ge i s.tasks.length with hlt | hge
    · exact hs.ofTask i e (List.getElem?_append_left hlt ▸ he)
    · rw [List.getElem?_append_right hge] at he
      rw [List.mem_singleton.1 (List.mem_of_getElem? he)]
      exact ⟨[], by simp [hs.other symbol hfresh, ReceiveTask.spawn], fun _ => rfl⟩
  · intro symbol' hne
    exact hs.other symbol' fun e he => hne e (List.mem_append_left _ he)

/-- A step of a task keeps it. -/
theorem FeedHistory.task {watched : List (WatchAction M)} {s : Connector N O σ M}
    (hs : FeedHistory h watched s) (hsound : s.Sound h) (hone : s.OneEach) {i : ℕ}
    {symbol : String} (hserves : h.serves symbol) {t t' : ReceiveTask N O σ} {b : TaskAction N}
    (htask : s.tasks[i]? = some (symbol, t)) (ht' : t.step (h.body symbol) b = some t') :
    FeedHistory h (watched ++ (s.watched h (.task i b)).toList)
      { s with
        tasks := s.tasks.set i (symbol, t'), channel := s.push ((t.emits b).bind h.select) } := by
  have habout := fun v hv => about_of_emits hsound hserves htask ht' (v := v) hv
  have hsent : t'.sent.filterMap h.select =
      t.sent.filterMap h.select ++ ((t.emits b).bind h.select).toList := by
    rw [ReceiveTask.sent_of_step ht', List.filterMap_append]
    cases t.emits b <;> rfl
  -- of other symbols nothing is added
  have hother : ∀ symbol', symbol ≠ symbol' →
      sentAbout symbol' (watched ++ (s.watched h (.task i b)).toList) =
        sentAbout symbol' watched := by
    intro symbol' hne
    rw [sentAbout_append_toList, message_of_watched_task htask]
    split_ifs
    · cases hv : (t.emits b).bind h.select with
      | none => simp
      | some v => simp [habout v hv, hne]
    · simp
  constructor
  · intro j e he
    rw [getElem?_set_of_some htask] at he
    split_ifs at he with hij
    · obtain rfl := Option.some.inj he
      obtain ⟨rest, hrest, hall⟩ := hs.ofTask i _ htask
      rw [sentAbout_append_toList, message_of_watched_task htask, hsent, ← hrest]
      cases halive : s.alive with
      | true =>
          refine ⟨[], ?_, fun _ => rfl⟩
          cases hv : (t.emits b).bind h.select with
          | none => simp [hall halive]
          | some v => simp [hall halive, habout v hv]
      | false => exact ⟨rest ++ ((t.emits b).bind h.select).toList, by simp, by simp⟩
    · have hne : symbol ≠ e.1 := fun heq => hij (hone i j _ e htask he heq)
      rw [hother e.1 hne]
      exact hs.ofTask j e he
  · intro symbol' hne
    have hmem : symbol ∈ (s.tasks.set i (symbol, t')).map Prod.fst := by
      rw [map_fst_set_of_some htask]
      exact List.mem_map_of_mem (f := Prod.fst) (List.mem_of_getElem? htask)
    obtain ⟨e, he, heq⟩ := List.mem_map.1 hmem
    rw [hother symbol' (heq ▸ hne e he)]
    refine hs.other symbol' fun e' he' => ?_
    have hmem' : e'.1 ∈ (s.tasks.set i (symbol, t')).map Prod.fst := by
      rw [map_fst_set_of_some htask]
      exact List.mem_map_of_mem he'
    obtain ⟨e'', he'', heq'⟩ := List.mem_map.1 hmem'
    exact heq' ▸ hne e'' he''

/-- **What has gone into the channel**, symbol by symbol. -/
theorem feed_history {symbols : List String} (hnodup : symbols.Nodup)
    (hserves : ∀ symbol ∈ symbols, h.serves symbol)
    {acts : List (ConnectorAction N)} {s : Connector N O σ M}
    (hrun : Transition.exec (connectorStep h) (.start symbols) acts = some s) :
    FeedHistory h (watchedIn h symbols acts) s := by
  induction acts using List.reverseRecOn generalizing s with
  | nil =>
      obtain rfl := Option.some.inj hrun
      exact ⟨fun i e he => by simp [Connector.start] at he, fun _ _ => rfl⟩
  | append_singleton acts a ih =>
      obtain ⟨u, hu, hstep⟩ := Transition.exec_concat_eq_some.1 hrun
      have hsound := connector_sound hu
      rw [watchedIn, Transition.observed_concat hu, ← watchedIn]
      rcases connectorStep_cases hstep with ⟨symbol, toLoad, rfl, -, hload, rfl⟩ |
        ⟨symbol, toLoad, rfl, halive, -, rfl⟩ | ⟨i, b, symbol, t, t', rfl, htask, ht', rfl⟩ |
        ⟨b, c, -, -, -, hother, rfl⟩ | ⟨c, rfl, hholder, -, hsenders, rfl⟩ |
        ⟨rfl, halive, -, -, rfl⟩
      · refine (List.append_nil (watchedIn h symbols acts)).symm ▸ (ih hu).spawn fun e he heq => ?_
        -- the symbol has no task yet, since none is registered twice
        have hsub := (tasks_isPrefix hu).sublist.nodup hnodup
        rw [hload] at hsub
        exact (List.nodup_append.1 hsub).2.2 e.1 (List.mem_map_of_mem he) symbol
          List.mem_cons_self heq
      · exact (ih hu).of_tasks_eq (by simp) rfl fun _ => halive
      · have hmem := ((List.prefix_append _ _).trans (tasks_isPrefix hu)).subset
          (List.mem_map_of_mem (f := Prod.fst) (List.mem_of_getElem? htask))
        exact (ih hu).task hsound (oneEach_of_nodup hnodup hu) (hserves symbol hmem) htask ht'
      · exact (ih hu).of_tasks_eq hother rfl id
      · exact absurd hsenders (hsound.senders_ne_zero hholder)
      · exact (ih hu).of_tasks_eq (by simp) rfl fun _ => halive

/-! ### What the watchers get -/

/-- **What the watchers of a symbol get**: in every run of an exchange whose symbols are registered
once each, the values returned to calls for the symbol of a task are, in order, among those the
handler sends on the messages the task has received, which are a first part of those delivered. -/
theorem returnedFor_sublist {symbols : List String} (hnodup : symbols.Nodup)
    (hserves : ∀ symbol ∈ symbols, h.serves symbol)
    {acts : List (ConnectorAction N)} {s : Connector N O σ M}
    (hrun : Transition.exec (connectorStep h) (.start symbols) acts = some s) {i : ℕ}
    {symbol : String} {t : ReceiveTask N O σ} (htask : s.tasks[i]? = some (symbol, t)) :
    (s.channel.returnedFor symbol).Sublist
      ((ReceiveLoop.onMessages (h.onMessage symbol) h.init t.received).sent.filterMap
        h.select) := by
  have hchannel := channel_history (connector_watches hrun)
  obtain ⟨rest, hrest, -⟩ := (feed_history hnodup hserves hrun).ofTask i _ htask
  have hsound := connector_sound hrun
  have habout : sentAbout symbol (watchedIn h symbols acts) <+: t.sent.filterMap h.select :=
    ⟨rest, hrest⟩
  have hhandled : t.sent.filterMap h.select <+:
      (ReceiveLoop.onMessages (h.onMessage symbol) h.init t.received).sent.filterMap h.select :=
    (hsound.follows _ (List.mem_of_getElem? htask)).sent_isPrefix.filterMap h.select
  rw [hchannel.returnedFor_eq]
  exact (hchannel.returned_sublist.filter _).trans (habout.trans hhandled).sublist

/-- **What the watchers of a symbol get**, by what was delivered to its feed: what the handler sends
on a first part of it, in order, with values left out. -/
theorem returnedFor_of_delivered {symbols : List String} (hnodup : symbols.Nodup)
    (hserves : ∀ symbol ∈ symbols, h.serves symbol)
    {acts : List (ConnectorAction N)} {s : Connector N O σ M}
    (hrun : Transition.exec (connectorStep h) (.start symbols) acts = some s) {i : ℕ}
    {symbol : String} (hsymbol : symbols[i]? = some symbol) :
    ∃ received, received <+: deliveredTo i acts ∧
      (s.channel.returnedFor symbol).Sublist
        ((ReceiveLoop.onMessages (h.onMessage symbol) h.init received).sent.filterMap
          h.select) := by
  obtain ⟨rest, hrest⟩ := (List.prefix_append _ _).trans (tasks_isPrefix hrun)
  have hget : ∀ {j : ℕ} {name : String}, (s.tasks.map Prod.fst)[j]? = some name →
      symbols[j]? = some name := fun hj => by
    rw [← hrest, List.getElem?_append_left (List.getElem?_eq_some_iff.1 hj).1, hj]
  rcases htask : s.tasks[i]? with _ | ⟨symbol', t⟩
  · -- the symbol has no task yet
    have hfresh : ∀ e ∈ s.tasks, e.1 ≠ symbol := by
      rintro e he rfl
      obtain ⟨j, hj⟩ := List.mem_iff_getElem?.1 (List.mem_map_of_mem (f := Prod.fst) he)
      have hlt := (List.getElem?_eq_some_iff.1 (hget hj)).1
      rw [(List.getElem?_inj hlt hnodup).1 ((hget hj).trans hsymbol.symm), List.getElem?_map,
        htask] at hj
      cases hj
    have hchannel := channel_history (connector_watches hrun)
    have hreturned := hchannel.returned_sublist.filter fun m => HasSymbol.symbol m = symbol
    have hnone : ((sentIn (watchedIn h symbols acts)).filter fun m =>
        HasSymbol.symbol m = symbol) = [] := (feed_history hnodup hserves hrun).other symbol hfresh
    refine ⟨[], List.nil_prefix, ?_⟩
    rw [hnone] at hreturned
    rw [hchannel.returnedFor_eq]
    exact hreturned.trans (List.nil_sublist _)
  · have heq : (s.tasks.map Prod.fst)[i]? = some symbol' := by simp [htask]
    obtain rfl : symbol' = symbol := Option.some.inj ((hget heq).symm.trans hsymbol)
    refine ⟨t.received, ?_, returnedFor_sublist hnodup hserves hrun htask⟩
    rw [delivered_history hrun i, Connector.arrived, htask]
    exact List.prefix_append ..

end MarketMaker
