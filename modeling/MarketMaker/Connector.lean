/-
**The exchange at work: its feed tasks, a channel, and those who watch it.**

Loading the markets subscribes to the feeds of one symbol after another and spawns a task for each;
a subscription that fails panics, which drops the exchange.  The tasks hold senders of the channel,
one each, and the exchange holds one of its own together with the receiver.  Once the markets are
loaded the exchange is shared, and calls watch the channel.  A call borrows the exchange, so the
exchange is not dropped while a call is under way; when it is, what the tasks send goes nowhere.

A receiver whose channel is empty waits, unless all senders are gone: then `recv` answers `none`, on
which every watcher panics.

The channels of the exchange have nothing to do with each other, so each is modelled with the tasks
that send on it: `FeedHandler` says what such a task does with a message and which of the values it
sends go to the channel.

* `Connector`, `connectorStep` — the tasks, the channel and the calls;
* `connectorStep_cases` — what a step can do;
* `Connector.Sound` — **what holds in every state**: tasks follow their loops, and calls are only
  there while the exchange is;
* `connector_watches` — **the channel of a connector is a shared channel** as the watchers know it;
* `channel_stays_open` — **no watcher ever panics** at a closed channel.
-/

import MarketMaker.ReceiveTask
import MarketMaker.Watchers

set_option relaxedAutoImplicit false
set_option autoImplicit false

namespace MarketMaker

/-- What the task of a feed does, as far as one channel is concerned. -/
structure FeedHandler (N O σ M : Type) [HasSymbol M] where
  init : σ
  /-- One iteration of the loop, for the symbol of the feed. -/
  body : String → σ → Option N → Sends O (LoopFlow σ)
  onMessage : String → σ → N → Sends O σ
  /-- The values sent that go to the channel. -/
  select : O → Option M
  body_some : ∀ symbol s m, body symbol s (some m) = LoopFlow.next <$> onMessage symbol s m
  quiet : ∀ symbol, ReceiveTask.QuietWhenClosed (body symbol)
  /-- The symbols there are such feeds for. -/
  serves : String → Prop
  /-- What a feed sends is about its symbol. -/
  about : ∀ symbol, serves symbol → ∀ s m, ∀ o ∈ (onMessage symbol s m).sent, ∀ v,
    select o = some v → HasSymbol.symbol v = symbol

variable {N O σ M : Type}

/-- An exchange, as one channel sees it. -/
structure Connector (N O σ M : Type) where
  /-- The symbols whose feeds are still to be subscribed to. -/
  toLoad : List String
  /-- Whether the exchange is there. -/
  alive : Bool
  /-- The tasks spawned, with their symbols. -/
  tasks : List (String × ReceiveTask N O σ)
  channel : WatchState M
  /-- The calls that met a closed channel, and panicked. -/
  panicked : List WatchCall

namespace Connector

/-- The exchange when it starts to load its markets. -/
def start (symbols : List String) : Connector N O σ M := ⟨symbols, true, [], .start, []⟩

/-- The number of senders: that of the exchange, and those of the tasks that have not ended. -/
def senders (s : Connector N O σ M) : ℕ :=
  (if s.alive then 1 else 0) + s.tasks.countP fun e => !e.2.isEnded

/-- A value sent, if any, is in the channel, unless the receiver is gone. -/
def push (s : Connector N O σ M) (v : Option M) : WatchState M :=
  match s.alive, v with
  | true, some m =>
      { s.channel with
        sent := s.channel.sent + 1
        queue := s.channel.queue ++ [(m, s.channel.sent)] }
  | _, _ => s.channel

end Connector

/-- An action: the next subscription succeeds or fails; a task takes a step; a call is made; the
call first in line gets the lock; the call that holds the receiver receives; the exchange is
dropped. -/
inductive ConnectorAction (N : Type)
  | subscribe (succeeds : Bool)
  | task (i : ℕ) (a : TaskAction N)
  | call (symbol : String)
  | lock
  | recv
  | drop
deriving DecidableEq

variable [HasSymbol M]

/-- One action. -/
def connectorStep (h : FeedHandler N O σ M) (s : Connector N O σ M) :
    ConnectorAction N → Option (Connector N O σ M)
  | .subscribe succeeds =>
      match s.alive, s.toLoad with
      | true, symbol :: toLoad =>
          if succeeds then
            some { s with toLoad := toLoad, tasks := s.tasks ++ [(symbol, .spawn h.init)] }
          else
            -- loading panics, and the exchange is dropped
            some { s with toLoad := [], alive := false }
      | _, _ => none
  | .task i a =>
      match s.tasks[i]? with
      | none => none
      | some (symbol, t) =>
          (t.step (h.body symbol) a).map fun u =>
            { s with
              tasks := s.tasks.set i (symbol, u)
              channel := s.push ((t.emits a).bind h.select) }
  | .call symbol =>
      match s.alive, s.toLoad with
      | true, [] => (watchStep s.channel (.call symbol)).map fun c => { s with channel := c }
      | _, _ => none
  | .lock => (watchStep s.channel .lock).map fun c => { s with channel := c }
  | .recv =>
      match s.channel.holder, s.channel.queue, s.senders with
      | some c, [], 0 =>
          -- `recv` answers `none`, and the watcher panics
          some { s with
            channel := { s.channel with holder := none }
            panicked := s.panicked ++ [c] }
      | _, _, _ => (watchStep s.channel .recv).map fun c => { s with channel := c }
  | .drop =>
      match s.alive, s.toLoad, s.channel.line with
      | true, [], [] => some { s with alive := false }
      | _, _, _ => none

/-- What an action is to the channel. -/
def Connector.watched (h : FeedHandler N O σ M) (s : Connector N O σ M) :
    ConnectorAction N → Option (WatchAction M)
  | .task i a =>
      if s.alive then
        (s.tasks[i]?.bind fun e => (e.2.emits a).bind h.select).map .send
      else none
  | .call symbol => some (.call symbol)
  | .lock => some .lock
  | .recv => some .recv
  | _ => none

variable {h : FeedHandler N O σ M}

/-- **What an action can do.** -/
theorem connectorStep_cases {s u : Connector N O σ M} {a : ConnectorAction N}
    (hstep : connectorStep h s a = some u) :
    (∃ symbol toLoad, a = .subscribe true ∧ s.alive = true ∧ s.toLoad = symbol :: toLoad ∧
        u = { s with toLoad := toLoad, tasks := s.tasks ++ [(symbol, .spawn h.init)] }) ∨
      (∃ symbol toLoad, a = .subscribe false ∧ s.alive = true ∧ s.toLoad = symbol :: toLoad ∧
        u = { s with toLoad := [], alive := false }) ∨
      (∃ i b symbol t t', a = .task i b ∧ s.tasks[i]? = some (symbol, t) ∧
        t.step (h.body symbol) b = some t' ∧
        u = { s with
          tasks := s.tasks.set i (symbol, t'), channel := s.push ((t.emits b).bind h.select) }) ∨
      (∃ b c, s.watched h a = some b ∧ watchStep s.channel b = some c ∧
        (∀ symbol, a = .call symbol → s.alive = true ∧ s.toLoad = []) ∧ (∀ i b', a ≠ .task i b') ∧
        u = { s with channel := c }) ∨
      (∃ c, a = .recv ∧ s.channel.holder = some c ∧ s.channel.queue = [] ∧ s.senders = 0 ∧
        u = { s with
          channel := { s.channel with holder := none }, panicked := s.panicked ++ [c] }) ∨
      (a = .drop ∧ s.alive = true ∧ s.toLoad = [] ∧ s.channel.line = [] ∧
        u = { s with alive := false }) := by
  cases a with
  | subscribe succeeds =>
      rw [connectorStep] at hstep
      split at hstep
      · rename_i symbol toLoad halive hload
        cases succeeds with
        | true => exact Or.inl ⟨symbol, toLoad, rfl, halive, hload, (Option.some.inj hstep).symm⟩
        | false =>
            exact Or.inr (Or.inl ⟨symbol, toLoad, rfl, halive, hload,
              (Option.some.inj hstep).symm⟩)
      · cases hstep
  | task i b =>
      refine Or.inr (Or.inr (Or.inl ?_))
      rw [connectorStep] at hstep
      split at hstep
      · cases hstep
      · rename_i symbol t htask
        obtain ⟨t', ht', rfl⟩ := Option.map_eq_some_iff.1 hstep
        exact ⟨i, b, symbol, t, t', rfl, htask, ht', rfl⟩
  | call symbol =>
      refine Or.inr (Or.inr (Or.inr (Or.inl ?_)))
      rw [connectorStep] at hstep
      split at hstep
      · rename_i halive hload
        obtain ⟨c, hc, rfl⟩ := Option.map_eq_some_iff.1 hstep
        exact ⟨.call symbol, c, rfl, hc, fun _ _ => ⟨halive, hload⟩, by simp, rfl⟩
      · cases hstep
  | lock =>
      obtain ⟨c, hc, rfl⟩ := Option.map_eq_some_iff.1 hstep
      exact Or.inr (Or.inr (Or.inr (Or.inl ⟨.lock, c, rfl, hc, by simp, by simp, rfl⟩)))
  | recv =>
      refine Or.inr (Or.inr (Or.inr ?_))
      rw [connectorStep] at hstep
      split at hstep
      · rename_i c hholder hqueue hsenders
        exact Or.inr (Or.inl ⟨c, rfl, hholder, hqueue, hsenders, (Option.some.inj hstep).symm⟩)
      · obtain ⟨c, hc, rfl⟩ := Option.map_eq_some_iff.1 hstep
        exact Or.inl ⟨.recv, c, rfl, hc, by simp, by simp, rfl⟩
  | drop =>
      refine Or.inr (Or.inr (Or.inr (Or.inr (Or.inr ?_))))
      rw [connectorStep] at hstep
      split at hstep
      · rename_i halive hload hline
        exact ⟨rfl, halive, hload, hline, (Option.some.inj hstep).symm⟩
      · cases hstep

/-! ### What holds in every state -/

/-- The tasks follow their loops; calls are only under way while the exchange is there, with its
markets loaded; and no watcher has panicked. -/
structure Connector.Sound (h : FeedHandler N O σ M) (s : Connector N O σ M) : Prop where
  follows : ∀ e ∈ s.tasks, e.2.FollowsLoop (h.body e.1) (h.onMessage e.1) h.init
  borrowed : s.channel.line ≠ [] → s.alive = true ∧ s.toLoad = []
  panicked : s.panicked = []

theorem Connector.sound_start (symbols : List String) :
    (Connector.start symbols : Connector N O σ M).Sound h :=
  ⟨by simp [start], by simp [start, WatchState.line, WatchState.start], rfl⟩

omit [HasSymbol M] in
/-- What is sent changes no line. -/
@[simp] theorem Connector.line_push (s : Connector N O σ M) (v : Option M) :
    (s.push v).line = s.channel.line := by
  unfold push
  split <;> rfl

/-- A line that was empty is so after anything but a call. -/
theorem line_of_watchStep {s t : WatchState M} {a : WatchAction M} (h : watchStep s a = some t)
    (hline : t.line ≠ []) : s.line ≠ [] ∨ ∃ symbol, a = .call symbol := by
  rcases watchStep_cases h with ⟨m, rfl, rfl⟩ | ⟨symbol, rfl, rfl⟩ |
    ⟨c, waiting, rfl, hholder, hwaiting, rfl⟩ | ⟨c, e, queue, rfl, hholder, -, hturn⟩
  · exact Or.inl hline
  · exact Or.inr ⟨symbol, rfl⟩
  · exact Or.inl (by simp [WatchState.line, hwaiting])
  · exact Or.inl (by simp [WatchState.line, hholder])

/-- While a call is under way the channel has a sender, so `recv` does not answer `none`. -/
theorem Connector.Sound.senders_ne_zero {s : Connector N O σ M} (hs : s.Sound h)
    {c : WatchCall} (hholder : s.channel.holder = some c) : s.senders ≠ 0 := by
  have halive := (hs.borrowed (by simp [WatchState.line, hholder])).1
  rw [senders, halive]
  simp

/-- An action keeps it. -/
theorem Connector.Sound.step {s u : Connector N O σ M} {a : ConnectorAction N} (hs : s.Sound h)
    (hstep : connectorStep h s a = some u) : u.Sound h := by
  rcases connectorStep_cases hstep with ⟨symbol, toLoad, rfl, halive, hload, rfl⟩ |
    ⟨symbol, toLoad, rfl, halive, hload, rfl⟩ | ⟨i, b, symbol, t, t', rfl, htask, ht', rfl⟩ |
    ⟨b, c, hb, hc, hcall, -, rfl⟩ | ⟨c, rfl, hholder, -, hsenders, rfl⟩ |
    ⟨rfl, halive, hload, hline, rfl⟩
  · refine ⟨fun e he => ?_, fun hline => ?_, hs.panicked⟩
    · rcases List.mem_append.1 he with he | he
      · exact hs.follows e he
      · rw [List.mem_singleton.1 he]
        exact ReceiveTask.followsLoop_spawn
    · exact absurd (hs.borrowed hline).2 (by simp [hload])
  · refine ⟨hs.follows, fun hline => ?_, hs.panicked⟩
    exact absurd (hs.borrowed hline).2 (by simp [hload])
  · refine ⟨fun e he => ?_, fun hline => hs.borrowed (by simpa using hline), hs.panicked⟩
    rcases List.mem_or_eq_of_mem_set he with he | rfl
    · exact hs.follows e he
    · exact (hs.follows (symbol, t) (List.mem_of_getElem? htask)).step (h.body_some symbol)
        (h.quiet symbol) ht'
  · refine ⟨hs.follows, fun hline => ?_, hs.panicked⟩
    rcases line_of_watchStep hc hline with hline | ⟨symbol, rfl⟩
    · exact hs.borrowed hline
    · cases a with
      | call symbol' => exact hcall symbol' rfl
      | task i b' =>
          simp only [watched] at hb
          split_ifs at hb
          obtain ⟨v, -, hv⟩ := Option.map_eq_some_iff.1 hb
          cases hv
      | _ => cases hb
  · exact absurd hsenders (hs.senders_ne_zero hholder)
  · exact ⟨hs.follows, fun hne => absurd hline hne, hs.panicked⟩

/-- **What holds in every state** of an exchange, from the start of the loading on. -/
theorem connector_sound {symbols : List String} {acts : List (ConnectorAction N)}
    {s : Connector N O σ M}
    (hrun : Transition.exec (connectorStep h) (.start symbols) acts = some s) : s.Sound h :=
  Transition.exec_invariant (fun _ _ _ hs hstep => Connector.Sound.step hs hstep)
    (Connector.sound_start symbols) hrun

/-! ### The channel of a connector is a shared channel -/

/-- Each step of a connector is a step of its channel, or none. -/
theorem Connector.Sound.watch_step {s u : Connector N O σ M} {a : ConnectorAction N}
    (hs : s.Sound h) (hstep : connectorStep h s a = some u) :
    Transition.exec watchStep s.channel (s.watched h a).toList = some u.channel := by
  rcases connectorStep_cases hstep with ⟨symbol, toLoad, rfl, -, -, rfl⟩ |
    ⟨symbol, toLoad, rfl, -, -, rfl⟩ | ⟨i, b, symbol, t, t', rfl, htask, -, rfl⟩ |
    ⟨b, c, hb, hc, -, -, rfl⟩ | ⟨c, rfl, hholder, -, hsenders, rfl⟩ | ⟨rfl, -, -, -, rfl⟩
  · rfl
  · rfl
  · simp only [watched, htask, Option.bind_some, push]
    cases s.alive with
    | false => rfl
    | true => cases (t.emits b).bind h.select <;> rfl
  · rw [hb, Option.toList_some, Transition.exec_cons, hc]
    rfl
  · exact absurd hsenders (hs.senders_ne_zero hholder)
  · rfl

/-- The actions of a run that concern the channel. -/
def watchedIn (h : FeedHandler N O σ M) (symbols : List String) (acts : List (ConnectorAction N)) :
    List (WatchAction M) :=
  Transition.observed (connectorStep h) (fun s a => s.watched h a) (.start symbols) acts

/-- **The channel of a connector is a shared channel**: what happens to it in a run of the connector
is a run of the channel with its callers and producers. -/
theorem connector_watches {symbols : List String} {acts : List (ConnectorAction N)}
    {s : Connector N O σ M}
    (hrun : Transition.exec (connectorStep h) (.start symbols) acts = some s) :
    Transition.exec watchStep .start (watchedIn h symbols acts) = some s.channel :=
  Transition.exec_observed (f := Connector.channel) (Connector.sound_start symbols)
    (fun _ _ _ hs hstep => hs.step hstep) (fun _ _ _ hs hstep => hs.watch_step hstep) hrun

/-- **No watcher ever meets a closed channel**: in every state of every run the channel is one the
watchers know, none of them has panicked, and while a call is under way there is a sender. -/
theorem channel_stays_open {symbols : List String} {acts : List (ConnectorAction N)}
    {s : Connector N O σ M}
    (hrun : Transition.exec (connectorStep h) (.start symbols) acts = some s) :
    Transition.exec watchStep .start (watchedIn h symbols acts) = some s.channel ∧
      s.panicked = [] ∧ (s.channel.line ≠ [] → s.senders ≠ 0) := by
  have hsound := connector_sound hrun
  refine ⟨connector_watches hrun, hsound.panicked, fun hline => ?_⟩
  rw [Connector.senders, (hsound.borrowed hline).1]
  simp

end MarketMaker
