/-
**The watchers of a shared channel.**

The feed tasks of all symbols send on one unbounded channel, and its receiver is behind a mutex.  A
call that watches a symbol locks the receiver and receives until a message has its symbol, which it
returns; the messages of other symbols it meets on the way are received and passed over.  The mutex
is granted in the order in which it was asked for.

The channel is never closed while a call is under way, since the exchange that is called keeps a
sender of its own.  Messages and calls are numbered, to tell apart those that are equal.

* `watchTrades`, `watchOrderBook` — one turn of the two loops;
* `WatchState`, `watchStep` — the channel with its callers and producers;
* `watchStep_trades`, `watchStep_orderBook` — a call that receives takes one of these turns;
* `watchStep_cases` — what a step can do;
* `sentIn`, `channel_history` — **the messages returned and queued are, in order, among those
  sent**.
-/

import MarketMaker.Ccxt
import MarketMaker.Transition

set_option relaxedAutoImplicit false
set_option autoImplicit false

namespace MarketMaker

/-- Messages that are about a symbol. -/
class HasSymbol (M : Type) where
  symbol : M → String

instance {D : Type} : HasSymbol (CcxtTrade D) := ⟨CcxtTrade.symbol⟩

instance {D : Type} : HasSymbol (CcxtOrderBook D) := ⟨CcxtOrderBook.symbol⟩

variable {M : Type} [HasSymbol M]

/-- One turn of a watcher's loop: the message it returns, or nothing when it goes on. -/
def watchTurn (symbol : String) (received : M) : Option M :=
  if HasSymbol.symbol received = symbol then some received else none

def watchTrades {D : Type} (symbol : String) (trade : CcxtTrade D) : Option (CcxtTrade D) :=
  watchTurn symbol trade

def watchOrderBook {D : Type} (symbol : String) (ob : CcxtOrderBook D) :
    Option (CcxtOrderBook D) :=
  watchTurn symbol ob

theorem watchTurn_of_eq {symbol : String} {m : M} (h : HasSymbol.symbol m = symbol) :
    watchTurn symbol m = some m := if_pos h

theorem watchTurn_of_ne {symbol : String} {m : M} (h : HasSymbol.symbol m ≠ symbol) :
    watchTurn symbol m = none := if_neg h

/-- A call that watches a symbol. -/
structure WatchCall where
  id : ℕ
  symbol : String
deriving DecidableEq, Repr

/-- The channel and the calls. -/
structure WatchState (M : Type) where
  /-- The number of messages sent. -/
  sent : ℕ
  /-- The messages in the channel with their numbers, oldest first. -/
  queue : List (M × ℕ)
  /-- The number of calls made. -/
  calls : ℕ
  /-- The calls that wait for the lock, oldest first. -/
  waiting : List WatchCall
  /-- The call that holds the receiver. -/
  holder : Option WatchCall
  /-- The calls that have returned with what they returned, oldest first. -/
  returned : List (WatchCall × M × ℕ)

namespace WatchState

/-- No messages and no calls. -/
def start : WatchState M := ⟨0, [], 0, [], none, []⟩

/-- The calls that have not returned, in the order in which they will hold the receiver. -/
def line (s : WatchState M) : List WatchCall := s.holder.toList ++ s.waiting

/-- The messages returned to calls for a symbol, in order. -/
def returnedFor (s : WatchState M) (symbol : String) : List M :=
  (s.returned.filter fun e => e.1.symbol = symbol).map fun e => e.2.1

end WatchState

/-- An action: a feed task sends; a call is made; the call first in line gets the lock; the call
that holds the receiver receives. -/
inductive WatchAction (M : Type)
  | send (m : M)
  | call (symbol : String)
  | lock
  | recv
deriving DecidableEq

/-- One action. -/
def watchStep (s : WatchState M) : WatchAction M → Option (WatchState M)
  | .send m => some { s with sent := s.sent + 1, queue := s.queue ++ [(m, s.sent)] }
  | .call symbol =>
      some { s with calls := s.calls + 1, waiting := s.waiting ++ [⟨s.calls, symbol⟩] }
  | .lock =>
      match s.holder, s.waiting with
      | none, c :: waiting => some { s with holder := some c, waiting := waiting }
      | _, _ => none
  | .recv =>
      match s.holder, s.queue with
      | some c, e :: queue =>
          match watchTurn c.symbol e.1 with
          | some m =>
              -- the call returns, and the lock is released
              let returned := s.returned ++ [(c, m, e.2)]
              some { s with queue := queue, holder := none, returned := returned }
          | none => some { s with queue := queue }
      | _, _ => none

/-- The state after a turn of a call that has received a message: the call returns what the turn
gives and lets go of the receiver, or goes on. -/
def WatchState.afterTurn (s : WatchState M) (c : WatchCall) (number : ℕ) (queue : List (M × ℕ)) :
    Option M → WatchState M
  | some m => { s with
      queue := queue, holder := none, returned := s.returned ++ [(c, m, number)] }
  | none => { s with queue := queue }

/-- **A call that receives takes one turn.** -/
theorem watchStep_recv {s : WatchState M} {c : WatchCall} {e : M × ℕ} {queue : List (M × ℕ)}
    (hholder : s.holder = some c) (hqueue : s.queue = e :: queue) :
    watchStep s .recv = some (s.afterTurn c e.2 queue (watchTurn c.symbol e.1)) := by
  cases hturn : watchTurn c.symbol e.1 with
  | none => simp only [watchStep, hholder, hqueue, hturn, WatchState.afterTurn]
  | some m => simp only [watchStep, hholder, hqueue, hturn, WatchState.afterTurn]

/-- On the channel of the trades it is one of `watchTrades`. -/
theorem watchStep_trades {D : Type} {s : WatchState (CcxtTrade D)} {c : WatchCall}
    {e : CcxtTrade D × ℕ} {queue : List (CcxtTrade D × ℕ)} (hholder : s.holder = some c)
    (hqueue : s.queue = e :: queue) :
    watchStep s .recv = some (s.afterTurn c e.2 queue (watchTrades c.symbol e.1)) :=
  watchStep_recv hholder hqueue

/-- On the channel of the books it is one of `watchOrderBook`. -/
theorem watchStep_orderBook {D : Type} {s : WatchState (CcxtOrderBook D)} {c : WatchCall}
    {e : CcxtOrderBook D × ℕ} {queue : List (CcxtOrderBook D × ℕ)} (hholder : s.holder = some c)
    (hqueue : s.queue = e :: queue) :
    watchStep s .recv = some (s.afterTurn c e.2 queue (watchOrderBook c.symbol e.1)) :=
  watchStep_recv hholder hqueue

/-- The message an action sends. -/
def WatchAction.message {M : Type} : WatchAction M → Option M
  | .send m => some m
  | _ => none

/-- The messages sent in a run, in order. -/
def sentIn {M : Type} (acts : List (WatchAction M)) : List M := acts.filterMap WatchAction.message

/-- **What an action can do.** -/
theorem watchStep_cases {s t : WatchState M} {a : WatchAction M} (h : watchStep s a = some t) :
    (∃ m, a = .send m ∧
        t = { s with sent := s.sent + 1, queue := s.queue ++ [(m, s.sent)] }) ∨
      (∃ symbol, a = .call symbol ∧
        t = { s with calls := s.calls + 1, waiting := s.waiting ++ [⟨s.calls, symbol⟩] }) ∨
      (∃ c waiting, a = .lock ∧ s.holder = none ∧ s.waiting = c :: waiting ∧
        t = { s with holder := some c, waiting := waiting }) ∨
      (∃ c e queue, a = .recv ∧ s.holder = some c ∧ s.queue = e :: queue ∧
        ((HasSymbol.symbol e.1 = c.symbol ∧
            t = { s with queue := queue, holder := none, returned := s.returned ++ [(c, e)] }) ∨
          (HasSymbol.symbol e.1 ≠ c.symbol ∧ t = { s with queue := queue }))) := by
  cases a with
  | send m => exact Or.inl ⟨m, rfl, (Option.some.inj h).symm⟩
  | call symbol => exact Or.inr (Or.inl ⟨symbol, rfl, (Option.some.inj h).symm⟩)
  | lock =>
      rw [watchStep] at h
      split at h
      · rename_i c waiting hholder hwaiting
        obtain rfl := Option.some.inj h
        exact Or.inr (Or.inr (Or.inl ⟨c, waiting, rfl, hholder, hwaiting, rfl⟩))
      · cases h
  | recv =>
      refine Or.inr (Or.inr (Or.inr ?_))
      rw [watchStep] at h
      split at h
      · rename_i c e queue hholder hqueue
        refine ⟨c, e, queue, rfl, hholder, hqueue, ?_⟩
        by_cases hsymbol : HasSymbol.symbol e.1 = c.symbol
        · rw [watchTurn_of_eq hsymbol] at h
          exact Or.inl ⟨hsymbol, (Option.some.inj h).symm⟩
        · rw [watchTurn_of_ne hsymbol] at h
          exact Or.inr ⟨hsymbol, (Option.some.inj h).symm⟩
      · cases h

/-! ### What is returned and queued is among what was sent -/

/-- What holds of the messages sent so far and the channel: the messages returned and then those
queued are, with their numbers and in order, among those sent; and each was returned to a call for
its symbol. -/
structure ChannelHistory (sent : List M) (s : WatchState M) : Prop where
  count : s.sent = sent.length
  sublist : (s.returned.map Prod.snd ++ s.queue).Sublist sent.zipIdx
  matched : ∀ e ∈ s.returned, HasSymbol.symbol e.2.1 = e.1.symbol

omit [HasSymbol M] in
theorem zipIdx_concat (sent : List M) (m : M) :
    (sent ++ [m]).zipIdx = sent.zipIdx ++ [(m, sent.length)] := by
  simp [List.zipIdx_append]

omit [HasSymbol M] in
theorem sentIn_concat (acts : List (WatchAction M)) (a : WatchAction M) :
    sentIn (acts ++ [a]) = sentIn acts ++ a.message.toList := by
  rw [sentIn, List.filterMap_append]
  cases h : a.message <;> simp [sentIn, h]

/-- An action keeps it. -/
theorem ChannelHistory.step {sent : List M} {s t : WatchState M} {a : WatchAction M}
    (hs : ChannelHistory sent s) (h : watchStep s a = some t) :
    ChannelHistory (sent ++ a.message.toList) t := by
  rcases watchStep_cases h with ⟨m, rfl, rfl⟩ | ⟨symbol, rfl, rfl⟩ |
    ⟨c, waiting, rfl, -, -, rfl⟩ | ⟨c, e, queue, rfl, hholder, hqueue, hturn⟩
  · refine ⟨?_, ?_, hs.matched⟩
    · simp [WatchAction.message, hs.count]
    · show (s.returned.map Prod.snd ++ (s.queue ++ [(m, s.sent)])).Sublist (sent ++ [m]).zipIdx
      rw [zipIdx_concat, ← List.append_assoc, hs.count]
      exact hs.sublist.append_right _
  · simp only [WatchAction.message, Option.toList_none, List.append_nil]
    exact ⟨hs.count, hs.sublist, hs.matched⟩
  · simp only [WatchAction.message, Option.toList_none, List.append_nil]
    exact ⟨hs.count, hs.sublist, hs.matched⟩
  · simp only [WatchAction.message, Option.toList_none, List.append_nil]
    have hsub := hs.sublist
    rw [hqueue] at hsub
    rcases hturn with ⟨hsymbol, rfl⟩ | ⟨-, rfl⟩
    · refine ⟨hs.count, ?_, ?_⟩
      · rw [List.map_append, List.append_assoc]
        exact hsub
      · intro e' he'
        rcases List.mem_append.1 he' with he' | he'
        · exact hs.matched e' he'
        · rw [List.mem_singleton] at he'
          exact he' ▸ hsymbol
    · exact ⟨hs.count, ((List.sublist_cons_self e queue).append_left _).trans hsub, hs.matched⟩

/-- **The messages returned and queued are, in order, among those sent.** -/
theorem channel_history {acts : List (WatchAction M)} {s : WatchState M}
    (h : Transition.exec watchStep .start acts = some s) : ChannelHistory (sentIn acts) s := by
  refine Transition.exec_history (I := fun acts s => ChannelHistory (sentIn acts) s) ?_ ?_ h
  · exact ⟨rfl, List.nil_sublist _, by simp [WatchState.start]⟩
  · intro acts s a t hs hstep
    rw [sentIn_concat]
    exact hs.step hstep

/-- The numbers of the messages returned and queued are distinct. -/
theorem ChannelHistory.numbers {sent : List M} {s : WatchState M} (h : ChannelHistory sent s) :
    ((s.returned.map fun e => e.2.2) ++ s.queue.map Prod.snd).Nodup := by
  have hsub := h.sublist.map Prod.snd
  rw [List.map_append, List.map_map] at hsub
  exact hsub.nodup (List.nodup_zipIdx_map_snd sent)

/-- What calls for a symbol returned is what was returned and has the symbol. -/
theorem ChannelHistory.returnedFor_eq {sent : List M} {s : WatchState M}
    (hs : ChannelHistory sent s) (symbol : String) :
    s.returnedFor symbol =
      (s.returned.map fun e => e.2.1).filter fun m => HasSymbol.symbol m = symbol := by
  rw [WatchState.returnedFor, List.filter_map]
  congr 1
  refine List.filter_congr fun e he => ?_
  simp [hs.matched e he]

/-- The messages returned are, in order, among those sent. -/
theorem ChannelHistory.returned_sublist {sent : List M} {s : WatchState M}
    (h : ChannelHistory sent s) : (s.returned.map fun e => e.2.1).Sublist sent := by
  have hsub := ((List.sublist_append_left _ _).trans h.sublist).map Prod.fst
  rwa [List.map_map, List.zipIdx_map_fst] at hsub

/-- A queued message was sent. -/
theorem ChannelHistory.sent_of_queued {sent : List M} {s : WatchState M}
    (h : ChannelHistory sent s) {m : M} {n : ℕ} (hmem : (m, n) ∈ s.queue) :
    sent[n]? = some m :=
  List.mk_mem_zipIdx_iff_getElem?.1 (h.sublist.subset (List.mem_append_right _ hmem))

end MarketMaker
