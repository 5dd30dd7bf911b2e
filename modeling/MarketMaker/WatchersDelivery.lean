/-
**What the watchers of a shared channel deliver.**

A value is lost when another call receives it (`MarketMaker/WatchersLoss.lean`), but what is
returned is right: every value returned was sent and has the symbol asked for, no value is returned
to two calls, and values are returned in the order in which they were sent.

* `callsIn`, `CallHistory` — the calls made in a run; those that have returned and those in line are
  all of them, in the order in which they were made;
* `watchers_deliver` — **the values returned**, in every interleaving of calls and sends.
-/

import MarketMaker.Watchers

set_option relaxedAutoImplicit false
set_option autoImplicit false

namespace MarketMaker

variable {M : Type} [HasSymbol M]

/-! ### The calls made -/

/-- The symbol an action asks for, if it is a call. -/
def WatchAction.asked {M : Type} : WatchAction M → Option String
  | .call symbol => some symbol
  | _ => none

/-- The symbols of the calls made in a run, in order. -/
def callsIn {M : Type} (acts : List (WatchAction M)) : List String :=
  acts.filterMap WatchAction.asked

/-- The calls made, with their numbers. -/
def numberedCalls (made : List String) : List WatchCall := made.zipIdx.map fun e => ⟨e.2, e.1⟩

/-- What holds of the calls made so far and the channel: those that have returned and then those in
line are all calls made, in order. -/
structure CallHistory {M : Type} (made : List String) (s : WatchState M) : Prop where
  count : s.calls = made.length
  calls : s.returned.map Prod.fst ++ s.line = numberedCalls made

theorem numberedCalls_concat (made : List String) (symbol : String) :
    numberedCalls (made ++ [symbol]) = numberedCalls made ++ [⟨made.length, symbol⟩] := by
  simp [numberedCalls, List.zipIdx_append]

/-- An action keeps it. -/
theorem CallHistory.step {made : List String} {s t : WatchState M} {a : WatchAction M}
    (hs : CallHistory made s) (h : watchStep s a = some t) :
    CallHistory (made ++ a.asked.toList) t := by
  rcases watchStep_cases h with ⟨m, rfl, rfl⟩ | ⟨symbol, rfl, rfl⟩ |
    ⟨c, waiting, rfl, hholder, hwaiting, rfl⟩ | ⟨c, e, queue, rfl, hholder, hqueue, hturn⟩
  · simp only [WatchAction.asked, Option.toList_none, List.append_nil]
    exact ⟨hs.count, hs.calls⟩
  · refine ⟨by simp [WatchAction.asked, hs.count], ?_⟩
    rw [WatchAction.asked, Option.toList_some, numberedCalls_concat, ← hs.calls, ← hs.count]
    simp [WatchState.line]
  · simp only [WatchAction.asked, Option.toList_none, List.append_nil]
    refine ⟨hs.count, ?_⟩
    rw [← hs.calls]
    simp [WatchState.line, hholder, hwaiting]
  · simp only [WatchAction.asked, Option.toList_none, List.append_nil]
    rcases hturn with ⟨-, rfl⟩ | ⟨-, rfl⟩
    · refine ⟨hs.count, ?_⟩
      rw [← hs.calls]
      simp [WatchState.line, hholder]
    · exact ⟨hs.count, hs.calls⟩

/-- **The calls that have returned and those in line are all calls made**, in order. -/
theorem call_history {acts : List (WatchAction M)} {s : WatchState M}
    (h : Transition.exec watchStep .start acts = some s) : CallHistory (callsIn acts) s := by
  refine Transition.exec_history (I := fun acts s => CallHistory (callsIn acts) s) ?_ ?_ h
  · exact ⟨rfl, rfl⟩
  · intro acts s a t hs hstep
    have hcalls : callsIn (acts ++ [a]) = callsIn acts ++ a.asked.toList := by
      rw [callsIn, List.filterMap_append]
      cases ha : a.asked <;> simp [callsIn, ha]
    rw [hcalls]
    exact hs.step hstep

omit [HasSymbol M] in
theorem CallHistory.asked {made : List String} {s : WatchState M} (h : CallHistory made s)
    {e : WatchCall × M × ℕ} (he : e ∈ s.returned) : made[e.1.id]? = some e.1.symbol := by
  have hmem : e.1 ∈ numberedCalls made := by
    rw [← h.calls]
    exact List.mem_append_left _ (List.mem_map_of_mem he)
  obtain ⟨⟨symbol, id⟩, hzip, heq⟩ := List.mem_map.1 hmem
  rw [← heq]
  exact List.mk_mem_zipIdx_iff_getElem?.1 hzip

omit [HasSymbol M] in
/-- A call returns once. -/
theorem CallHistory.nodup {made : List String} {s : WatchState M} (h : CallHistory made s) :
    (s.returned.map fun e => e.1.id).Nodup := by
  have hids : ((numberedCalls made).map WatchCall.id).Nodup := by
    rw [numberedCalls, List.map_map]
    exact List.nodup_zipIdx_map_snd made
  rw [← h.calls, List.map_append, List.map_map] at hids
  exact (List.nodup_append.1 hids).1

/-! ### The values returned -/

/-- A message returned was sent. -/
theorem ChannelHistory.sent_of_returned {sent : List M} {s : WatchState M}
    (h : ChannelHistory sent s) {e : WatchCall × M × ℕ} (he : e ∈ s.returned) :
    sent[e.2.2]? = some e.2.1 :=
  List.mk_mem_zipIdx_iff_getElem?.1
    (h.sublist.subset (List.mem_append_left _ (List.mem_map_of_mem he)))

/-- The messages returned are in the order of their numbers. -/
theorem ChannelHistory.ordered {sent : List M} {s : WatchState M} (h : ChannelHistory sent s) :
    (s.returned.map fun e => e.2.2).Pairwise (· < ·) := by
  have hsub := ((List.sublist_append_left _ _).trans h.sublist).map Prod.snd
  rw [List.map_map, List.zipIdx_map_snd] at hsub
  exact List.Pairwise.sublist hsub List.pairwise_lt_range'

/-- **What the watchers deliver**, in every interleaving of calls for any symbols with sends of any
feed tasks: each value returned was sent, to a call that asked for its symbol; no value is returned
to two calls, and no call returns twice; and of two values returned, whatever their symbols, the one
sent first is returned first. -/
theorem watchers_deliver {acts : List (WatchAction M)} {s : WatchState M}
    (h : Transition.exec watchStep .start acts = some s) :
    (∀ e ∈ s.returned, (sentIn acts)[e.2.2]? = some e.2.1 ∧
        (callsIn acts)[e.1.id]? = some e.1.symbol ∧ HasSymbol.symbol e.2.1 = e.1.symbol) ∧
      (s.returned.map fun e => e.2.2).Nodup ∧ (s.returned.map fun e => e.1.id).Nodup ∧
      ∀ (i j : ℕ) (e e' : WatchCall × M × ℕ), s.returned[i]? = some e → s.returned[j]? = some e' →
        e.2.2 < e'.2.2 → i < j := by
  have hchannel := channel_history h
  have hcalls := call_history h
  refine ⟨fun e he => ⟨hchannel.sent_of_returned he, hcalls.asked he, hchannel.matched e he⟩,
    hchannel.ordered.imp ne_of_lt, hcalls.nodup, ?_⟩
  intro i j e e' hi hj hlt
  by_contra hle
  rcases Nat.lt_or_eq_of_le (Nat.le_of_not_lt hle) with hji | rfl
  · have hordered := List.pairwise_map.1 hchannel.ordered
    rw [List.pairwise_iff_getElem] at hordered
    obtain ⟨hi', rfl⟩ := List.getElem?_eq_some_iff.1 hi
    obtain ⟨hj', rfl⟩ := List.getElem?_eq_some_iff.1 hj
    exact absurd (hordered j i hj' hi' hji) (Nat.lt_asymm hlt)
  · obtain rfl := Option.some.inj (hi.symm.trans hj)
    exact Nat.lt_irrefl _ hlt

/-- Two watchers of one symbol, a message for another in between. -/
private def twoWatchers : List (WatchAction (CcxtTrade ℚ)) :=
  [.call "BTC-USD", .call "BTC-USD", .lock,
    .send ⟨"1", 0, ⟨0⟩, "BTC-USD", none, some .buy, 100, 1⟩, .recv, .lock,
    .send ⟨"2", 0, ⟨0⟩, "ETH-USD", none, some .buy, 3000, 1⟩, .recv,
    .send ⟨"3", 0, ⟨0⟩, "BTC-USD", none, some .buy, 101, 1⟩, .recv]

theorem watchers_deliver_sample :
    ∃ s, Transition.exec watchStep .start twoWatchers = some s ∧ s.returned.length = 2 ∧
      (s.returned.map fun e => e.2.2).Nodup :=
  ⟨_, rfl, rfl, (watchers_deliver
    (show Transition.exec watchStep .start twoWatchers = some _ from rfl)).2.1⟩

end MarketMaker
