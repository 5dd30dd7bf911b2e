/-
**The trades of the rolling window.**

The prices of trades are kept in an expiration buffer, for the trades of a rolling window of time.
The buffer evicts where it is read, and the message handler only adds; so the buffer keeps every
trade of the run, and is the window only as long as the run is.

* `addedTrades` — the trades a run of messages adds, with the readings of the clock;
* `trades_handleAll` — **the buffer holds all of them**;
* `RollingWindow` — what the buffer holds is young, and no more than the trades of the window;
* `window_holds_iff` — **the buffer is the rolling window throughout a run if and only if the run's
  trades are less than the ttl apart**.
-/

import MarketMaker.LifeCycle

set_option relaxedAutoImplicit false
set_option autoImplicit false

namespace MarketMaker

open Panicking

variable {D F : Type}

/-- The trade a message adds, handled at a reading of the clock. -/
def addedTrade : CcxtMessage D F × ℕ → Option (ℕ × D)
  | (.ccxtTrade update, now) => some (now, update.price)
  | _ => none

/-- The trades a run of messages adds. -/
def addedTrades (msgs : List (CcxtMessage D F × ℕ)) : List (ℕ × D) := msgs.filterMap addedTrade

theorem addedTrades_append (msgs msgs' : List (CcxtMessage D F × ℕ)) :
    addedTrades (msgs ++ msgs') = addedTrades msgs ++ addedTrades msgs' :=
  List.filterMap_append

/-- The trades among the messages, with the messages before them. -/
theorem mem_addedTrades {msgs : List (CcxtMessage D F × ℕ)} {e : ℕ × D}
    (h : e ∈ addedTrades msgs) :
    ∃ before update later, msgs = before ++ (.ccxtTrade update, e.1) :: later ∧
      e = (e.1, update.price) := by
  obtain ⟨⟨message, now⟩, hmem, hadded⟩ := List.mem_filterMap.1 h
  obtain ⟨before, later, hsplit⟩ := List.append_of_mem hmem
  cases message with
  | ccxtTrade update =>
      obtain rfl : (now, update.price) = e := Option.some.inj hadded
      exact ⟨before, update, later, hsplit, rfl⟩
  | _ => cases hadded

variable [DecimalOps D]

/-! ### What the buffer holds -/

/-- **One message** adds its trade to the buffer and nothing else. -/
theorem trades_after_handleMessage {stores : Stores D} (hs : stores.Initialized)
    {ttl : ℕ} {inner : List (ℕ × D)} (htrades : stores.trades = some ⟨ttl, inner⟩)
    (exchangeName : String) (e : CcxtMessage D F × ℕ) :
    (after (handleMessage e.1 exchangeName e.2) stores).Initialized ∧
      (after (handleMessage e.1 exchangeName e.2) stores).trades =
        some ⟨ttl, inner ++ (addedTrade e).toList⟩ := by
  obtain ⟨message, now⟩ := e
  rcases after_handleMessage_cases hs message exchangeName now with
    ⟨update, rfl, hafter⟩ | ⟨update, quotes, rfl, hafter⟩ | ⟨hnot, hafter⟩
  · refine hafter.symm ▸ ⟨(hs.set _ _).addTrade _ _, ?_⟩
    change Option.map _ stores.trades = _
    rw [htrades]
    rfl
  · refine hafter.symm ▸ ⟨hs.setBook _ _ _, ?_⟩
    have hnone : addedTrade ((.ccxtOrderBook update : CcxtMessage D F), now) = none := rfl
    rw [hnone, Option.toList_none, List.append_nil]
    exact htrades
  · have hnone : addedTrade (message, now) = none := by
      cases message with
      | ccxtTrade update => exact absurd rfl (hnot update)
      | _ => rfl
    rw [hafter, hnone, Option.toList_none, List.append_nil]
    exact ⟨hs, htrades⟩

/-- **A run keeps every trade**: none of its messages takes one out. -/
theorem trades_handleAll {stores : Stores D} (hstate : stores.state.isSome) {ttl : ℕ}
    (htrades : stores.trades = some (.new ttl)) (exchangeName : String)
    (msgs : List (CcxtMessage D F × ℕ)) :
    (handleAll exchangeName msgs stores).Initialized ∧
      (handleAll exchangeName msgs stores).trades = some ⟨ttl, addedTrades msgs⟩ := by
  induction msgs using List.reverseRecOn with
  | nil => exact ⟨⟨hstate, by rw [handleAll, List.foldl_nil, htrades]; rfl⟩, htrades⟩
  | append_singleton msgs e ih =>
      obtain ⟨hs, hheld⟩ := ih
      have hadded : addedTrades [e] = (addedTrade e).toList := by
        unfold addedTrades
        cases haddedTrade : addedTrade e <;> simp [haddedTrade]
      rw [handleAll, List.foldl_concat, ← handleAll, addedTrades_append, hadded]
      exact trades_after_handleMessage hs hheld exchangeName e

/-! ### The window -/

/-- What the buffer holds is younger than the ttl at the reading `now`, and no more than the trades
added so far that are. -/
def RollingWindow (ttl now : ℕ) (adds : List (ℕ × D)) (stores : Stores D) : Prop :=
  ∃ trades, stores.trades = some trades ∧ (∀ e ∈ trades.inner, now - e.1 < ttl) ∧
    trades.inner.length ≤ (liveAt ttl now adds).length

omit [DecimalOps D] in
/-- A buffer that holds all trades is the window exactly if all trades are young. -/
theorem rollingWindow_iff {ttl now : ℕ} {adds : List (ℕ × D)} {stores : Stores D}
    (hheld : stores.trades = some ⟨ttl, adds⟩) :
    RollingWindow ttl now adds stores ↔ ∀ e ∈ adds, now - e.1 < ttl := by
  constructor
  · rintro ⟨trades, htrades, hyoung, -⟩
    obtain rfl := Option.some.inj (hheld.symm.trans htrades)
    exact hyoung
  · intro hyoung
    have hlive : liveAt ttl now adds = adds := by
      unfold liveAt
      exact List.filter_eq_self.2 fun e he => by simpa using hyoung e he
    exact ⟨_, hheld, hyoung, by rw [hlive]⟩

/-- **Where the buffer is the rolling window.**  In every run of messages whose readings of the
clock do not decrease, the buffer is the window after every trade added if and only if no two of
the run's trades are the ttl or more apart. -/
theorem window_holds_iff {stores : Stores D} (hstate : stores.state.isSome) {ttl : ℕ}
    (htrades : stores.trades = some (.new ttl)) (exchangeName : String)
    (msgs : List (CcxtMessage D F × ℕ)) (hclock : (msgs.map Prod.snd).Pairwise (· ≤ ·)) :
    (∀ before update now later, msgs = before ++ (.ccxtTrade update, now) :: later →
        RollingWindow ttl now (addedTrades (before ++ [(.ccxtTrade update, now)]))
          (handleAll exchangeName (before ++ [(.ccxtTrade update, now)]) stores)) ↔
      ∀ e ∈ addedTrades msgs, ∀ e' ∈ addedTrades msgs, e'.1 - e.1 < ttl := by
  have hwindow : ∀ before update now,
      RollingWindow ttl now (addedTrades (before ++ [(.ccxtTrade update, now)]))
          (handleAll exchangeName (before ++ [(.ccxtTrade update, now)]) stores) ↔
        ∀ e ∈ addedTrades (before ++ [((.ccxtTrade update : CcxtMessage D F), now)]),
          now - e.1 < ttl :=
    fun before update now => rollingWindow_iff (trades_handleAll hstate htrades exchangeName _).2
  constructor
  · intro h e he e' he'
    obtain ⟨before, update, later, hsplit, -⟩ := mem_addedTrades he'
    have hyoung := (hwindow _ _ _).1 (h before update e'.1 later hsplit)
    have hself := hyoung (e'.1, update.price) (by simp [addedTrades, addedTrade])
    -- the trade `e` comes before `e'`, and is in the buffer then, or after it, and is no older
    rw [hsplit, ← List.singleton_append, ← List.append_assoc, addedTrades_append] at he
    rcases List.mem_append.1 he with hearlier | hlater
    · exact hyoung e hearlier
    · obtain ⟨_, _, _, hsplit', -⟩ := mem_addedTrades hlater
      have hle : e'.1 ≤ e.1 := by
        rw [hsplit, List.map_append, List.map_cons, List.pairwise_append,
          List.pairwise_cons] at hclock
        exact hclock.2.1.1 _ (by simp [hsplit'])
      omega
  · intro h before update now later hsplit
    refine (hwindow _ _ _).2 fun e he => ?_
    have hsub : ∀ e ∈ addedTrades (before ++ [((.ccxtTrade update : CcxtMessage D F), now)]),
        e ∈ addedTrades msgs := by
      intro e he
      rw [hsplit, ← List.singleton_append, ← List.append_assoc, addedTrades_append]
      exact List.mem_append_left _ he
    exact h e (hsub e he) (now, update.price) (hsub _ (by simp [addedTrades, addedTrade]))

/-- A trade of one unit at a price. -/
private def tradeAtPrice (price : ℚ) : CcxtMessage ℚ ℚ :=
  .ccxtTrade ⟨"1", 0, ⟨0⟩, "BTC-USD", none, some .buy, price, 1⟩

/-- A trade five minutes old is still there after the next one was added. -/
theorem old_trade_is_kept :
    letI := exactOps fun _ => none
    ¬ ∀ before update now later,
      [(tradeAtPrice 100, 0), (tradeAtPrice 101, 300000000000)] =
          before ++ (.ccxtTrade update, now) :: later →
        RollingWindow 300000000000 now (addedTrades (before ++ [(.ccxtTrade update, now)]))
          (handleAll "dydx" (before ++ [((.ccxtTrade update : CcxtMessage ℚ ℚ), now)])
            ⟨some .new, some (.new 300000000000)⟩) := by
  let : DecimalOps ℚ := exactOps fun _ => none
  intro h
  have hwindow := h [(tradeAtPrice 100, 0)] _ 300000000000 [] rfl
  have hyoung := (rollingWindow_iff (trades_handleAll rfl rfl "dydx" _).2).1 hwindow
  exact absurd (hyoung (0, 100) (List.mem_cons_self ..)) (by omega)

/-- A trade within five minutes of the one before it. -/
theorem window_holds_iff_sample :
    letI := exactOps fun _ => none
    RollingWindow 300000000000 299999999999
      (addedTrades [(tradeAtPrice 100, 0), (tradeAtPrice 101, 299999999999)])
      (handleAll "dydx" [(tradeAtPrice 100, 0), (tradeAtPrice 101, 299999999999)]
        ⟨some .new, some (.new 300000000000)⟩) := by
  let : DecimalOps ℚ := exactOps fun _ => none
  have hapart : ∀ e ∈ [((0 : ℕ), (100 : ℚ)), (299999999999, 101)],
      ∀ e' ∈ [((0 : ℕ), (100 : ℚ)), (299999999999, 101)], e'.1 - e.1 < 300000000000 := by
    simp
  exact (window_holds_iff rfl rfl "dydx"
    [(tradeAtPrice 100, 0), (tradeAtPrice 101, 299999999999)] (by simp)).2 hapart
    [(tradeAtPrice 100, 0)] _ 299999999999 [] rfl

end MarketMaker
