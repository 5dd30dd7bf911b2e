/-
**The stores of a process are made once.**

The stores are static: `new` sets them unless they are set, and then stores the parameters of the
symbols the exchange has, of which there are none yet.  Until a `new` has got through its
configuration and its wallet there are no stores, and every message panics; after it no `new`
changes them any more, whatever its configuration says.  Strategies made later share what the first
one and its messages have left.

* `LifeCall`, `storesAfter` — the calls of a process, and the stores after them;
* `LifeCall.makes` — a `new` that gets as far as the stores;
* `after_new` — what a `new` does to the stores;
* `stores_made_once` — **the stores are those the messages leave since the first such `new`**.
-/

import MarketMaker.Strategy

set_option relaxedAutoImplicit false
set_option autoImplicit false

namespace MarketMaker

open Panicking

variable {D F : Type}

/-- A strategy is made, or a message is handled. -/
inductive LifeCall (D F : Type)
  | new (wallet : String → Option String) (cfg : AppConfig D)
  | handleMessage (message : CcxtMessage D F) (exchangeName : String) (now : ℕ)

namespace LifeCall

/-- Whether the call makes the exchange, so that it gets as far as the stores. -/
def makes : LifeCall D F → Bool
  | .new wallet cfg => (cfg.dydx.bind fun config => wallet config.mnemonic).isSome
  | .handleMessage .. => false

/-- The message handled, with the name of the exchange and the reading of the clock. -/
def message? : LifeCall D F → Option (CcxtMessage D F × String × ℕ)
  | .new .. => none
  | .handleMessage message exchangeName now => some (message, exchangeName, now)

end LifeCall

/-- The stores with those made that were not. -/
def Stores.made (stores : Stores D) : Stores D :=
  ⟨stores.state.or (some .new), stores.trades.or (some (.new 300000000000))⟩

theorem Stores.Initialized.made_eq {stores : Stores D} (h : stores.Initialized) :
    stores.made = stores := by
  obtain ⟨_ | state, _ | trades⟩ := stores <;> first | rfl | simp [Stores.Initialized] at h

variable [DecimalOps D]

namespace LifeCall

/-- The stores after the call, whether it returned or panicked. -/
def run (stores : Stores D) : LifeCall D F → Stores D
  | .new wallet cfg => after (AvellanedaStoikovMarketMaking.new wallet cfg) stores
  | .handleMessage message exchangeName now =>
      after (MarketMaker.handleMessage message exchangeName now) stores

end LifeCall

/-- The stores after the calls of a process. -/
def storesAfter (calls : List (LifeCall D F)) (stores : Stores D) : Stores D :=
  calls.foldl LifeCall.run stores

/-- The stores after messages were handled. -/
def storesAfterMessages (msgs : List (CcxtMessage D F × String × ℕ)) (stores : Stores D) :
    Stores D :=
  msgs.foldl (fun stores e => after (handleMessage e.1 e.2.1 e.2.2) stores) stores

/-- **What a `new` does to the stores**: it makes them if it gets that far, and stores nothing. -/
theorem after_new (wallet : String → Option String) (cfg : AppConfig D) (stores : Stores D) :
    after (AvellanedaStoikovMarketMaking.new wallet cfg) stores =
      if (LifeCall.new wallet cfg : LifeCall D F).makes then stores.made else stores := by
  rw [LifeCall.makes]
  rcases hconfig : cfg.dydx with _ | config
  · simp [AvellanedaStoikovMarketMaking.new, after, hconfig]
  rcases hwallet : wallet config.mnemonic with _ | address
  · simp [AvellanedaStoikovMarketMaking.new, after, hconfig, hwallet]
  have hrun : (AvellanedaStoikovMarketMaking.new wallet cfg).run stores =
      .ok ⟨Dydx.new config address, (Dydx.new config address).name⟩ stores.made := by
    rw [AvellanedaStoikovMarketMaking.new]
    simp only [hconfig, hwallet, unwrap_some, pure_bind, initState, expectState]
    obtain ⟨_ | state, _ | trades⟩ := stores <;> rfl
  simp [after_of_ok hrun, hwallet]

/-- **Once the stores are made only messages change them.** -/
theorem storesAfter_of_initialized {stores : Stores D} (hs : stores.Initialized)
    (calls : List (LifeCall D F)) :
    storesAfter calls stores = storesAfterMessages (calls.filterMap LifeCall.message?) stores := by
  induction calls generalizing stores with
  | nil => rfl
  | cons call calls ih =>
      rw [storesAfter, List.foldl_cons, ← storesAfter]
      cases call with
      | new wallet cfg =>
          have hsame : LifeCall.run stores (.new wallet cfg : LifeCall D F) = stores := by
            rw [LifeCall.run, after_new (F := F), hs.made_eq, ite_self]
          rw [hsame]
          exact ih hs
      | handleMessage message exchangeName now =>
          exact ih (hs.after_handleMessage message exchangeName now)

/-- **The stores are made once.**  In every sequence of calls of a process, strategies made with any
configurations and messages handled in between, the stores are absent until the first `new` that
finds its configuration and its wallet; from then on they are what the messages handled since leave
of empty stores, whatever the calls of `new` among them. -/
theorem stores_made_once (calls : List (LifeCall D F)) :
    storesAfter calls .uninit =
      match calls.dropWhile fun call => !call.makes with
      | [] => .uninit
      | _ :: later =>
          storesAfterMessages (later.filterMap LifeCall.message?) (Stores.made .uninit) := by
  induction calls with
  | nil => rfl
  | cons call calls ih =>
      rw [storesAfter, List.foldl_cons, ← storesAfter]
      cases hmakes : call.makes with
      | true =>
          -- the stores are made here
          obtain ⟨wallet, cfg, rfl⟩ : ∃ wallet cfg, call = .new wallet cfg := by
            cases call with
            | new wallet cfg => exact ⟨wallet, cfg, rfl⟩
            | handleMessage message exchangeName now => cases hmakes
          rw [LifeCall.run, after_new (F := F), hmakes, if_pos rfl,
            List.dropWhile_cons_of_neg (by simp [hmakes])]
          exact storesAfter_of_initialized ⟨rfl, rfl⟩ calls
      | false =>
          have hsame : LifeCall.run (.uninit : Stores D) call = .uninit := by
            cases call with
            | new wallet cfg =>
                rw [LifeCall.run, after_new (F := F), hmakes]
                rfl
            | handleMessage message exchangeName now => rfl
          rw [hsame, ih, List.dropWhile_cons_of_pos (by simp [hmakes])]

end MarketMaker
