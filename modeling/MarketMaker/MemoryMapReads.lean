/-
**When a read of the Redis map is a read of the native map.**

`set` returns before the value has reached the server, so that a `get` can be ahead of the worker.
It then answers what the last command to reach the server left at the key, which is the value set
last only if nothing pending would change it.

* `Settled` — nothing pending would change the value of a key;
* `read_before_the_worker` — a `set` and a `get` with no step of the worker between them;
* `reads_agree_iff_settled` — **in a run whose commands all succeed, every `get` answers like the
  native map if and only if every `get` is made when its key is settled**.
-/

import MarketMaker.MemoryMap

set_option relaxedAutoImplicit false
set_option autoImplicit false

namespace MarketMaker

variable {V : Type}

/-- The last pending message for the key, if there is one, carries what the server holds. -/
def Settled (m : RedisMemoryMap) (key : String) : Prop :=
  ∀ w, LastWrite.last Prod.fst m.pending key = some w → m.server key = some (.string w.2)

/-- The commands and the attempts to connect all succeed. -/
def AllSucceed (acts : List (MapAction V)) : Prop :=
  ∀ a ∈ acts, a ≠ .connect false ∧ ∀ outcome, a = .query outcome → outcome = .ok

theorem AllSucceed.landedOf_eq {acts : List (MapAction V)} (h : AllSucceed acts)
    {sets : List (String × V)} (hlen : sets.length = (outcomesOf acts).length) :
    landedOf sets (outcomesOf acts) = sets := by
  refine landedOf_of_applied hlen fun o ho => ?_
  obtain ⟨a, ha, hout⟩ := List.mem_filterMap.1 ho
  cases a with
  | query outcome =>
      cases (h _ ha).2 outcome rfl
      cases hout
      rfl
  | _ => cases hout

variable [SerdeJson V]

/-- **One `get`**: after a run whose commands all succeed it answers like the native map exactly
when its key is settled. -/
theorem get_agrees_iff_settled {acts : List (MapAction V)} (hok : AllSucceed acts)
    {m : RedisMemoryMap} (h : Transition.exec mapStep .new acts = some m) (key : String) :
    m.get V key = some ((nativeAfter acts).get key) ↔ Settled m key := by
  obtain ⟨answered, waiting, hsets, hlen, hwait, hserver⟩ := map_history h
  rw [hok.landedOf_eq hlen] at hserver
  rw [get_of_serverAfter hserver, nativeAfter_get, hsets, LastWrite.last_append, Settled, ← hwait,
    LastWrite.last_map Prod.fst (f := messageOf) (fun _ => rfl), hserver, serverAfter_apply,
    Option.some.injEq]
  cases LastWrite.last Prod.fst waiting key with
  | none => simp
  | some w =>
      cases LastWrite.last Prod.fst answered key with
      | none => simp
      | some v => simp [messageOf, SerdeJson.toString_injective.eq_iff]

/-- **A value read before the worker has sent it**: the caller has set the key and the worker is
connected, and the `get` answers that the key was never set. -/
theorem read_before_the_worker :
    AllSucceed ([.connect true, .set "dydx_BTC-USD_q" 5] : List (MapAction ℕ)) ∧
      (Transition.exec mapStep .new [.connect true, .set "dydx_BTC-USD_q" (5 : ℕ)]).map
        (fun m => m.get ℕ "dydx_BTC-USD_q") = some (some none) ∧
      (nativeAfter [.connect true, .set "dydx_BTC-USD_q" 5]).get "dydx_BTC-USD_q" = some 5 := by
  refine ⟨by simp [AllSucceed], by decide, by decide⟩

/-- **The reads of a run agree exactly when they are made settled.**  In every run of callers and
worker in which every command succeeds, all `get`s answer like the native map on the same calls if
and only if each is made in a state where its key is settled. -/
theorem reads_agree_iff_settled (acts : List (MapAction V)) (hok : AllSucceed acts) :
    (∀ before key later, acts = before ++ .get key :: later →
        ∀ m, Transition.exec mapStep .new before = some m →
          m.get V key = some ((nativeAfter before).get key)) ↔
      ∀ before key later, acts = before ++ .get key :: later →
        ∀ m, Transition.exec mapStep .new before = some m → Settled m key := by
  constructor
  · intro h before key later hsplit m hm
    have hbefore : AllSucceed before := fun a ha => hok a (by simp [hsplit, ha])
    exact (get_agrees_iff_settled hbefore hm key).1 (h before key later hsplit m hm)
  · intro h before key later hsplit m hm
    have hbefore : AllSucceed before := fun a ha => hok a (by simp [hsplit, ha])
    exact (get_agrees_iff_settled hbefore hm key).2 (h before key later hsplit m hm)

/-- A read once the worker has taken the only message agrees. -/
theorem reads_agree_iff_settled_sample :
    ∃ m, Transition.exec mapStep .new [.connect true, .set "k" 5, .recv, .query .ok] = some m ∧
      m.get ℕ "k" = some (some 5) := by
  have hsettled : ∀ before key later,
      ([.connect true, .set "k" 5, .recv, .query .ok, .get "k"] : List (MapAction ℕ)) =
        before ++ .get key :: later →
      ∀ m, Transition.exec mapStep .new before = some m → Settled m key := by
    rintro before key later hsplit m hm
    -- the only `get` is the last action
    rcases before with _ | ⟨a, _ | ⟨b, _ | ⟨c, _ | ⟨d, _ | ⟨e, before⟩⟩⟩⟩⟩ <;> simp at hsplit
    obtain ⟨rfl, rfl, rfl, rfl, rfl, -⟩ := hsplit
    obtain rfl := Option.some.inj hm
    rintro w ⟨⟩
  exact ⟨_, rfl, (reads_agree_iff_settled _ (by simp [AllSucceed])).2 hsettled
    [.connect true, .set "k" 5, .recv, .query .ok] "k" [] rfl _ rfl⟩

end MarketMaker
