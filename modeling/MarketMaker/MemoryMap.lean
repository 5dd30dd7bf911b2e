/-
**The memory maps: a hash map, and a Redis server behind a queue.**

The native map is a hash map under a lock.  The Redis map only *sends* a value on a channel; a
background worker takes the messages in order and issues a `SET` for each, while `get` asks the
server on a connection of its own.  A `SET` can fail, before or after the server carried it out, and
the worker then makes one attempt to reconnect and goes on with the next message.

Callers and worker run concurrently; a run is a list of actions of either, in the order in which
they take place.  The messages of the source also carry a time to live, which `set` never gives.

* `NativeMemoryMap.set`, `NativeMemoryMap.get` — the native map;
* `RedisMemoryMap`, `mapStep` — the Redis map, with its queue, its worker and the server;
* `setsOf`, `outcomesOf`, `landedOf` — the sets of a run, how their commands came out, and the sets
  that reached the server;
* `map_history` — **what a run leaves in the queue and on the server**.
-/

import MarketMaker.LastWrite
import MarketMaker.RedisServer
import MarketMaker.Transition

set_option relaxedAutoImplicit false
set_option autoImplicit false

namespace MarketMaker

variable {V : Type}

/-! ### The native map -/

structure NativeMemoryMap (V : Type) where
  inner : String → Option V

namespace NativeMemoryMap

def new : NativeMemoryMap V := ⟨fun _ => none⟩

def set (m : NativeMemoryMap V) (key : String) (value : V) : NativeMemoryMap V :=
  ⟨Function.update m.inner key (some value)⟩

def get (m : NativeMemoryMap V) (key : String) : Option V := m.inner key

end NativeMemoryMap

/-! ### The Redis map -/

/-- How a `SET` of the worker comes out.  A command that fails may still have been carried out,
the answer being lost. -/
inductive SetOutcome
  | ok
  | err (appliedFirst : Bool)
deriving DecidableEq

/-- Whether the server carried the command out. -/
def SetOutcome.applied : SetOutcome → Bool
  | ok => true
  | err appliedFirst => appliedFirst

/-- Where the worker is: in its first loop, before the first connection; at `recv`; waiting for the
answer to the `SET` for a message; at its attempt to reconnect. -/
inductive WorkerPhase
  | connecting
  | receiving
  | setting (key value : String)
  | reconnecting
deriving DecidableEq

structure RedisMemoryMap where
  /-- The messages sent and not yet received, oldest first. -/
  tx : List (String × String)
  phase : WorkerPhase
  /-- Whether the last command or attempt to connect succeeded. -/
  connected : Bool
  server : RedisServer

namespace RedisMemoryMap

/-- The map is created with the worker not yet connected. -/
def new : RedisMemoryMap := ⟨[], .connecting, false, .fresh⟩

/-- The value is serialised and sent; nothing is waited for. -/
def set [SerdeJson V] (m : RedisMemoryMap) (key : String) (value : V) : RedisMemoryMap :=
  let json := SerdeJson.toString value
  { m with tx := m.tx ++ [(key, json)] }

/-- What the server answers; absent where deserialising the answer panics. -/
def get (V : Type) [SerdeJson V] (m : RedisMemoryMap) (key : String) : Option (Option V) :=
  match m.server.get key with
  | none => some none
  | some none => some none
  | some (some v) => (SerdeJson.fromStr v).map some

/-- The messages whose command has not been answered. -/
def pending (m : RedisMemoryMap) : List (String × String) :=
  match m.phase with
  | .setting key value => (key, value) :: m.tx
  | _ => m.tx

end RedisMemoryMap

/-- An action: a call of some caller, or a step of the worker with what the environment makes of
it. -/
inductive MapAction (V : Type)
  | set (key : String) (value : V)
  | get (key : String)
  | connect (succeeds : Bool)
  | recv
  | query (outcome : SetOutcome)
deriving DecidableEq

/-- One action. -/
def mapStep [SerdeJson V] (m : RedisMemoryMap) : MapAction V → Option RedisMemoryMap
  | .set key value => some (m.set key value)
  | .get _ => some m
  | .connect succeeds =>
      match m.phase with
      | .connecting =>
          -- the first connection is tried until it succeeds
          if succeeds then some { m with phase := .receiving, connected := true } else some m
      | .reconnecting =>
          -- a later one is tried once, and the message that failed is gone
          some { m with phase := .receiving, connected := succeeds }
      | _ => none
  | .recv =>
      match m.phase, m.tx with
      | .receiving, (key, value) :: tx => some { m with phase := .setting key value, tx := tx }
      | _, _ => none
  | .query outcome =>
      match m.phase with
      | .setting key value =>
          let server := if outcome.applied then m.server.set key value else m.server
          match outcome with
          | .ok => some { m with phase := .receiving, connected := true, server := server }
          | .err _ => some { m with phase := .reconnecting, connected := false, server := server }
      | _ => none

/-- The same calls on the native map, on which the worker has no part. -/
def nativeStep (m : NativeMemoryMap V) : MapAction V → NativeMemoryMap V
  | .set key value => m.set key value
  | _ => m

/-- The native map after the calls of a run. -/
def nativeAfter (acts : List (MapAction V)) : NativeMemoryMap V := acts.foldl nativeStep .new

/-! ### The history of a run -/

/-- The key and value an action sets. -/
def MapAction.asSet : MapAction V → Option (String × V)
  | .set key value => some (key, value)
  | _ => none

/-- The outcome of a command an action brings. -/
def MapAction.outcome : MapAction V → Option SetOutcome
  | .query outcome => some outcome
  | _ => none

/-- The sets of a run, in order. -/
def setsOf (acts : List (MapAction V)) : List (String × V) := acts.filterMap MapAction.asSet

/-- The outcomes of the commands of a run, in order. -/
def outcomesOf (acts : List (MapAction V)) : List SetOutcome := acts.filterMap MapAction.outcome

/-- The sets that reached the server, when the commands for them, in order, come out as given. -/
def landedOf (sets : List (String × V)) (outcomes : List SetOutcome) : List (String × V) :=
  ((sets.zip outcomes).filter fun e => e.2.applied).map Prod.fst

theorem setsOf_concat (acts : List (MapAction V)) (a : MapAction V) :
    setsOf (acts ++ [a]) = setsOf acts ++ a.asSet.toList := by
  rw [setsOf, List.filterMap_append]
  cases h : a.asSet <;> simp [setsOf, h]

theorem outcomesOf_concat (acts : List (MapAction V)) (a : MapAction V) :
    outcomesOf (acts ++ [a]) = outcomesOf acts ++ a.outcome.toList := by
  rw [outcomesOf, List.filterMap_append]
  cases h : a.outcome <;> simp [outcomesOf, h]

theorem landedOf_concat {sets : List (String × V)} {outcomes : List SetOutcome}
    (hlen : sets.length = outcomes.length) (w : String × V) (o : SetOutcome) :
    landedOf (sets ++ [w]) (outcomes ++ [o]) =
      landedOf sets outcomes ++ if o.applied then [w] else [] := by
  rw [landedOf, List.zip_append hlen, List.filter_append, List.map_append]
  cases h : o.applied <;> simp [landedOf, h]

/-- Commands that all reach the server land all sets they were issued for. -/
theorem landedOf_of_applied {sets : List (String × V)} {outcomes : List SetOutcome}
    (hlen : sets.length = outcomes.length) (h : ∀ o ∈ outcomes, o.applied = true) :
    landedOf sets outcomes = sets := by
  have hall : (sets.zip outcomes).filter (fun e => e.2.applied) = sets.zip outcomes :=
    List.filter_eq_self.2 fun e he => h e.2 (List.of_mem_zip he).2
  rw [landedOf, hall, List.map_fst_zip hlen.le]

variable [SerdeJson V]

/-- The message for a set. -/
def messageOf (w : String × V) : String × String := (w.1, SerdeJson.toString w.2)

/-- What the server holds after the sets that reached it. -/
def serverAfter (landed : List (String × V)) : RedisServer :=
  LastWrite.apply Prod.fst (fun w => some (.string (SerdeJson.toString w.2)))
    RedisServer.fresh landed

/-- What holds of the sets made so far, the outcomes so far and the map: the sets are those whose
commands have been answered, one outcome each, followed by those pending, and the server holds what
the answered ones that reached it leave there. -/
def MapHistory (sets : List (String × V)) (outcomes : List SetOutcome) (m : RedisMemoryMap) :
    Prop :=
  ∃ answered waiting, sets = answered ++ waiting ∧ answered.length = outcomes.length ∧
    waiting.map messageOf = m.pending ∧ m.server = serverAfter (landedOf answered outcomes)

/-- **What an action can do**: make a set pending; answer the command for the message in hand; or
leave what is pending and the server alone. -/
theorem mapStep_cases {m n : RedisMemoryMap} {a : MapAction V} (h : mapStep m a = some n) :
    (∃ key value, a = .set key value ∧ n = m.set key value) ∨
      (∃ outcome key value, a = .query outcome ∧ m.phase = .setting key value ∧
        n.pending = m.tx ∧
        n.server = if outcome.applied then m.server.set key value else m.server) ∨
      (a.asSet = none ∧ a.outcome = none ∧ n.pending = m.pending ∧ n.server = m.server) := by
  obtain ⟨tx, phase, connected, server⟩ := m
  cases a with
  | set key value => exact Or.inl ⟨key, value, rfl, by simpa [mapStep] using h.symm⟩
  | get key =>
      obtain rfl : _ = n := by simpa [mapStep] using h
      exact Or.inr (Or.inr ⟨rfl, rfl, rfl, rfl⟩)
  | connect succeeds =>
      refine Or.inr (Or.inr ⟨rfl, rfl, ?_⟩)
      cases phase <;> cases succeeds <;> simp only [mapStep, Option.some.injEq, reduceCtorEq,
        if_true, Bool.false_eq_true, if_false] at h <;> subst h <;> exact ⟨rfl, rfl⟩
  | recv =>
      refine Or.inr (Or.inr ⟨rfl, rfl, ?_⟩)
      rcases tx with _ | ⟨w, tx⟩ <;> cases phase <;>
        simp only [mapStep, Option.some.injEq, reduceCtorEq] at h
      subst h
      exact ⟨rfl, rfl⟩
  | query outcome =>
      cases phase <;> simp only [mapStep, reduceCtorEq] at h
      rename_i key value
      refine Or.inr (Or.inl ⟨outcome, key, value, rfl, rfl, ?_⟩)
      cases outcome <;> simp only [Option.some.injEq] at h <;> subst h <;> exact ⟨rfl, rfl⟩

/-- A set is pending at first. -/
theorem MapHistory.set {sets : List (String × V)} {outcomes : List SetOutcome} {m : RedisMemoryMap}
    (h : MapHistory sets outcomes m) (key : String) (value : V) :
    MapHistory (sets ++ [(key, value)]) outcomes (m.set key value) := by
  obtain ⟨answered, waiting, rfl, hlen, hwait, hserver⟩ := h
  refine ⟨answered, waiting ++ [(key, value)], by simp, hlen, ?_, hserver⟩
  rw [List.map_append, hwait]
  cases hphase : m.phase <;> simp [RedisMemoryMap.pending, RedisMemoryMap.set, hphase, messageOf]

/-- The answer to a command. -/
theorem MapHistory.query {sets : List (String × V)} {outcomes : List SetOutcome}
    {m n : RedisMemoryMap} (h : MapHistory sets outcomes m) {key value : String} {o : SetOutcome}
    (hphase : m.phase = .setting key value) (hpending : n.pending = m.tx)
    (hserver : n.server = if o.applied then m.server.set key value else m.server) :
    MapHistory sets (outcomes ++ [o]) n := by
  obtain ⟨answered, waiting, rfl, hlen, hwait, hs⟩ := h
  rw [RedisMemoryMap.pending, hphase] at hwait
  obtain ⟨w, waiting, rfl, hw, hrest⟩ := List.map_eq_cons_iff.1 hwait
  obtain ⟨rfl, rfl⟩ := Prod.mk.inj hw
  refine ⟨answered ++ [w], waiting, by simp, by simp [hlen], hrest.trans hpending.symm, ?_⟩
  rw [hserver, landedOf_concat hlen, hs]
  cases h : o.applied
  · simp
  · simp only [serverAfter, if_true]
    rw [LastWrite.apply_concat]
    rfl

/-- **What a run leaves in the queue and on the server.** -/
theorem map_history {acts : List (MapAction V)} {m : RedisMemoryMap}
    (h : Transition.exec mapStep .new acts = some m) :
    MapHistory (setsOf acts) (outcomesOf acts) m := by
  refine Transition.exec_history
    (I := fun acts m => MapHistory (setsOf acts) (outcomesOf acts) m) ?_ ?_ h
  · exact ⟨[], [], rfl, rfl, rfl, rfl⟩
  · intro acts m a n hm hstep
    rw [setsOf_concat, outcomesOf_concat]
    rcases mapStep_cases hstep with ⟨key, value, rfl, rfl⟩ |
      ⟨outcome, key, value, rfl, hphase, hpending, hserver⟩ | ⟨hset, hout, hpending, hserver⟩
    · simpa [MapAction.asSet, MapAction.outcome] using hm.set key value
    · simpa [MapAction.asSet, MapAction.outcome] using hm.query hphase hpending hserver
    · obtain ⟨answered, waiting, hsets, hlen, hwait, hs⟩ := hm
      rw [hset, hout]
      simp only [Option.toList_none, List.append_nil]
      exact ⟨answered, waiting, hsets, hlen, hwait.trans hpending.symm, hserver.trans hs⟩

/-! ### Reads -/

theorem serverAfter_apply (landed : List (String × V)) (key : String) :
    serverAfter landed key =
      (LastWrite.last Prod.fst landed key).map fun w => .string (SerdeJson.toString w.2) := by
  rw [serverAfter, LastWrite.apply_eq]
  cases LastWrite.last Prod.fst landed key <;> rfl

/-- What the server answers is the last set of the key that reached it. -/
theorem get_of_serverAfter {m : RedisMemoryMap} {landed : List (String × V)}
    (h : m.server = serverAfter landed) (key : String) :
    m.get V key = some ((LastWrite.last Prod.fst landed key).map Prod.snd) := by
  rw [RedisMemoryMap.get, RedisServer.get, h, serverAfter_apply]
  cases LastWrite.last Prod.fst landed key with
  | none => rfl
  | some w => simp [SerdeJson.round_trip]

omit [SerdeJson V] in
/-- The native map holds the last set of each key. -/
theorem nativeAfter_get (acts : List (MapAction V)) (key : String) :
    (nativeAfter acts).get key = (LastWrite.last Prod.fst (setsOf acts) key).map Prod.snd := by
  have hinner : (nativeAfter acts).inner =
      LastWrite.apply Prod.fst (fun w => some w.2) (fun _ => none) (setsOf acts) := by
    induction acts using List.reverseRecOn with
    | nil => rfl
    | append_singleton acts a ih =>
        rw [setsOf_concat, nativeAfter, List.foldl_concat, ← nativeAfter]
        cases a with
        | set key value =>
            rw [nativeStep, NativeMemoryMap.set, ih]
            exact (LastWrite.apply_concat Prod.fst (fun w => some w.2) _ (setsOf acts)
              (key, value)).symm
        | _ => simpa [nativeStep, MapAction.asSet] using ih
  rw [NativeMemoryMap.get, hinner, LastWrite.apply_eq]
  cases LastWrite.last Prod.fst (setsOf acts) key <;> rfl

end MarketMaker
