/-
**The commands of the Redis server the program uses.**

A server maps each key to a value, which is a string or a sorted set; a command on a key that holds
a value of the other kind is an error, except `SET`, which replaces whatever is there.  Members of a
sorted set are ordered by score and then by their bytes, which for texts is the order of their
characters.

Scores are double-precision numbers, which are kept here by their values.  A command carries a score
as text that reads back as the same number.

* `RedisServer.set`, `RedisServer.get`, `RedisServer.zadd`, `RedisServer.zrangebyscore`,
  `RedisServer.zremrangebyscore` — the commands; an absent answer is an error;
* `SerdeJson` — the serialisation of values, which round-trips.
-/

import MarketMaker.SortedSet
import Mathlib.Algebra.Order.Ring.Rat
import Mathlib.Data.String.Basic
import Mathlib.Logic.Function.Basic

set_option relaxedAutoImplicit false
set_option autoImplicit false

namespace MarketMaker

/-- The serialisation of the values of a type, with the law that it round-trips. -/
class SerdeJson (V : Type) where
  toString : V → String
  fromStr : String → Option V
  round_trip : ∀ v, fromStr (toString v) = some v

theorem SerdeJson.toString_injective {V : Type} [SerdeJson V] :
    Function.Injective (SerdeJson.toString : V → String) := by
  intro v w h
  have hv := SerdeJson.round_trip v
  rw [h, SerdeJson.round_trip, Option.some.injEq] at hv
  exact hv.symm

/-- Deserialising serialised values gives the values back, and no others. -/
theorem SerdeJson.mapM_fromStr_eq_some_iff {V : Type} [SerdeJson V] {texts : List String}
    (htexts : ∀ s ∈ texts, ∃ v : V, s = SerdeJson.toString v) {values : List V} :
    texts.mapM (SerdeJson.fromStr (V := V)) = some values ↔
      texts = values.map SerdeJson.toString := by
  induction texts generalizing values with
  | nil => cases values <;> simp
  | cons s texts ih =>
      obtain ⟨⟨v, rfl⟩, hrest⟩ := List.forall_mem_cons.1 htexts
      cases values with
      | nil => simp [SerdeJson.round_trip, Option.bind_eq_some_iff]
      | cons w values =>
          simp [SerdeJson.round_trip, Option.bind_eq_some_iff, ih hrest,
            SerdeJson.toString_injective.eq_iff, and_comm]

/-- Whole numbers as decimals are serialised: digits between quotes. -/
instance : SerdeJson ℕ where
  toString n := String.ofList ('\x22' :: (Nat.toDigits 10 n ++ ['\x22']))
  fromStr s :=
    match s.toList with
    | '\x22' :: cs =>
        if cs.getLast? = some '\x22' then some (Nat.ofDigitChars 10 cs.dropLast 0) else none
    | _ => none
  round_trip n := by simp [Nat.ofDigitChars_ten_toDigits]

/-- A value stored at a key. -/
inductive RedisValue
  | string (s : String)
  | sortedSet (z : SortedSet ℚ String)

/-- The values stored, by key. -/
abbrev RedisServer := String → Option RedisValue

namespace RedisServer

/-- The server that stores nothing. -/
def fresh : RedisServer := fun _ => none

def set (server : RedisServer) (key value : String) : RedisServer :=
  Function.update server key (some (.string value))

def get (server : RedisServer) (key : String) : Option (Option String) :=
  match server key with
  | none => some none
  | some (.string s) => some (some s)
  | some (.sortedSet _) => none

def zadd (server : RedisServer) (key : String) (score : ℚ) (member : String) : RedisServer :=
  match server key with
  | none => Function.update server key (some (.sortedSet (SortedSet.empty.add score member)))
  | some (.sortedSet z) => Function.update server key (some (.sortedSet (z.add score member)))
  | some (.string _) => server

def zrangebyscore (server : RedisServer) (key : String) (min : ℚ) : Option (List String) :=
  match server key with
  | none => some []
  | some (.sortedSet z) => some (z.rangeFrom min)
  | some (.string _) => none

def zremrangebyscore (server : RedisServer) (key : String) (max : ℚ) : RedisServer :=
  match server key with
  | some (.sortedSet z) => Function.update server key (some (.sortedSet (z.removeUpTo max)))
  | _ => server

/-! ### Sorted sets on the server -/

variable {server : RedisServer} {key : String} {z : SortedSet ℚ String}

/-- The sorted set at a key; a key that stores nothing stands for the empty one. -/
def StoresSet (server : RedisServer) (key : String) (z : SortedSet ℚ String) : Prop :=
  server key = some (.sortedSet z) ∨ (server key = none ∧ z = .empty)

theorem StoresSet.zadd (h : StoresSet server key z) (score : ℚ) (member : String) :
    StoresSet (server.zadd key score member) key (z.add score member) := by
  left
  rcases h with h | ⟨h, rfl⟩ <;> simp [RedisServer.zadd, h]

/-- An add at one key changes no other. -/
theorem StoresSet.zadd_of_ne (h : StoresSet server key z) {key' : String} (hne : key ≠ key')
    (score : ℚ) (member : String) : StoresSet (server.zadd key' score member) key z := by
  have hkept : server.zadd key' score member key = server key := by
    rcases hstored : server key' with _ | ⟨_ | _⟩ <;> simp [RedisServer.zadd, hstored, hne]
  unfold StoresSet
  rw [hkept]
  exact h

theorem StoresSet.zrangebyscore (h : StoresSet server key z) (min : ℚ) :
    server.zrangebyscore key min = some (z.rangeFrom min) := by
  rcases h with h | ⟨h, rfl⟩ <;> simp [RedisServer.zrangebyscore, h, SortedSet.rangeFrom_empty]

theorem StoresSet.zremrangebyscore (h : StoresSet server key z) (max : ℚ) :
    StoresSet (server.zremrangebyscore key max) key (z.removeUpTo max) := by
  rcases h with h | ⟨h, rfl⟩
  · left
    simp [RedisServer.zremrangebyscore, h]
  · right
    simp [RedisServer.zremrangebyscore, h, SortedSet.removeUpTo_empty]

/-- A removal at one key changes no other. -/
theorem StoresSet.zremrangebyscore_of_ne (h : StoresSet server key z) {key' : String}
    (hne : key ≠ key') (max : ℚ) : StoresSet (server.zremrangebyscore key' max) key z := by
  have hkept : server.zremrangebyscore key' max key = server key := by
    rcases hstored : server key' with _ | ⟨_ | _⟩ <;>
      simp [RedisServer.zremrangebyscore, hstored, hne]
  unfold StoresSet
  rw [hkept]
  exact h

end RedisServer

end MarketMaker
