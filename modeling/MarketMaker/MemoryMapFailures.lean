/-
**Which sets the Redis map loses.**

When a `SET` fails the worker reconnects and takes the next message; the one in hand is not sent
again.  If the server did not carry the command out, the value is lost, and stays lost unless the
key is set again.

* `RedisMemoryMap.Recovered` — the worker has taken every message and the connection works;
* `failed_set_is_lost` — one failed command, after which the worker has recovered;
* `recovered_iff_last_landed` — **once the worker has recovered, the server holds what was set last
  for every key if and only if, for every key, the last set whose command reached the server carries
  the value of the last set**.
-/

import MarketMaker.MemoryMap

set_option relaxedAutoImplicit false
set_option autoImplicit false

namespace MarketMaker

variable {V : Type}

/-- The worker waits for messages, there are none, and the connection works. -/
def RedisMemoryMap.Recovered (m : RedisMemoryMap) : Prop :=
  m.phase = .receiving ∧ m.tx = [] ∧ m.connected = true

/-- The sets of a run whose commands reached the server, by the pattern of failures of the run. -/
def landedIn (acts : List (MapAction V)) : List (String × V) :=
  landedOf (setsOf acts) (outcomesOf acts)

variable [SerdeJson V]

/-- Once the worker has recovered, each set has had its command. -/
theorem server_of_recovered {acts : List (MapAction V)} {m : RedisMemoryMap}
    (h : Transition.exec mapStep .new acts = some m) (hrec : m.Recovered) :
    m.server = serverAfter (landedIn acts) := by
  obtain ⟨answered, waiting, hsets, hlen, hwait, hserver⟩ := map_history h
  obtain ⟨hphase, htx, -⟩ := hrec
  rw [RedisMemoryMap.pending, hphase, htx, List.map_eq_nil_iff] at hwait
  rw [hwait, List.append_nil] at hsets
  rw [hserver, landedIn, hsets]

/-- **A set whose command fails is lost**: the connection is working again and the queue is empty,
and the server holds nothing. -/
theorem failed_set_is_lost :
    ∃ m, Transition.exec mapStep .new [.connect true, .set "k" (5 : ℕ), .recv,
        .query (.err false), .connect true] = some m ∧
      m.Recovered ∧ m.get ℕ "k" = some none :=
  ⟨_, rfl, ⟨rfl, rfl, rfl⟩, by decide⟩

/-- **What is lost**: in every state where the worker has taken every message and the connection is
working, the server answers for each key the value set last if and only if for each key that was
set, the last set whose command reached the server carries the value set last. -/
theorem recovered_iff_last_landed (acts : List (MapAction V)) (m : RedisMemoryMap)
    (h : Transition.exec mapStep .new acts = some m) (hrec : m.Recovered) :
    (∀ key w, LastWrite.last Prod.fst (setsOf acts) key = some w → m.get V key = some (some w.2)) ↔
      ∀ key w, LastWrite.last Prod.fst (setsOf acts) key = some w →
        ∃ v, LastWrite.last Prod.fst (landedIn acts) key = some v ∧ v.2 = w.2 := by
  have hget : ∀ key, m.get V key =
      some ((LastWrite.last Prod.fst (landedIn acts) key).map Prod.snd) := by
    intro key
    exact get_of_serverAfter (server_of_recovered h hrec) key
  constructor
  · intro hall key w hw
    have hkey := hall key w hw
    rwa [hget, Option.some.injEq, Option.map_eq_some_iff] at hkey
  · intro hall key w hw
    rw [hget, Option.some.injEq, Option.map_eq_some_iff]
    exact hall key w hw

/-- A failed command followed by a set of the same key loses nothing. -/
theorem recovered_iff_last_landed_sample :
    ∃ m, Transition.exec mapStep .new [.connect true, .set "k" (5 : ℕ), .set "k" 6, .recv,
        .query (.err false), .connect true, .recv, .query .ok] = some m ∧
      m.get ℕ "k" = some (some 6) := by
  refine ⟨_, rfl, (recovered_iff_last_landed
    ([.connect true, .set "k" 5, .set "k" 6, .recv, .query (.err false), .connect true, .recv,
      .query .ok] : List (MapAction ℕ)) _ rfl ⟨rfl, rfl, rfl⟩).2 ?_ "k" ("k", 6) (by decide)⟩
  intro key w hw
  obtain ⟨hmem, rfl⟩ := LastWrite.last_eq_some Prod.fst hw
  have hkey : w.1 = "k" := by
    have hsets : ("k", 5) = w ∨ ("k", 6) = w := by simpa [setsOf, MapAction.asSet] using hmem
    rcases hsets with rfl | rfl <;> rfl
  rw [hkey] at hw ⊢
  exact ⟨("k", 6), by decide, congrArg Prod.snd (Option.some.inj hw)⟩

end MarketMaker
