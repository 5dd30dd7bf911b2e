/-
**What a Redis buffer answers, command by command.**

A call on the native buffer happens at once.  A call on the Redis buffer reads the clock and then
sends commands: one to add, and a query and a removal to get.  The commands of other calls come
between the two, and any of them may fail, which `add` and the removal do not report.  What the
server carries out is therefore a list of commands in any order, where those that failed are
missing.

* `BufferCommand`, `RedisExpirationBuffer.carryOut` — the commands, and `get_eq_carryOut`, that a
  `get` is its two commands in turn;
* `BufferCommand.effect`, `after_carryOut` — to the server, a removal is a `get`;
* `exists_entries_of_query` — the answer to a query lists the values kept;
* `queries_list_last_adds` — **a query lists the last adds whose score is not below its lower bound,
  whichever removals came before it**;
* `queries_list_native_values` — **a query lists the values a native buffer returns, each once**,
  where the lower bound tells the values younger than the ttl from the others.
-/

import MarketMaker.LastWrite
import MarketMaker.RedisBuffer
import Mathlib.Data.List.Dedup
import Mathlib.Data.Set.List

set_option relaxedAutoImplicit false
set_option autoImplicit false

namespace MarketMaker

variable {V : Type}

/-- A command of a call, with the reading of the clock that the call made. -/
inductive BufferCommand (V : Type)
  | zadd (now : ℕ) (value : V)
  | zrangebyscore (now : ℕ)
  | zremrangebyscore (now : ℕ)

namespace RedisExpirationBuffer

variable [SerdeJson V]

/-- What `get` returns of a query: the deserialised values, absent where deserialising panics, and
no values if the query is an error. -/
def query (V : Type) [SerdeJson V] (b : RedisExpirationBuffer) (server : RedisServer) (now : ℕ) :
    Option (List V) :=
  match server.zrangebyscore b.key (minScore b.ttl now) with
  | none => some []
  | some values => values.mapM SerdeJson.fromStr

/-- The server after a command, and what a `get` returns of it. -/
def carryOut (b : RedisExpirationBuffer) (server : RedisServer) :
    BufferCommand V → RedisServer × Option (Option (List V))
  | .zadd now value => (b.add server now value, none)
  | .zrangebyscore now => (server, some (b.query V server now))
  | .zremrangebyscore now => (server.zremrangebyscore b.key (minScore b.ttl now), none)

/-- A `get` is its two commands in turn: where the query is an error, the removal would be one. -/
theorem get_eq_carryOut (b : RedisExpirationBuffer) (server : RedisServer) (now : ℕ) :
    [(b.get V server now).1] =
        Transition.outputs b.carryOut server
          ([.zrangebyscore now, .zremrangebyscore now] : List (BufferCommand V)) ∧
      (b.get V server now).2 =
        Transition.after b.carryOut server
          ([.zrangebyscore now, .zremrangebyscore now] : List (BufferCommand V)) := by
  have hquery : (b.get V server now).1 = b.query V server now := by
    rw [get, query]
    cases server.zrangebyscore b.key (minScore b.ttl now) <;> rfl
  refine ⟨by rw [hquery]; rfl, ?_⟩
  show (b.get V server now).2 = server.zremrangebyscore b.key (minScore b.ttl now)
  rcases hstored : server b.key with _ | ⟨s | z⟩ <;>
    simp [get, RedisServer.zrangebyscore, RedisServer.zremrangebyscore, hstored]

end RedisExpirationBuffer

/-! ### What the commands do -/

namespace BufferCommand

/-- What a command does to the server: a removal does what a `get` does. -/
def effect : BufferCommand V → Option (BufferCall V)
  | .zadd now value => some (.add now value)
  | .zrangebyscore _ => none
  | .zremrangebyscore now => some (.get now)

/-- The call on a native buffer that a command stands for: a native `get` evicts by itself. -/
def call : BufferCommand V → Option (BufferCall V)
  | .zadd now value => some (.add now value)
  | .zrangebyscore now => some (.get now)
  | .zremrangebyscore _ => none

/-- The value a command adds, with its time. -/
def added : BufferCommand V → Option (ℕ × V)
  | .zadd now value => some (now, value)
  | _ => none

end BufferCommand

/-- Calls that add what the commands add. -/
theorem addedIn_filterMap {f : BufferCommand V → Option (BufferCall V)}
    (hf : ∀ c, (f c).bind BufferCall.added = c.added) (commands : List (BufferCommand V)) :
    addedIn (commands.filterMap f) = commands.filterMap BufferCommand.added := by
  rw [addedIn, List.filterMap_filterMap]
  exact List.filterMap_congr fun c _ => hf c

theorem addedIn_effect (commands : List (BufferCommand V)) :
    addedIn (commands.filterMap BufferCommand.effect) = commands.filterMap BufferCommand.added :=
  addedIn_filterMap (fun c => by cases c <;> rfl) commands

theorem addedIn_call (commands : List (BufferCommand V)) :
    addedIn (commands.filterMap BufferCommand.call) = commands.filterMap BufferCommand.added :=
  addedIn_filterMap (fun c => by cases c <;> rfl) commands

theorem mem_call_add {commands : List (BufferCommand V)} {n : ℕ} {v : V} :
    .add n v ∈ commands.filterMap BufferCommand.call ↔ .zadd n v ∈ commands := by
  rw [List.mem_filterMap]
  constructor
  · rintro ⟨c, hc, heq⟩
    cases c <;> cases heq
    exact hc
  · exact fun h => ⟨_, h, rfl⟩

theorem mem_effect_get {commands : List (BufferCommand V)} {r : ℕ} :
    .get r ∈ commands.filterMap BufferCommand.effect ↔ .zremrangebyscore r ∈ commands := by
  rw [List.mem_filterMap]
  constructor
  · rintro ⟨c, hc, heq⟩
    cases c <;> cases heq
    exact hc
  · exact fun h => ⟨_, h, rfl⟩

/-- The server after some commands is the one after calls of the same effect. -/
theorem after_carryOut [SerdeJson V] (b : RedisExpirationBuffer) (server : RedisServer)
    (commands : List (BufferCommand V)) :
    Transition.after b.carryOut server commands =
      Transition.after (redisCall b) server (commands.filterMap BufferCommand.effect) := by
  induction commands using List.reverseRecOn with
  | nil => rfl
  | append_singleton commands c ih =>
      rw [Transition.after_concat, ih, List.filterMap_append]
      cases c with
      | zadd now value =>
          refine Eq.trans ?_ (Transition.after_concat ..).symm
          rfl
      | zrangebyscore now => exact congrArg _ (List.append_nil _).symm
      | zremrangebyscore now =>
          refine Eq.trans ?_ (Transition.after_concat ..).symm
          exact (b.get_eq_carryOut (V := V) _ now).2.symm

/-! ### What a query lists -/

/-- A later add of a value, in the calls and in the values added. -/
theorem forall_add_notMem_iff {later : List (BufferCall V)} {v : V} :
    (∀ t, .add t v ∉ later) ↔ ∀ e ∈ addedIn later, e.2 ≠ v := by
  constructor
  · rintro h ⟨t, w⟩ he rfl
    exact h t (mem_addedIn.1 he)
  · exact fun h t ht => h (t, v) (mem_addedIn.2 ht) rfl

section Kept

variable [DecidableEq V] {ttl n : ℕ} {v : V} {calls : List (BufferCall V)}

/-- A value is kept with the time of its last add. -/
theorem Kept.last_eq (h : Kept ttl calls n v) :
    LastWrite.last Prod.snd (addedIn calls) v = some (n, v) := by
  obtain ⟨before, later, rfl, hlast, -⟩ := h
  rw [LastWrite.last_eq_some_iff]
  refine ⟨addedIn before, addedIn later, ?_, rfl, forall_add_notMem_iff.1 hlast⟩
  simp [addedIn, BufferCall.added]

/-- A value whose score no `get` has reached is kept with the time of its last add. -/
theorem kept_iff_last (hgets : ∀ r, .get r ∈ calls → minScore ttl r < asSecsF64 n) :
    Kept ttl calls n v ↔ LastWrite.last Prod.snd (addedIn calls) v = some (n, v) := by
  refine ⟨Kept.last_eq, fun h => ?_⟩
  obtain ⟨adds, adds', hadds, -, hlast⟩ := (LastWrite.last_eq_some_iff ..).1 h
  obtain ⟨before, rest, rfl, rfl, hrest⟩ := List.filterMap_eq_append_iff.1 hadds
  obtain ⟨gets, c, later, rfl, hnone, hc, rfl⟩ := List.filterMap_eq_cons_iff.1 hrest
  cases c with
  | get r => cases hc
  | add n' v' =>
      cases hc
      refine ⟨before ++ gets, later, by simp, forall_add_notMem_iff.2 hlast, fun r hr => ?_⟩
      exact hgets r (by simp [hr])

end Kept

/-- The order in which a query lists values: by score, and those of one score by their texts. -/
def ListedBefore [SerdeJson V] (a b : ℕ × V) : Prop :=
  asSecsF64 a.1 < asSecsF64 b.1 ∨
    asSecsF64 a.1 = asSecsF64 b.1 ∧ SerdeJson.toString a.2 < SerdeJson.toString b.2

section Queries

variable [SerdeJson V] [DecidableEq V]

/-- **The answer to a query lists the values kept** whose score is not below the lower bound. -/
theorem exists_entries_of_query (b : RedisExpirationBuffer) {server : RedisServer}
    (hfresh : server b.key = none) (commands : List (BufferCommand V)) (now : ℕ) :
    ∃ entries : List (ℕ × V),
      b.query V (Transition.after b.carryOut server commands) now =
          some (entries.map Prod.snd) ∧
        (∀ n v, (n, v) ∈ entries ↔
          Kept b.ttl (commands.filterMap BufferCommand.effect) n v ∧
            minScore b.ttl now ≤ asSecsF64 n) ∧
        entries.Pairwise ListedBefore ∧ (entries.map Prod.snd).Nodup := by
  obtain ⟨z, hstores, hz⟩ := redis_history b hfresh (commands.filterMap BufferCommand.effect)
  obtain ⟨l, hstrict, hmem, hrange⟩ := z.exists_entries_of_rangeFrom (minScore b.ttl now)
  -- every entry of the range is that of a value kept
  have hl : ∃ entries : List (ℕ × V), entries.map entryOf = l ∧ ∀ e ∈ entries,
      Kept b.ttl (commands.filterMap BufferCommand.effect) e.1 e.2 := by
    have hall : ∀ e ∈ l, ∃ d : ℕ × V, entryOf d = e ∧
        Kept b.ttl (commands.filterMap BufferCommand.effect) d.1 d.2 := by
      intro e he
      obtain ⟨n, v, hkept, ht, hs⟩ := (hz (ofLex e).1 (ofLex e).2).1 ((hmem e).1 he).1
      exact ⟨(n, v), congrArg toLex (Prod.ext ht.symm hs.symm), hkept⟩
    clear hstrict hmem hrange
    induction l with
    | nil => exact ⟨[], rfl, by simp⟩
    | cons e l ih =>
        obtain ⟨⟨d, rfl, hd⟩, hrest⟩ := List.forall_mem_cons.1 hall
        obtain ⟨entries, rfl, hentries⟩ := ih hrest
        exact ⟨d :: entries, rfl, List.forall_mem_cons.2 ⟨hd, hentries⟩⟩
  obtain ⟨entries, rfl, hkept⟩ := hl
  have htexts : z.rangeFrom (minScore b.ttl now) =
      (entries.map Prod.snd).map SerdeJson.toString := by
    rw [hrange, List.map_map, List.map_map]
    rfl
  refine ⟨entries, ?_, fun n v => ⟨fun hn => ⟨hkept _ hn, ?_⟩, ?_⟩,
    (List.pairwise_map.1 hstrict).imp fun hlt => ?_,
    List.Nodup.of_map _ (htexts ▸ z.nodup_rangeFrom _)⟩
  · rw [after_carryOut, RedisExpirationBuffer.query, hstores.zrangebyscore]
    refine (SerdeJson.mapM_fromStr_eq_some_iff fun s hs => ?_).2 htexts
    obtain ⟨v, -, rfl⟩ := List.mem_map.1 (htexts ▸ hs)
    exact ⟨v, rfl⟩
  · exact ((hmem _).1 (List.mem_map_of_mem hn)).2
  · rintro ⟨hkeptv, hmin⟩
    have hentry : entryOf (n, v) ∈ entries.map entryOf :=
      (hmem _).2 ⟨(hz _ _).2 ⟨n, v, hkeptv, rfl, rfl⟩, hmin⟩
    obtain ⟨⟨n', v'⟩, hn', heq⟩ := List.mem_map.1 hentry
    obtain rfl := SerdeJson.toString_injective (Prod.mk.inj (toLex_inj.1 heq)).2
    -- both times are that of the last add
    have hsame := (hkept _ hn').last_eq.symm.trans hkeptv.last_eq
    exact Option.some.inj hsame ▸ hn'
  · exact Prod.Lex.toLex_lt_toLex.1 hlt

/-- **A query lists the last adds from its lower bound on.**  Whatever commands the server carried
out before, of any calls, in any order and with any of them missing, if the bound of every removal
among them was below the lower bound of a `get` at `now`, then the `get` returns the values whose
last add has a score not below it, each once, by that score and then by the text.  The removals do
not enter: it is the same whether they are carried out or fail. -/
theorem queries_list_last_adds (b : RedisExpirationBuffer) (server : RedisServer)
    (hfresh : server b.key = none) (commands : List (BufferCommand V)) (now : ℕ)
    (hremovals : ∀ r, .zremrangebyscore r ∈ commands → minScore b.ttl r < minScore b.ttl now) :
    ∃ entries : List (ℕ × V),
      b.query V (Transition.after b.carryOut server commands) now =
          some (entries.map Prod.snd) ∧
        (∀ n v, (n, v) ∈ entries ↔
          LastWrite.last Prod.snd (commands.filterMap BufferCommand.added) v = some (n, v) ∧
            minScore b.ttl now ≤ asSecsF64 n) ∧
        entries.Pairwise ListedBefore ∧ (entries.map Prod.snd).Nodup := by
  obtain ⟨entries, hquery, hmem, hlisted, hnodup⟩ := exists_entries_of_query b hfresh commands now
  refine ⟨entries, hquery, fun n v => ?_, hlisted, hnodup⟩
  rw [hmem, ← addedIn_effect]
  refine and_congr_left fun hmin => kept_iff_last fun r hr => ?_
  exact (hremovals r (mem_effect_get.1 hr)).trans_le hmin

/-- A buffer whose values last five minutes. -/
private def fiveMinutes : RedisExpirationBuffer := ⟨"mma:expiration_buffer:0", 300000000000⟩

/-- Three values, a `get`, and one of the values again. -/
private def addedTwice : List (BufferCommand ℕ) :=
  [.zadd 1700000000000000000 9, .zadd 1700000001000000000 7, .zadd 1700000001500000000 8,
    .zrangebyscore 1700000002000000000, .zremrangebyscore 1700000002000000000,
    .zadd 1700000003000000000 7]

/-- The value added again is listed with its last add. -/
theorem queries_list_last_adds_sample :
    ∃ entries : List (ℕ × ℕ),
      fiveMinutes.query ℕ (Transition.after fiveMinutes.carryOut .fresh addedTwice)
          1700000301200000000 = some (entries.map Prod.snd) ∧
        (1700000001500000000, 8) ∈ entries ∧ (1700000003000000000, 7) ∈ entries := by
  obtain ⟨entries, hquery, hmem, -⟩ := queries_list_last_adds (V := ℕ) fiveMinutes .fresh rfl
    addedTwice 1700000301200000000 (by
      intro r hr
      obtain rfl : r = 1700000002000000000 := by simpa [addedTwice] using hr
      decide +kernel)
  exact ⟨entries, hquery, (hmem _ 8).2 ⟨by decide, by decide +kernel⟩,
    (hmem _ 7).2 ⟨by decide, by decide +kernel⟩⟩

/-! ### Next to a native buffer -/

/-- **A query lists the values a native buffer returns, each once.**  If the readings of the calls
do not decrease, and the lower bound of a `get` at `now` lies above the scores of the values as old
as the ttl and below those of the younger ones, then the `get` returns from the Redis buffer the
values it returns from a native buffer with the same calls, without repetitions, whatever became of
the removals. -/
theorem queries_list_native_values (b : RedisExpirationBuffer)
    (server : RedisServer) (hfresh : server b.key = none) (commands : List (BufferCommand V))
    (now : ℕ) (hremovals : ∀ r, .zremrangebyscore r ∈ commands → r ≤ now)
    (hsorted : (commands.filterMap BufferCommand.call).Pairwise fun a b => a.time ≤ b.time)
    (hpast : ∀ c ∈ commands.filterMap BufferCommand.call, c.time ≤ now)
    (htold : ∀ n v, .zadd n v ∈ commands →
      (now < n + b.ttl ∧ minScore b.ttl now < asSecsF64 n) ∨
        (n + b.ttl ≤ now ∧ asSecsF64 n < minScore b.ttl now)) :
    ∃ values native,
      b.query V (Transition.after b.carryOut server commands) now = some values ∧
      (nativeCall (Transition.after nativeCall (.new b.ttl)
        (commands.filterMap BufferCommand.call)) (.get now)).2 = some native ∧
      values.Perm native.dedup := by
  obtain ⟨entries, hquery, hmem, -, hnodup⟩ := exists_entries_of_query b hfresh commands now
  refine ⟨_, _, hquery, nativeCall_get hsorted hpast, ?_⟩
  refine (List.perm_ext_iff_of_nodup hnodup (List.nodup_dedup _)).2 fun v => ?_
  simp only [List.mem_dedup, List.mem_map, Prod.exists, exists_eq_right]
  have hsame := (addedIn_effect commands).trans (addedIn_call commands).symm
  constructor
  · rintro ⟨n, hn⟩
    obtain ⟨hkept, hmin⟩ := (hmem n v).1 hn
    have hadd := mem_addedIn.1 (hsame ▸ mem_addedIn.2 hkept.mem)
    rcases htold n v (mem_call_add.1 hadd) with ⟨hlt, -⟩ | ⟨-, hbelow⟩
    · exact ⟨n, (mem_liveAt hpast).2 ⟨hadd, hlt⟩⟩
    · exact absurd hmin (not_le.2 hbelow)
  · rintro ⟨n, hn⟩
    obtain ⟨hadd, hlt⟩ := (mem_liveAt hpast).1 hn
    -- the last add of the value is no earlier
    obtain ⟨⟨n', w⟩, hlast, hle⟩ := LastWrite.exists_last_of_mem Prod.snd
      (native_history b.ttl _ hsorted now hpast).sorted (mem_addedIn.2 hadd)
    obtain ⟨hmem', hw⟩ := LastWrite.last_eq_some _ hlast
    obtain rfl : w = v := hw
    have hle : n ≤ n' := hle.elim (fun heq => (congrArg Prod.fst heq).le) id
    have habove : minScore b.ttl now < asSecsF64 n' := by
      rcases htold n' w (mem_call_add.1 (mem_addedIn.1 hmem')) with ⟨-, habove⟩ | ⟨hold, -⟩
      · exact habove
      · omega
    refine ⟨n', (hmem n' w).2 ⟨(kept_iff_last fun r hr => ?_).2 (hsame ▸ hlast), habove.le⟩⟩
    have hr' : r ≤ now := hremovals r (mem_effect_get.1 hr)
    exact (minScore_mono b.ttl hr').trans_lt habove

/-- One value expired a microsecond ago, and of the others one was added twice. -/
theorem queries_list_native_values_sample :
    ∃ values native : List ℕ,
      fiveMinutes.query ℕ (Transition.after fiveMinutes.carryOut .fresh addedTwice)
          1700000300000001000 = some values ∧
        native = [7, 8, 7] ∧ values.Perm native.dedup := by
  have htold : ∀ n v, .zadd n v ∈ addedTwice →
      (1700000300000001000 < n + fiveMinutes.ttl ∧
          minScore fiveMinutes.ttl 1700000300000001000 < asSecsF64 n) ∨
        (n + fiveMinutes.ttl ≤ 1700000300000001000 ∧
          asSecsF64 n < minScore fiveMinutes.ttl 1700000300000001000) := by
    intro n v hadd
    simp only [addedTwice, List.mem_cons, BufferCommand.zadd.injEq, reduceCtorEq,
      List.not_mem_nil, or_false, false_or] at hadd
    rcases hadd with ⟨rfl, -⟩ | ⟨rfl, -⟩ | ⟨rfl, -⟩ | ⟨rfl, -⟩
    · exact Or.inr ⟨by decide,
        lt_minScore_of_expired (by decide) (by decide) (by decide) (by decide)⟩
    all_goals exact Or.inl ⟨by decide,
      minScore_lt_of_live (by decide) (by decide) (by decide) (by decide)⟩
  obtain ⟨values, native, hquery, hnative, hperm⟩ := queries_list_native_values (V := ℕ)
    fiveMinutes .fresh rfl addedTwice 1700000300000001000 (by simp [addedTwice]) (by decide)
    (by decide) htold
  exact ⟨values, native, hquery, (Option.some.inj hnative).symm, hperm⟩

end Queries

end MarketMaker
