/-
**The Redis expiration buffer, and when it agrees with the native one.**

The two backends of an expiration buffer are meant to be interchangeable.  The native one queues
timestamped values (`MarketMaker/NativeBuffer.lean`); this one keeps them in a sorted set of the
server, scored by time and keyed by their serialisation.  A value added twice is then one member
with the later time, and values of one score are listed in the order of their serialisations.  A
value exactly as old as the ttl, which the native buffer evicts, is still returned; and as scores
and lower bounds are rounded (`MarketMaker/ClockScores.lean`), so may one be that is a little older,
while one that is a little younger may be missing.

* `RedisExpirationBuffer.add`, `RedisExpirationBuffer.get` — the code;
* `BufferCall`, `nativeResults`, `redisResults` — the same calls made on both backends;
* `Kept` — **what the Redis buffer holds**, by the calls made so far;
* `Interchangeable` — where a `get` meets none of this;
* `backends_disagree` — three calls on which the backends differ;
* `backends_agree_iff` — **the backends return the same values if and only if every `get` is made
  where they are interchangeable**.
-/

import MarketMaker.ClockScores
import MarketMaker.NativeBuffer
import MarketMaker.RedisServer

set_option relaxedAutoImplicit false
set_option autoImplicit false

namespace MarketMaker

variable {V : Type}

structure RedisExpirationBuffer where
  key : String
  ttl : ℕ

namespace RedisExpirationBuffer

/-- The key is made from the counter of the process, which counts on and wraps. -/
def new (counter : UInt64) (ttl : ℕ) : RedisExpirationBuffer × UInt64 :=
  (⟨"mma:expiration_buffer:" ++ toString counter.toNat, ttl⟩, counter + 1)

variable [SerdeJson V]

def add (b : RedisExpirationBuffer) (server : RedisServer) (now : ℕ) (value : V) : RedisServer :=
  let json := SerdeJson.toString value
  server.zadd b.key (asSecsF64 now) json

/-- The values in the range, absent where deserialising one of them panics; nothing when the query
is an error.  The members up to the lower end of the range are then removed. -/
def get (V : Type) [SerdeJson V] (b : RedisExpirationBuffer) (server : RedisServer) (now : ℕ) :
    Option (List V) × RedisServer :=
  let minScore := minScore b.ttl now
  match server.zrangebyscore b.key minScore with
  | none => (some [], server)
  | some values =>
      (values.mapM SerdeJson.fromStr, server.zremrangebyscore b.key minScore)

end RedisExpirationBuffer

/-! ### The same calls on both backends -/

/-- A call, with the reading of the clock at which it is carried out. -/
inductive BufferCall (V : Type)
  | add (now : ℕ) (value : V)
  | get (now : ℕ)
deriving DecidableEq

/-- The reading of the clock of a call. -/
def BufferCall.time : BufferCall V → ℕ
  | .add now _ => now
  | .get now => now

/-- A call on a native buffer: the buffer after it, and what a `get` returns. -/
def nativeCall (b : NativeExpirationBuffer V) :
    BufferCall V → NativeExpirationBuffer V × Option (List V)
  | .add now value => (b.add now value, none)
  | .get now => ((b.get fun _ => now).2, some (b.get fun _ => now).1)

/-- A call on a Redis buffer: the server after it, and what a `get` returns. -/
def redisCall [SerdeJson V] (b : RedisExpirationBuffer) (server : RedisServer) :
    BufferCall V → RedisServer × Option (Option (List V))
  | .add now value => (b.add server now value, none)
  | .get now => ((b.get V server now).2, some (b.get V server now).1)

/-- What the `get` calls return on a new native buffer, in order. -/
def nativeResults (ttl : ℕ) (calls : List (BufferCall V)) : List (List V) :=
  Transition.outputs nativeCall (NativeExpirationBuffer.new ttl) calls

/-- What the `get` calls return on a Redis buffer, in order. -/
def redisResults [SerdeJson V] (server : RedisServer) (key : String) (ttl : ℕ)
    (calls : List (BufferCall V)) : List (Option (List V)) :=
  Transition.outputs (redisCall ⟨key, ttl⟩) server calls

/-! ### What the buffers hold after some calls -/

/-- The value a call adds, with its time. -/
def BufferCall.added : BufferCall V → Option (ℕ × V)
  | .add now value => some (now, value)
  | .get _ => none

/-- The values added by the calls, with their times. -/
def addedIn (calls : List (BufferCall V)) : List (ℕ × V) := calls.filterMap BufferCall.added

theorem mem_addedIn {calls : List (BufferCall V)} {n : ℕ} {v : V} :
    (n, v) ∈ addedIn calls ↔ .add n v ∈ calls := by
  rw [addedIn, List.mem_filterMap]
  constructor
  · rintro ⟨c, hc, heq⟩
    cases c with
    | add now value => cases heq; exact hc
    | get now => cases heq
  · exact fun h => ⟨_, h, rfl⟩

theorem addedIn_concat_add (calls : List (BufferCall V)) (n : ℕ) (v : V) :
    addedIn (calls ++ [.add n v]) = addedIn calls ++ [(n, v)] := by
  simp [addedIn, BufferCall.added]

theorem addedIn_concat_get (calls : List (BufferCall V)) (n : ℕ) :
    addedIn (calls ++ [.get n]) = addedIn calls := by
  simp [addedIn, BufferCall.added]

/-- A value stays in the Redis buffer, with the time of its last add, until the lower bound of a
`get` reaches its score. -/
def Kept (ttl : ℕ) (calls : List (BufferCall V)) (n : ℕ) (v : V) : Prop :=
  ∃ before later, calls = before ++ .add n v :: later ∧ (∀ t, .add t v ∉ later) ∧
    ∀ now, .get now ∈ later → minScore ttl now < asSecsF64 n

theorem Kept.mem {ttl n : ℕ} {v : V} {calls : List (BufferCall V)} (h : Kept ttl calls n v) :
    .add n v ∈ calls := by
  obtain ⟨before, later, rfl, -⟩ := h
  simp

/-- A value is kept with the time of its last add. -/
theorem Kept.latest {ttl n t : ℕ} {v : V} {calls : List (BufferCall V)} (h : Kept ttl calls n v)
    (hsorted : calls.Pairwise fun a b => a.time ≤ b.time) (hadd : .add t v ∈ calls) : t ≤ n := by
  obtain ⟨before, later, rfl, hlater, -⟩ := h
  rcases List.mem_append.1 hadd with hbefore | hadd
  · exact (List.pairwise_append.1 hsorted).2.2 _ hbefore _ List.mem_cons_self
  · rcases List.mem_cons.1 hadd with heq | hadd
    · cases heq
      exact le_rfl
    · exact absurd hadd (hlater t)

/-- What a call does to the sorted set of the buffer. -/
def BufferCall.setOp [SerdeJson V] (ttl : ℕ) : BufferCall V → Option (SortedSet.Op ℚ String)
  | .add now value => some (.add (asSecsF64 now) (SerdeJson.toString value))
  | .get now => some (.removeUpTo (minScore ttl now))

/-- The values kept are the members that survive the operations on the sorted set: a text is added
again exactly if its value is. -/
theorem survives_iff_kept [SerdeJson V] {ttl : ℕ} {calls : List (BufferCall V)} {t : ℚ}
    {s : String} :
    SortedSet.Survives (BufferCall.setOp ttl) calls t s ↔
      ∃ n v, Kept ttl calls n v ∧ t = asSecsF64 n ∧ s = SerdeJson.toString v := by
  constructor
  · rintro ⟨before, c, later, rfl, hadd, hagain, hremoved⟩
    cases c with
    | get now => cases hadd
    | add n v =>
        obtain ⟨rfl, rfl⟩ := SortedSet.Op.add.inj (Option.some.inj hadd)
        refine ⟨n, v, ⟨before, later, rfl, fun t hlater => ?_, fun now hget => ?_⟩, rfl, rfl⟩
        · exact hagain _ hlater _ rfl
        · exact hremoved _ hget _ rfl
  · rintro ⟨n, v, ⟨before, later, rfl, hagain, hgets⟩, rfl, rfl⟩
    refine ⟨before, _, later, rfl, rfl, fun c hc t hadd => ?_, fun c hc max hmax => ?_⟩
    · cases c with
      | get now => cases hadd
      | add n' w =>
          have htext := (SortedSet.Op.add.inj (Option.some.inj hadd)).2
          exact hagain n' (SerdeJson.toString_injective htext ▸ hc)
    · cases c with
      | add n' w => cases hmax
      | get now =>
          obtain rfl := SortedSet.Op.removeUpTo.inj (Option.some.inj hmax)
          exact hgets now hc

/-- **What the Redis buffer holds after some calls**, if nothing was stored at its key. -/
theorem redis_history [SerdeJson V] (b : RedisExpirationBuffer) {server : RedisServer}
    (hfresh : server b.key = none) (calls : List (BufferCall V)) :
    ∃ z, (Transition.after (redisCall b) server calls).StoresSet b.key z ∧
      ∀ t s, toLex (t, s) ∈ z.entries ↔
        ∃ n v, Kept b.ttl calls n v ∧ t = asSecsF64 n ∧ s = SerdeJson.toString v := by
  refine ⟨SortedSet.after (BufferCall.setOp b.ttl) calls, ?_,
    fun t s => SortedSet.mem_after.trans survives_iff_kept⟩
  induction calls using List.reverseRecOn with
  | nil => exact Or.inr ⟨hfresh, rfl⟩
  | append_singleton calls c ih =>
      rw [Transition.after_concat, SortedSet.after_concat]
      cases c with
      | add now w => exact ih.zadd (asSecsF64 now) (SerdeJson.toString w)
      | get now =>
          simp only [redisCall, RedisExpirationBuffer.get, ih.zrangebyscore]
          exact ih.zremrangebyscore _

/-- **What the native buffer holds after some calls**, made at readings that do not decrease. -/
theorem native_history (ttl : ℕ) (calls : List (BufferCall V))
    (hsorted : calls.Pairwise fun a b => a.time ≤ b.time) (now : ℕ)
    (hnow : ∀ c ∈ calls, c.time ≤ now) :
    Holds ttl (addedIn calls) ⟨now, Transition.after nativeCall (.new ttl) calls⟩ := by
  induction calls using List.reverseRecOn generalizing now with
  | nil => exact ⟨rfl, List.Pairwise.nil, by simp [addedIn], [], rfl, by simp⟩
  | append_singleton calls c ih =>
      obtain ⟨hsorted, -, hbefore⟩ := List.pairwise_append.1 hsorted
      have hcalls := ih hsorted c.time fun d hd => hbefore d hd c (List.mem_singleton.2 rfl)
      refine Holds.mono (?_ : Holds ttl _ ⟨c.time, _⟩) (hnow c (by simp))
      rw [Transition.after_concat]
      cases c with
      | add n v =>
          rw [addedIn_concat_add]
          exact hcalls.add le_rfl v
      | get n =>
          rw [addedIn_concat_get]
          have hget := hcalls.get (show n ≤ OrderHom.const ℕ n 0 from le_rfl)
          have hlast := NativeExpirationBuffer.lastReading_const
            (Transition.after nativeCall (.new ttl) calls) n
          exact hget.mono hlast.le

/-! ### Where the backends agree -/

/-- The values added that are younger than `ttl` at `now` are distinct, those of one score were
added in the order of their serialisations, and no earlier `get` has removed one of them; and of all
values kept, the lower bound at `now` leaves exactly these. -/
structure Interchangeable [SerdeJson V] (ttl : ℕ) (calls : List (BufferCall V)) (now : ℕ) :
    Prop where
  distinct : ((liveAt ttl now (addedIn calls)).map Prod.snd).Nodup
  ordered : (liveAt ttl now (addedIn calls)).Pairwise fun a b =>
    asSecsF64 a.1 = asSecsF64 b.1 → SerdeJson.toString a.2 < SerdeJson.toString b.2
  kept : ∀ n v, (n, v) ∈ liveAt ttl now (addedIn calls) → Kept ttl calls n v
  told : ∀ n v, Kept ttl calls n v → (minScore ttl now ≤ asSecsF64 n ↔ now < n + ttl)

/-- The entry of the sorted set for a value added. -/
def entryOf [SerdeJson V] (e : ℕ × V) : ℚ ×ₗ String :=
  toLex (asSecsF64 e.1, SerdeJson.toString e.2)

section Agreement

variable {ttl now : ℕ} {calls : List (BufferCall V)}

theorem mem_liveAt {n : ℕ} {v : V} (hpast : ∀ c ∈ calls, c.time ≤ now) :
    (n, v) ∈ liveAt ttl now (addedIn calls) ↔ .add n v ∈ calls ∧ now < n + ttl := by
  rw [liveAt, List.mem_filter, mem_addedIn, decide_eq_true_eq]
  refine and_congr_right fun hadd => ?_
  have : n ≤ now := hpast _ hadd
  show now - n < ttl ↔ now < n + ttl
  omega

/-- What a sorted set has to hold after the calls. -/
def ListsKept [SerdeJson V] (ttl : ℕ) (calls : List (BufferCall V)) (z : SortedSet ℚ String) :
    Prop :=
  ∀ t s, toLex (t, s) ∈ z.entries ↔
    ∃ n v, Kept ttl calls n v ∧ t = asSecsF64 n ∧ s = SerdeJson.toString v

variable [SerdeJson V] {z : SortedSet ℚ String}

/-- The values in a range are those kept whose score is in it. -/
theorem ListsKept.mem_rangeFrom (hz : ListsKept ttl calls z) {v : V} {min : ℚ} :
    SerdeJson.toString v ∈ z.rangeFrom min ↔ ∃ n, Kept ttl calls n v ∧ min ≤ asSecsF64 n := by
  rw [SortedSet.mem_rangeFrom]
  constructor
  · rintro ⟨t, ht, hmin⟩
    obtain ⟨n, w, hkept, rfl, heq⟩ := (hz _ _).1 ht
    exact ⟨n, SerdeJson.toString_injective heq ▸ hkept, hmin⟩
  · rintro ⟨n, hkept, hmin⟩
    exact ⟨_, (hz _ _).2 ⟨n, v, hkept, rfl, rfl⟩, hmin⟩

/-- Where the backends are interchangeable, the range lists the live values in their order. -/
theorem Interchangeable.rangeFrom_eq (h : Interchangeable ttl calls now)
    (hz : ListsKept ttl calls z) (hadds : (addedIn calls).Pairwise fun a b => a.1 ≤ b.1)
    (hpast : ∀ c ∈ calls, c.time ≤ now) :
    z.rangeFrom (minScore ttl now) =
      ((liveAt ttl now (addedIn calls)).map Prod.snd).map SerdeJson.toString := by
  have hstrict : ((liveAt ttl now (addedIn calls)).map entryOf).Pairwise (· < ·) := by
    refine List.pairwise_map.2 (((hadds.filter _).and h.ordered).imp ?_)
    rintro a b ⟨hle, hlt⟩
    rcases (asSecsF64_mono hle).lt_or_eq with hlt' | heq
    · exact Prod.Lex.toLex_lt_toLex.2 (Or.inl hlt')
    · exact Prod.Lex.toLex_lt_toLex.2 (Or.inr ⟨heq, hlt heq⟩)
  rw [SortedSet.rangeFrom_eq hstrict, List.map_map, List.map_map]
  · rfl
  · intro e
    have he : e = toLex ((ofLex e).1, (ofLex e).2) := rfl
    rw [he, hz, List.mem_map]
    constructor
    · rintro ⟨⟨n, v⟩, hlive, heq⟩
      obtain ⟨ht, hs⟩ := Prod.mk.inj heq
      obtain ⟨-, hlt⟩ := (mem_liveAt hpast).1 hlive
      have hkept := h.kept n v hlive
      refine ⟨⟨n, v, hkept, ht.symm, hs.symm⟩, ?_⟩
      rw [ofLex_toLex, ← ht]
      exact (h.told n v hkept).2 hlt
    · rintro ⟨⟨n, v, hkept, ht, hs⟩, hmin⟩
      rw [ofLex_toLex, ht] at hmin
      exact ⟨(n, v), (mem_liveAt hpast).2 ⟨hkept.mem, (h.told n v hkept).1 hmin⟩,
        by rw [ht, hs]; rfl⟩

/-- Where the range lists the live values in their order, the backends are interchangeable. -/
theorem Interchangeable.of_rangeFrom_eq (hz : ListsKept ttl calls z)
    (hsorted : calls.Pairwise fun a b => a.time ≤ b.time) (hpast : ∀ c ∈ calls, c.time ≤ now)
    (h : z.rangeFrom (minScore ttl now) =
      ((liveAt ttl now (addedIn calls)).map Prod.snd).map SerdeJson.toString) :
    Interchangeable ttl calls now := by
  have hdistinct : ((liveAt ttl now (addedIn calls)).map Prod.snd).Nodup :=
    List.Nodup.of_map _ (h ▸ z.nodup_rangeFrom _)
  -- a value is live exactly if its text is in the range
  have hrange : ∀ v, (∃ n, (n, v) ∈ liveAt ttl now (addedIn calls)) ↔
      ∃ n, Kept ttl calls n v ∧ minScore ttl now ≤ asSecsF64 n := by
    intro v
    rw [← hz.mem_rangeFrom, h, List.mem_map_of_injective SerdeJson.toString_injective]
    simp
  have hkept : ∀ n v, (n, v) ∈ liveAt ttl now (addedIn calls) →
      Kept ttl calls n v ∧ minScore ttl now ≤ asSecsF64 n := by
    intro n v hlive
    obtain ⟨t, hkept, hmin⟩ := (hrange v).1 ⟨n, hlive⟩
    obtain ⟨hadd, hlt⟩ := (mem_liveAt hpast).1 hlive
    have hle : n ≤ t := hkept.latest hsorted hadd
    have hlive' : (t, v) ∈ liveAt ttl now (addedIn calls) :=
      (mem_liveAt hpast).2 ⟨hkept.mem, by omega⟩
    obtain rfl : n = t := congrArg Prod.fst (List.inj_on_of_nodup_map hdistinct hlive hlive' rfl)
    exact ⟨hkept, hmin⟩
  refine ⟨hdistinct, ?_, fun n v hlive => (hkept n v hlive).1, fun n v hkeptv => ?_⟩
  · obtain ⟨l, hstrict, hmem, hlist⟩ := z.exists_entries_of_rangeFrom (minScore ttl now)
    -- the entries of the range are those of the live values, one by one
    have hl : l = (liveAt ttl now (addedIn calls)).map entryOf := by
      refine SortedSet.entries_eq_of_members (fun e he => ((hmem e).1 he).1) ?_ ?_
      · intro e he
        obtain ⟨⟨n, v⟩, hlive, rfl⟩ := List.mem_map.1 he
        exact (hz _ _).2 ⟨n, v, (hkept n v hlive).1, rfl, rfl⟩
      · rw [← hlist, h, List.map_map, List.map_map]
        rfl
    rw [hl, List.pairwise_map] at hstrict
    refine hstrict.imp fun {a b} hlt heq => ?_
    rcases Prod.Lex.toLex_lt_toLex.1 hlt with hlt | ⟨-, hlt⟩
    · exact absurd heq hlt.ne
    · exact hlt
  · constructor
    · -- the value is in the range, so that its last add is live
      intro hmin
      obtain ⟨t, hlive⟩ := (hrange v).2 ⟨n, hkeptv, hmin⟩
      obtain ⟨hadd, hlt⟩ := (mem_liveAt hpast).1 hlive
      have hle : t ≤ n := hkeptv.latest hsorted hadd
      omega
    · exact fun hlt => (hkept n v ((mem_liveAt hpast).2 ⟨hkeptv.mem, hlt⟩)).2

omit [SerdeJson V] in
/-- A `get` of the native buffer returns the live values. -/
theorem nativeCall_get (hsorted : calls.Pairwise fun a b => a.time ≤ b.time)
    (hpast : ∀ c ∈ calls, c.time ≤ now) :
    (nativeCall (Transition.after nativeCall (.new ttl) calls) (.get now)).2 =
      some ((liveAt ttl now (addedIn calls)).map Prod.snd) := by
  obtain ⟨heq, -⟩ := (native_history ttl calls hsorted now hpast).evict_eq
    (show now ≤ OrderHom.const ℕ now 0 from le_rfl)
  have hlast := NativeExpirationBuffer.lastReading_const
    (Transition.after nativeCall (.new ttl) calls) now
  have hlive := heq.trans (congrArg (liveAt ttl · (addedIn calls)) hlast)
  exact congrArg (fun l => some (l.map Prod.snd)) hlive

/-- **A `get` returns the same values from both backends exactly where they are
interchangeable.** -/
theorem get_agrees_iff {server : RedisServer} {key : String} (hfresh : server key = none)
    (hsorted : calls.Pairwise fun a b => a.time ≤ b.time) (hpast : ∀ c ∈ calls, c.time ≤ now) :
    (redisCall ⟨key, ttl⟩ (Transition.after (redisCall ⟨key, ttl⟩) server calls)
        (.get now : BufferCall V)).2 =
      (nativeCall (Transition.after nativeCall (.new ttl) calls) (.get now)).2.map some ↔
        Interchangeable ttl calls now := by
  obtain ⟨z, hstores, hz⟩ := redis_history ⟨key, ttl⟩ hfresh calls
  have hholds := native_history ttl calls hsorted now hpast
  have htexts : ∀ s ∈ z.rangeFrom (minScore ttl now), ∃ v : V, s = SerdeJson.toString v := by
    intro s hs
    obtain ⟨t, ht, -⟩ := SortedSet.mem_rangeFrom.1 hs
    obtain ⟨n, v, -, -, rfl⟩ := (hz t s).1 ht
    exact ⟨v, rfl⟩
  rw [nativeCall_get hsorted hpast]
  simp only [redisCall, RedisExpirationBuffer.get, hstores.zrangebyscore, Option.map_some,
    Option.some.injEq]
  rw [SerdeJson.mapM_fromStr_eq_some_iff htexts]
  exact ⟨Interchangeable.of_rangeFrom_eq hz hsorted hpast,
    fun h => h.rangeFrom_eq hz hholds.sorted hpast⟩

end Agreement

/-- Both backends answer the same calls. -/
theorem answers_eq [SerdeJson V] (b : RedisExpirationBuffer) (n : NativeExpirationBuffer V)
    (server : RedisServer) (c : BufferCall V) :
    (nativeCall n c).2.isSome = (redisCall b server c).2.isSome := by
  cases c <;> rfl

/-- **The backends disagree**: a value added twice within the ttl is returned twice by one backend,
and once by the other. -/
theorem backends_disagree :
    ([.add 1700000000000000000 1, .add 1700000001000000000 1, .get 1700000002000000000] :
        List (BufferCall ℕ)).Pairwise (fun a b => a.time ≤ b.time) ∧
      nativeResults 300000000000
          [.add 1700000000000000000 1, .add 1700000001000000000 1, .get 1700000002000000000] =
        [[1, 1]] ∧
      redisResults (V := ℕ) .fresh "mma:expiration_buffer:0" 300000000000
          [.add 1700000000000000000 1, .add 1700000001000000000 1, .get 1700000002000000000] =
        [some [1]] := by
  refine ⟨by decide, by decide, by decide +kernel⟩

/-- A value is returned fifty nanoseconds after it has expired. -/
example :
    redisResults (V := ℕ) .fresh "mma:expiration_buffer:0" 300000000000
        [.add 1700000000000000000 7, .get 1700000300000000050] = [some [7]] ∧
      nativeResults 300000000000 [.add 1700000000000000000 7, .get 1700000300000000050] = [[]] :=
  ⟨by decide +kernel, by decide⟩

/-- **The backends agree exactly where they are interchangeable.**  For a buffer whose key
stores nothing, and calls made at readings of the clock that do not decrease, the `get` calls return
the same values from both backends, in the same order, if and only if the backends are
interchangeable at every `get`. -/
theorem backends_agree_iff [SerdeJson V] (server : RedisServer) (key : String)
    (hfresh : server key = none) (ttl : ℕ) (calls : List (BufferCall V))
    (hsorted : calls.Pairwise fun a b => a.time ≤ b.time) :
    redisResults server key ttl calls = (nativeResults ttl calls).map some ↔
      ∀ before now later, calls = before ++ .get now :: later →
        Interchangeable ttl before now := by
  rw [redisResults, nativeResults, Transition.outputs_map_eq_iff (answers_eq ⟨key, ttl⟩)]
  constructor
  · rintro h before now later rfl
    obtain ⟨hbefore, -, hle⟩ := List.pairwise_append.1 hsorted
    exact (get_agrees_iff hfresh hbefore fun c hc => hle c hc _ List.mem_cons_self).1
      (h before _ later rfl)
  · rintro h before c later rfl
    cases c with
    | add now v => rfl
    | get now =>
        obtain ⟨hbefore, -, hle⟩ := List.pairwise_append.1 hsorted
        exact (get_agrees_iff hfresh hbefore fun c hc => hle c hc _ List.mem_cons_self).2
          (h before now later rfl)

/-- Two values, of which one has expired and the other has not. -/
theorem backends_agree_iff_sample :
    redisResults (V := ℕ) .fresh "mma:expiration_buffer:0" 300000000000
        [.add 1700000000000000000 7, .add 1700000001000000000 8, .get 1700000300500000000] =
      (nativeResults 300000000000
        [.add 1700000000000000000 7, .add 1700000001000000000 8,
          .get 1700000300500000000]).map some := by
  refine (backends_agree_iff .fresh "mma:expiration_buffer:0" rfl 300000000000 _
    (by decide)).2 ?_
  rintro before now later h
  obtain ⟨rfl, rfl⟩ : before = [.add 1700000000000000000 7, .add 1700000001000000000 8] ∧
      now = 1700000300500000000 := by
    rcases before with _ | ⟨c, _ | ⟨d, _ | ⟨e, before⟩⟩⟩ <;> simp_all
  refine ⟨by decide, by decide +kernel, fun n v hlive => ?_, fun n v hkept => ?_⟩
  · have hmem : (n, v) ∈ [(1700000001000000000, 8)] := hlive
    obtain ⟨rfl, rfl⟩ := Prod.mk.inj (List.mem_singleton.1 hmem)
    exact ⟨[.add 1700000000000000000 7], [], rfl, by simp, by simp⟩
  · have hmem := hkept.mem
    simp only [List.mem_cons, BufferCall.add.injEq, List.not_mem_nil, or_false] at hmem
    rcases hmem with ⟨rfl, rfl⟩ | ⟨rfl, rfl⟩ <;> decide +kernel

end MarketMaker
