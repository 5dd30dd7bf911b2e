/-
**Expiration buffers of many processes on one server.**

A Redis expiration buffer keeps its values under a key that is made from a counter of its process.
The counter starts at zero with the process; the server is shared by the processes and outlives
them.  So the buffers of one process have keys of their own, and the buffers created as the same
one of their processes share a key, in processes side by side or one after another.

A `get` is two commands, and the reading of the clock comes before each call's command; between
them others take their turns.  The removal of a `get` is therefore an action of its own, which may
come at any time or never, and readings may be in any order.  A call whose connection fails neither
changes nor returns anything, and is no action here.

* `RedisHost`, `hostStep` — the processes, their buffers and the server, and what can happen;
* `setOp` — what an action does to the sorted set at a key;
* `host_history` — **the sorted sets on the server, by the actions taken so far**;
* `Isolated` — a `get` returns only values added through its own buffer;
* `Unmixed` — no other buffer of the same key interferes;
* `isolated_iff` — **in every run, every `get` is isolated if and only if it is unmixed**.
-/

import MarketMaker.RedisBuffer
import Mathlib.Data.Nat.ModEq

set_option relaxedAutoImplicit false
set_option autoImplicit false

namespace MarketMaker

/-! ### The processes and their buffers -/

/-- A process: what its `BUF_COUNTER` reads, and whether it still runs. -/
structure RedisProcess where
  counter : UInt64
  running : Bool

/-- A buffer of a process, for values of one type. -/
structure BufferObject (T : Type) where
  process : ℕ
  type : T
  buffer : RedisExpirationBuffer

/-- The processes started so far, their buffers, the server, and the removals of `get`s that have
not been carried out. -/
structure RedisHost (T : Type) where
  processes : List RedisProcess
  buffers : List (BufferObject T)
  server : RedisServer
  removals : List (String × ℚ)

variable {T : Type} {V : T → Type}

/-- What can happen.  Processes and buffers are numbered in the order in which they start and are
created; a value comes with its type. -/
inductive HostAction (V : T → Type)
  | start
  | stop (process : ℕ)
  | new (process : ℕ) (type : T) (ttl : ℕ)
  | add (b : ℕ) (now : ℕ) (value : Σ type, V type)
  | get (b : ℕ) (now : ℕ)
  | remove (key : String) (max : ℚ)

namespace RedisHost

/-- Nothing has started, and the server stores nothing. -/
def fresh : RedisHost T := ⟨[], [], .fresh, []⟩

/-- The process has started and not stopped. -/
def running (s : RedisHost T) (p : ℕ) : Bool := (s.processes[p]?).any RedisProcess.running

end RedisHost

variable [∀ type, SerdeJson (V type)]

/-- One action, if it is possible. -/
def hostStep [DecidableEq T] (s : RedisHost T) : HostAction V → Option (RedisHost T)
  | .start => some { s with processes := s.processes ++ [⟨0, true⟩] }
  | .stop p =>
      match s.processes[p]? with
      | some ⟨counter, true⟩ => some { s with processes := s.processes.set p ⟨counter, false⟩ }
      | _ => none
  | .new p type ttl =>
      match s.processes[p]? with
      | some ⟨counter, true⟩ =>
          let created := RedisExpirationBuffer.new counter ttl
          some { s with
            processes := s.processes.set p ⟨created.2, true⟩
            buffers := s.buffers ++ [⟨p, type, created.1⟩] }
      | _ => none
  | .add b now value =>
      match s.buffers[b]? with
      | some o =>
          if s.running o.process ∧ value.1 = o.type then
            some { s with server := o.buffer.add s.server now value.2 }
          else none
      | none => none
  | .get b now =>
      match s.buffers[b]? with
      | some o =>
          if s.running o.process then
            some { s with removals := (o.buffer.key, minScore o.buffer.ttl now) :: s.removals }
          else none
      | none => none
  | .remove key max =>
      if (key, max) ∈ s.removals then
        some { s with
          server := s.server.zremrangebyscore key max
          removals := s.removals.erase (key, max) }
      else none

/-- A `get` is the query at one time and the removal at another. -/
theorem snd_get (b : RedisExpirationBuffer) (type : T) (server : RedisServer) (now : ℕ) :
    (b.get (V type) server now).2 = server.zremrangebyscore b.key (minScore b.ttl now) := by
  unfold RedisExpirationBuffer.get RedisServer.zrangebyscore RedisServer.zremrangebyscore
  rcases server b.key with _ | ⟨_ | _⟩ <;> rfl

/-- **What an action can do.** -/
theorem hostStep_cases [DecidableEq T] {s t : RedisHost T} {a : HostAction V}
    (h : hostStep s a = some t) :
    (a = .start ∧ t = { s with processes := s.processes ++ [⟨0, true⟩] }) ∨
      (∃ p counter, a = .stop p ∧ s.processes[p]? = some ⟨counter, true⟩ ∧
        t = { s with processes := s.processes.set p ⟨counter, false⟩ }) ∨
      (∃ p type ttl counter, a = .new p type ttl ∧ s.processes[p]? = some ⟨counter, true⟩ ∧
        t = { s with
          processes := s.processes.set p ⟨(RedisExpirationBuffer.new counter ttl).2, true⟩
          buffers := s.buffers ++ [⟨p, type, (RedisExpirationBuffer.new counter ttl).1⟩] }) ∨
      (∃ b now value o, a = .add b now value ∧ s.buffers[b]? = some o ∧ s.running o.process ∧
        value.1 = o.type ∧ t = { s with server := o.buffer.add s.server now value.2 }) ∨
      (∃ b now o, a = .get b now ∧ s.buffers[b]? = some o ∧ s.running o.process ∧
        t = { s with removals := (o.buffer.key, minScore o.buffer.ttl now) :: s.removals }) ∨
      (∃ key max, a = .remove key max ∧ (key, max) ∈ s.removals ∧
        t = { s with
          server := s.server.zremrangebyscore key max
          removals := s.removals.erase (key, max) }) := by
  cases a with
  | start => exact Or.inl ⟨rfl, (Option.some.inj h).symm⟩
  | stop p =>
      rw [hostStep] at h
      split at h
      · rename_i counter hp
        exact Or.inr (Or.inl ⟨p, counter, rfl, hp, (Option.some.inj h).symm⟩)
      · cases h
  | new p type ttl =>
      rw [hostStep] at h
      split at h
      · rename_i counter hp
        exact Or.inr (Or.inr (Or.inl ⟨p, type, ttl, counter, rfl, hp, (Option.some.inj h).symm⟩))
      · cases h
  | add b now value =>
      rw [hostStep] at h
      split at h
      · rename_i o ho
        split_ifs at h with hguard
        exact Or.inr (Or.inr (Or.inr (Or.inl
          ⟨b, now, value, o, rfl, ho, hguard.1, hguard.2, (Option.some.inj h).symm⟩)))
      · cases h
  | get b now =>
      rw [hostStep] at h
      split at h
      · rename_i o ho
        split_ifs at h with hguard
        exact Or.inr (Or.inr (Or.inr (Or.inr (Or.inl
          ⟨b, now, o, rfl, ho, hguard, (Option.some.inj h).symm⟩))))
      · cases h
  | remove key max =>
      rw [hostStep] at h
      split_ifs at h with hguard
      exact Or.inr (Or.inr (Or.inr (Or.inr (Or.inr
        ⟨key, max, rfl, hguard, (Option.some.inj h).symm⟩))))

/-! ### The sorted sets on the server -/

/-- What an action does to the sorted set at a key, given the buffers created. -/
def setOp (buffers : List (BufferObject T)) (key : String) :
    HostAction V → Option (SortedSet.Op ℚ String)
  | .add b now value =>
      match buffers[b]? with
      | some o =>
          if o.buffer.key = key then some (.add (asSecsF64 now) (SerdeJson.toString value.2))
          else none
      | none => none
  | .remove key' max => if key' = key then some (.removeUpTo max) else none
  | _ => none

/-- What holds of the actions taken so far and the state: values were added through buffers of
their type, and the sorted sets are what the actions made of them. -/
structure HostHistory (acts : List (HostAction V)) (s : RedisHost T) : Prop where
  added : ∀ b now value, .add b now value ∈ acts → ∃ o, s.buffers[b]? = some o ∧ value.1 = o.type
  stored : ∀ key, s.server.StoresSet key (SortedSet.after (setOp s.buffers key) acts)

/-- Creating buffers changes nothing about what was added before. -/
theorem HostHistory.setOp_append {acts : List (HostAction V)} {s : RedisHost T}
    (h : HostHistory acts s) (created : List (BufferObject T)) (key : String) :
    ∀ a ∈ acts, setOp s.buffers key a = setOp (s.buffers ++ created) key a := by
  intro a ha
  cases a with
  | add b now value =>
      obtain ⟨o, ho, -⟩ := h.added b now value ha
      have hlt : b < s.buffers.length := (List.getElem?_eq_some_iff.1 ho).1
      rw [setOp, setOp, List.getElem?_append_left hlt]
  | _ => rfl

/-- An action that concerns no sorted set. -/
theorem HostHistory.skip {acts : List (HostAction V)} {s t : RedisHost T} {a : HostAction V}
    (h : HostHistory acts s) (hbuffers : t.buffers = s.buffers) (hserver : t.server = s.server)
    (hnot : ∀ b now value, a ≠ .add b now value) (hop : ∀ key, setOp s.buffers key a = none) :
    HostHistory (acts ++ [a]) t := by
  constructor
  · intro b now value hadd
    rw [hbuffers]
    rcases List.mem_append.1 hadd with hadd | hadd
    · exact h.added b now value hadd
    · exact absurd (List.mem_singleton.1 hadd).symm (hnot b now value)
  · intro key
    rw [SortedSet.after_concat, hbuffers, hop, hserver]
    exact h.stored key

/-- An add through a buffer. -/
theorem HostHistory.add {acts : List (HostAction V)} {s : RedisHost T} (h : HostHistory acts s)
    {b : ℕ} {o : BufferObject T} (ho : s.buffers[b]? = some o) (now : ℕ)
    {value : Σ type, V type} (htype : value.1 = o.type) :
    HostHistory (acts ++ [.add b now value])
      { s with server := o.buffer.add s.server now value.2 } := by
  constructor
  · intro b' now' value' hadd
    rcases List.mem_append.1 hadd with hadd | hadd
    · exact h.added b' now' value' hadd
    · obtain ⟨rfl, rfl, rfl⟩ := HostAction.add.inj (List.mem_singleton.1 hadd)
      exact ⟨o, ho, htype⟩
  · intro key
    rw [SortedSet.after_concat]
    by_cases hkey : o.buffer.key = key
    · have hop : setOp s.buffers key (.add b now value : HostAction V) =
          some (.add (asSecsF64 now) (SerdeJson.toString value.2)) := by simp [setOp, ho, hkey]
      rw [hop]
      exact hkey ▸ (h.stored o.buffer.key).zadd (asSecsF64 now) _
    · have hop : setOp s.buffers key (.add b now value : HostAction V) = none := by
        simp [setOp, ho, hkey]
      rw [hop]
      exact (h.stored key).zadd_of_ne (Ne.symm hkey) (asSecsF64 now) _

/-- A removal. -/
theorem HostHistory.remove {acts : List (HostAction V)} {s : RedisHost T} (h : HostHistory acts s)
    (key : String) (max : ℚ) (removals : List (String × ℚ)) :
    HostHistory (acts ++ [.remove key max])
      { s with server := s.server.zremrangebyscore key max, removals := removals } := by
  refine ⟨by simpa using h.added, fun key' => ?_⟩
  rw [SortedSet.after_concat]
  by_cases hkey : key = key'
  · have hop : setOp s.buffers key' (.remove key max : HostAction V) = some (.removeUpTo max) :=
      if_pos hkey
    rw [hop]
    exact hkey ▸ (h.stored key).zremrangebyscore max
  · have hop : setOp s.buffers key' (.remove key max : HostAction V) = none := if_neg hkey
    rw [hop]
    exact (h.stored key').zremrangebyscore_of_ne (Ne.symm hkey) max

/-- **One action extends the history.** -/
theorem HostHistory.step [DecidableEq T] {acts : List (HostAction V)} {s t : RedisHost T}
    {a : HostAction V} (h : HostHistory acts s) (hstep : hostStep s a = some t) :
    HostHistory (acts ++ [a]) t := by
  rcases hostStep_cases hstep with ⟨rfl, rfl⟩ | ⟨p, counter, rfl, -, rfl⟩ |
    ⟨p, type, ttl, counter, rfl, -, rfl⟩ | ⟨b, now, value, o, rfl, ho, -, htype, rfl⟩ |
    ⟨b, now, o, rfl, -, -, rfl⟩ | ⟨key, max, rfl, -, rfl⟩
  · exact h.skip rfl rfl (by simp) fun _ => rfl
  · exact h.skip rfl rfl (by simp) fun _ => rfl
  · constructor
    · intro b now value hadd
      obtain ⟨o, ho, htype⟩ := h.added b now value (by simpa using hadd)
      have hlt : b < s.buffers.length := (List.getElem?_eq_some_iff.1 ho).1
      exact ⟨o, by rw [List.getElem?_append_left hlt, ho], htype⟩
    · intro key
      rw [SortedSet.after_concat]
      exact SortedSet.after_congr _ (h.setOp_append _ key) ▸ h.stored key
  · exact h.add ho now htype
  · exact h.skip rfl rfl (by simp) fun _ => rfl
  · exact h.remove key max _

/-- **The sorted sets on the server**, after every run. -/
theorem host_history [DecidableEq T] {acts : List (HostAction V)} {s : RedisHost T}
    (h : Transition.exec hostStep .fresh acts = some s) : HostHistory acts s := by
  refine Transition.exec_history (I := HostHistory) ?_ (fun _ _ _ _ hs => hs.step) h
  exact ⟨by simp, fun key => Or.inr ⟨rfl, rfl⟩⟩

/-! ### The keys -/

/-- How many of the buffers a process created. -/
def createdIn (buffers : List (BufferObject T)) (p : ℕ) : ℕ :=
  buffers.countP fun o => o.process = p

/-- The key made from a counter. -/
def bufferKey (counter : UInt64) : String := (RedisExpirationBuffer.new counter 0).1.key

/-- What holds of the counters and keys: a counter has counted the buffers its process created, and
the key of a buffer is made from the number created before it. -/
structure HostNumbers (s : RedisHost T) : Prop where
  known : ∀ o ∈ s.buffers, o.process < s.processes.length
  counters : ∀ p q, s.processes[p]? = some q → q.counter = UInt64.ofNat (createdIn s.buffers p)
  keys : ∀ b o, s.buffers[b]? = some o →
    o.buffer.key = bufferKey (UInt64.ofNat (createdIn (s.buffers.take b) o.process))

/-- An action that creates no buffer and sets no counter. -/
theorem HostNumbers.congr {s t : RedisHost T} (h : HostNumbers s) (hbuffers : t.buffers = s.buffers)
    (hprocesses : t.processes = s.processes) : HostNumbers t := by
  constructor
  · rw [hbuffers, hprocesses]
    exact h.known
  · rw [hbuffers, hprocesses]
    exact h.counters
  · rw [hbuffers]
    exact h.keys

theorem HostNumbers.start {s : RedisHost T} (h : HostNumbers s) :
    HostNumbers { s with processes := s.processes ++ [⟨0, true⟩] } := by
  refine ⟨fun o ho => ?_, fun p q hp => ?_, h.keys⟩
  · have hlt := h.known o ho
    simp only [List.length_append, List.length_singleton]
    omega
  · rw [List.getElem?_append] at hp
    split_ifs at hp with hlt
    · exact h.counters p q hp
    · -- the process that has just started has created nothing
      have hq : q = ⟨0, true⟩ := by
        rw [List.getElem?_singleton] at hp
        split_ifs at hp
        exact (Option.some.inj hp).symm
      have hnone : createdIn s.buffers p = 0 := by
        refine List.countP_eq_zero.2 fun o ho => ?_
        have hlt' := h.known o ho
        simp only [decide_eq_true_eq]
        omega
      rw [hnone, hq]
      rfl

theorem HostNumbers.stop {s : RedisHost T} (h : HostNumbers s) {p : ℕ} {counter : UInt64}
    (hp : s.processes[p]? = some ⟨counter, true⟩) :
    HostNumbers { s with processes := s.processes.set p ⟨counter, false⟩ } := by
  refine ⟨fun o ho => ?_, fun p' q hp' => ?_, h.keys⟩
  · rw [List.length_set]
    exact h.known o ho
  · rw [List.getElem?_set] at hp'
    split_ifs at hp' with heq hlt
    · obtain rfl := Option.some.inj hp'
      have hcounter : counter = UInt64.ofNat (createdIn s.buffers p) := h.counters p _ hp
      exact heq ▸ hcounter
    · exact h.counters p' q hp'

theorem HostNumbers.new {s : RedisHost T} (h : HostNumbers s) {p : ℕ} {counter : UInt64}
    (hp : s.processes[p]? = some ⟨counter, true⟩) (type : T) (ttl : ℕ) :
    HostNumbers { s with
      processes := s.processes.set p ⟨(RedisExpirationBuffer.new counter ttl).2, true⟩
      buffers := s.buffers ++ [⟨p, type, (RedisExpirationBuffer.new counter ttl).1⟩] } := by
  have hlt : p < s.processes.length := (List.getElem?_eq_some_iff.1 hp).1
  have hcounter : counter = UInt64.ofNat (createdIn s.buffers p) := h.counters p _ hp
  set created := [(⟨p, type, (RedisExpirationBuffer.new counter ttl).1⟩ : BufferObject T)]
  refine ⟨fun o ho => ?_, fun p' q hp' => ?_, fun b o hb => ?_⟩
  · rw [List.length_set]
    rcases List.mem_append.1 ho with ho | ho
    · exact h.known o ho
    · rw [List.mem_singleton.1 ho]
      exact hlt
  · change q.counter = UInt64.ofNat (createdIn (s.buffers ++ [_]) p')
    rw [createdIn, List.countP_append, ← createdIn, List.countP_singleton]
    rw [List.getElem?_set] at hp'
    split_ifs at hp' with heq
    · obtain rfl := Option.some.inj hp'
      rw [if_pos (by simpa using heq), UInt64.ofNat_add, ← heq, ← hcounter]
      rfl
    · rw [if_neg (by simpa using heq), Nat.add_zero]
      exact h.counters p' q hp'
  · rw [List.getElem?_append] at hb
    split_ifs at hb with hlt'
    · have htake : (s.buffers ++ created).take b = s.buffers.take b :=
        List.take_append_of_le_length hlt'.le
      rw [htake]
      exact h.keys b o hb
    · rw [List.getElem?_singleton] at hb
      split_ifs at hb with hzero
      obtain rfl := Option.some.inj hb
      have hb' : b = s.buffers.length := by omega
      have htake : (s.buffers ++ created).take b = s.buffers := by rw [hb', List.take_left]
      rw [htake, ← hcounter]
      rfl

/-- **The counters and keys**, after every run. -/
theorem host_numbers [DecidableEq T] {acts : List (HostAction V)} {s : RedisHost T}
    (h : Transition.exec hostStep .fresh acts = some s) : HostNumbers s := by
  refine Transition.exec_invariant (I := HostNumbers) ?_ ⟨by simp [RedisHost.fresh],
    by simp [RedisHost.fresh], by simp [RedisHost.fresh]⟩ h
  intro s a t hs hstep
  rcases hostStep_cases hstep with ⟨-, rfl⟩ | ⟨p, counter, -, hp, rfl⟩ |
    ⟨p, type, ttl, counter, -, hp, rfl⟩ | ⟨b, now, value, o, -, -, -, -, rfl⟩ |
    ⟨b, now, o, -, -, -, rfl⟩ | ⟨key, max, -, -, rfl⟩
  · exact hs.start
  · exact hs.stop hp
  · exact hs.new hp type ttl
  · exact hs.congr rfl rfl
  · exact hs.congr rfl rfl
  · exact hs.congr rfl rfl

theorem bufferKey_injective : Function.Injective bufferKey := by
  intro counter counter' h
  have htext : toString counter.toNat = toString counter'.toNat := (String.append_right_inj _).1 h
  have hdigits := congrArg (fun s : String => Nat.ofDigitChars 10 s.toList 0) htext
  simp only [Nat.toString_eq_repr, Nat.toList_repr, Nat.ofDigitChars_ten_toDigits] at hdigits
  exact UInt64.toNat_inj.1 hdigits

/-- **Two buffers share a key** exactly if their processes had created as many before them, up to
the wrapping of the counter. -/
theorem HostNumbers.sameKey_iff {s : RedisHost T} (h : HostNumbers s) {b b' : ℕ}
    {o o' : BufferObject T} (ho : s.buffers[b]? = some o) (ho' : s.buffers[b']? = some o') :
    o.buffer.key = o'.buffer.key ↔
      createdIn (s.buffers.take b) o.process ≡ createdIn (s.buffers.take b') o'.process
        [MOD 2 ^ 64] := by
  rw [h.keys b o ho, h.keys b' o' ho', bufferKey_injective.eq_iff, ← UInt64.toNat_inj,
    UInt64.toNat_ofNat', UInt64.toNat_ofNat']
  rfl

/-- The buffers of one process have keys of their own, as long as its counter does not wrap. -/
theorem HostNumbers.key_ne {s : RedisHost T} (h : HostNumbers s) {p : ℕ}
    (hone : ∀ o ∈ s.buffers, o.process = p) (hfew : s.buffers.length ≤ 2 ^ 64) {b b' : ℕ}
    {o o' : BufferObject T} (ho : s.buffers[b]? = some o) (ho' : s.buffers[b']? = some o')
    (hne : b' ≠ b) : o'.buffer.key ≠ o.buffer.key := by
  have hcount : ∀ n q, s.buffers[n]? = some q →
      createdIn (s.buffers.take n) q.process = n ∧ n < 2 ^ 64 := by
    intro n q hq
    have hlt : n < s.buffers.length := (List.getElem?_eq_some_iff.1 hq).1
    have hall : createdIn (s.buffers.take n) q.process = (s.buffers.take n).length := by
      refine List.countP_eq_length.2 fun o ho => ?_
      rw [decide_eq_true_eq, hone o (List.mem_of_mem_take ho), hone q (List.mem_of_getElem? hq)]
    rw [hall, List.length_take]
    omega
  rw [Ne, h.sameKey_iff ho' ho, (hcount b o ho).1, (hcount b' o' ho').1]
  intro hmod
  exact hne (hmod.eq_of_lt_of_lt (hcount b' o' ho').2 (hcount b o ho).2)

/-! ### Isolation -/

/-- The value was added through the buffer. -/
def AddedThrough (acts : List (HostAction V)) (b : ℕ) (value : Σ type, V type) : Prop :=
  ∃ now, .add b now value ∈ acts

/-- A `get` on the buffer at the reading `now` returns, and only values added through it. -/
def Isolated (acts : List (HostAction V)) (s : RedisHost T) (b now : ℕ) : Prop :=
  ∀ o, s.buffers[b]? = some o →
    ∃ values, (o.buffer.get (V o.type) s.server now).1 = some values ∧
      ∀ v ∈ values, AddedThrough acts b ⟨o.type, v⟩

/-- A value another buffer of the same key added is still there for a `get` at the reading `now`: it
was neither added again under the key nor removed, and its score is not below the lower bound. -/
def Interferes (acts : List (HostAction V)) (s : RedisHost T) (b now : ℕ) (o : BufferObject T)
    (value : Σ type, V type) : Prop :=
  ∃ before b', ∃ time : ℕ, ∃ later o', acts = before ++ .add b' time value :: later ∧ b' ≠ b ∧
    s.buffers[b']? = some o' ∧ o'.buffer.key = o.buffer.key ∧
    (∀ b'' time' value', .add b'' time' value' ∈ later → ∀ o'', s.buffers[b'']? = some o'' →
      o''.buffer.key = o.buffer.key →
        SerdeJson.toString value'.2 ≠ SerdeJson.toString value.2) ∧
    (∀ max, .remove o.buffer.key max ∈ later → max < asSecsF64 time) ∧
    minScore o.buffer.ttl now ≤ asSecsF64 time

/-- Whatever another buffer of the same key left reads as a value added through the buffer too. -/
def Unmixed (acts : List (HostAction V)) (s : RedisHost T) (b now : ℕ) : Prop :=
  ∀ o, s.buffers[b]? = some o → ∀ value, Interferes acts s b now o value →
    ∃ v : V o.type, SerdeJson.fromStr (SerdeJson.toString value.2) = some v ∧
      AddedThrough acts b ⟨o.type, v⟩

/-- All elements of a list are read, and as something with a property, exactly if each is. -/
theorem exists_mapM_eq_some_iff {A B : Type} {f : A → Option B} {P : B → Prop} {l : List A} :
    (∃ bs, l.mapM f = some bs ∧ ∀ b ∈ bs, P b) ↔ ∀ a ∈ l, ∃ b, f a = some b ∧ P b := by
  induction l with
  | nil => simp
  | cons a l ih =>
      rw [List.forall_mem_cons, ← ih]
      constructor
      · rintro ⟨bs, hbs, hP⟩
        rw [List.mapM_cons, Option.bind_eq_bind, Option.bind_eq_some_iff] at hbs
        obtain ⟨b, hb, hrest⟩ := hbs
        obtain ⟨bs', hbs', heq⟩ := Option.bind_eq_some_iff.1 hrest
        obtain rfl := Option.some.inj heq
        obtain ⟨hPb, hPbs⟩ := List.forall_mem_cons.1 hP
        exact ⟨⟨b, hb, hPb⟩, bs', hbs', hPbs⟩
      · rintro ⟨⟨b, hb, hPb⟩, bs, hbs, hPbs⟩
        refine ⟨b :: bs, ?_, List.forall_mem_cons.2 ⟨hPb, hPbs⟩⟩
        simp [List.mapM_cons, hb, hbs]

/-- A `get` is isolated if each text it finds reads as a value added through the buffer. -/
theorem HostHistory.isolated_iff_texts {acts : List (HostAction V)} {s : RedisHost T}
    (h : HostHistory acts s) (b now : ℕ) :
    Isolated acts s b now ↔ ∀ o, s.buffers[b]? = some o → ∀ time text,
      SortedSet.Survives (setOp s.buffers o.buffer.key) acts time text →
      minScore o.buffer.ttl now ≤ time →
        ∃ v : V o.type, SerdeJson.fromStr text = some v ∧ AddedThrough acts b ⟨o.type, v⟩ := by
  refine forall_congr' fun o => forall_congr' fun ho => ?_
  have hget : (o.buffer.get (V o.type) s.server now).1 =
      ((SortedSet.after (setOp s.buffers o.buffer.key) acts).rangeFrom
        (minScore o.buffer.ttl now)).mapM SerdeJson.fromStr := by
    simp only [RedisExpirationBuffer.get, (h.stored o.buffer.key).zrangebyscore]
  rw [hget, exists_mapM_eq_some_iff]
  simp only [SortedSet.mem_rangeFrom, SortedSet.mem_after]
  constructor
  · intro hall time text hsurvives hmin
    exact hall text ⟨time, hsurvives, hmin⟩
  · rintro hall text ⟨time, hsurvives, hmin⟩
    exact hall time text hsurvives hmin

/-- An action that adds at a key. -/
theorem setOp_eq_add_iff {buffers : List (BufferObject T)} {key text : String} {time : ℚ}
    {a : HostAction V} :
    setOp buffers key a = some (.add time text) ↔
      ∃ b now value o, a = .add b now value ∧ buffers[b]? = some o ∧ o.buffer.key = key ∧
        time = asSecsF64 now ∧ text = SerdeJson.toString value.2 := by
  constructor
  · intro h
    cases a with
    | add b now value =>
        rw [setOp] at h
        split at h
        · rename_i o ho
          split_ifs at h with hkey
          obtain ⟨rfl, rfl⟩ := SortedSet.Op.add.inj (Option.some.inj h)
          exact ⟨b, now, value, o, rfl, ho, hkey, rfl, rfl⟩
        · cases h
    | remove key' max =>
        rw [setOp] at h
        split_ifs at h
        cases h
    | _ => cases h
  · rintro ⟨b, now, value, o, rfl, ho, hkey, rfl, rfl⟩
    simp [setOp, ho, hkey]

theorem setOp_eq_removeUpTo_iff {buffers : List (BufferObject T)} {key : String} {max : ℚ}
    {a : HostAction V} :
    setOp buffers key a = some (.removeUpTo max) ↔ a = .remove key max := by
  constructor
  · intro h
    cases a with
    | add b now value =>
        rw [setOp] at h
        split at h
        · split_ifs at h
          cases h
        · cases h
    | remove key' max' =>
        rw [setOp] at h
        split_ifs at h with hkey
        obtain rfl := SortedSet.Op.removeUpTo.inj (Option.some.inj h)
        rw [hkey]
    | _ => cases h
  · rintro rfl
    exact if_pos rfl

/-- **A `get` is isolated exactly if it is unmixed**: what was added last through the buffer itself
reads as itself. -/
theorem HostHistory.isolated_iff_unmixed {acts : List (HostAction V)} {s : RedisHost T}
    (h : HostHistory acts s) (b now : ℕ) : Isolated acts s b now ↔ Unmixed acts s b now := by
  rw [h.isolated_iff_texts]
  refine forall_congr' fun o => forall_congr' fun ho => ?_
  constructor
  · rintro hall value ⟨before, b', time, later, o', hsplit, -, ho', hkey, hagain, hremoved, hmin⟩
    refine hall (asSecsF64 time) _ ⟨before, _, later, hsplit, ?_, ?_, ?_⟩ hmin
    · exact setOp_eq_add_iff.2 ⟨b', time, value, o', rfl, ho', hkey, rfl, rfl⟩
    · intro a ha t hadd
      obtain ⟨b'', now', value', o'', rfl, ho'', hkey'', -, htext⟩ := setOp_eq_add_iff.1 hadd
      exact hagain b'' now' value' ha o'' ho'' hkey'' htext.symm
    · intro a ha max hmax
      obtain rfl := setOp_eq_removeUpTo_iff.1 hmax
      exact hremoved max ha
  · rintro hunmixed time text ⟨before, a, later, hsplit, hadd, hagain, hremoved⟩ hmin
    obtain ⟨b', now', value, o', rfl, ho', hkey, rfl, rfl⟩ := setOp_eq_add_iff.1 hadd
    by_cases hself : b' = b
    · -- its own value
      subst hself
      have hmem : .add b' now' value ∈ acts := by simp [hsplit]
      obtain ⟨o'', ho'', htype⟩ := h.added b' now' value hmem
      obtain rfl := Option.some.inj (ho.symm.trans ho'')
      obtain ⟨type, v⟩ := value
      subst htype
      exact ⟨v, SerdeJson.round_trip v, now', hmem⟩
    · refine hunmixed value ⟨before, b', now', later, o', hsplit, hself, ho', hkey, ?_, ?_, hmin⟩
      · intro b'' time' value' hlater o'' ho'' hkey'' htext
        exact hagain _ hlater (asSecsF64 time') (setOp_eq_add_iff.2
          ⟨b'', time', value', o'', rfl, ho'', hkey'', rfl, htext.symm⟩)
      · intro max hlater
        exact hremoved _ hlater max (setOp_eq_removeUpTo_iff.2 rfl)

/-- **Within one process the buffers are isolated**, whatever the interleaving of its calls. -/
theorem isolated_of_one_process [DecidableEq T] {acts : List (HostAction V)} {s : RedisHost T}
    (hs : Transition.exec hostStep .fresh acts = some s) {p : ℕ}
    (hone : ∀ o ∈ s.buffers, o.process = p) (hfew : s.buffers.length ≤ 2 ^ 64) (b now : ℕ) :
    Isolated acts s b now := by
  rw [(host_history hs).isolated_iff_unmixed]
  rintro o ho value ⟨before, b', time, later, o', -, hne, ho', hkey, -⟩
  exact absurd hkey ((host_numbers hs).key_ne hone hfew ho ho' hne)

end MarketMaker
