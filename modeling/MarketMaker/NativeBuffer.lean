/-
**The native expiration buffer returns the live values.**

The buffer is a queue of timestamped values.  `add` appends the value with the current reading of
the clock; `get` pops expired entries off the front until the first live one and returns what is
left.  Both hold the write lock throughout, so that the operations of any number of threads take
place one after another; but the clock goes on while `get` runs, and each test of its loop reads it
anew.  A `get` is therefore given the readings its tests will make, as a monotone sequence.

Time is counted in nanoseconds.  `elapsed` saturates at zero, as subtraction on `ℕ` does.

* `NativeExpirationBuffer.add`, `NativeExpirationBuffer.get` — the code;
* `liveAt` — **the reference**: the added values younger than the ttl, in the order of insertion;
* `bufferStep`, `addsOf` — the runs of the buffer, and the values added in a run;
* `evict_eq_filter` — on entries in the order of their times, eviction from the front removes
  exactly the expired ones;
* `buffer_history` — after any run the buffer holds a suffix of the values added, and every
  other one has expired;
* `get_returns_live` — **every `get` returns exactly the live values**.
-/

import MarketMaker.Transition
import Mathlib.Order.Hom.Basic

set_option relaxedAutoImplicit false
set_option autoImplicit false

namespace MarketMaker

variable {V : Type}

structure NativeExpirationBuffer (V : Type) where
  ttl : ℕ
  /-- The timestamped values, oldest first. -/
  inner : List (ℕ × V)

namespace NativeExpirationBuffer

def new (ttl : ℕ) : NativeExpirationBuffer V := ⟨ttl, []⟩

/-- Append a value with the reading `now` of the clock. -/
def add (b : NativeExpirationBuffer V) (now : ℕ) (value : V) : NativeExpirationBuffer V :=
  { b with inner := b.inner ++ [(now, value)] }

/-- The eviction loop, where `clock i` is the reading of the `i`-th test: the number of tests made,
and the entries left. -/
def evict (ttl : ℕ) : (ℕ → ℕ) → List (ℕ × V) → ℕ × List (ℕ × V)
  | _, [] => (0, [])
  | clock, front :: list =>
      if ttl ≤ clock 0 - front.1 then
        let rest := evict ttl (fun i => clock (i + 1)) list
        (rest.1 + 1, rest.2)
      else (1, front :: list)

/-- Evict, and return the values left. -/
def get (b : NativeExpirationBuffer V) (clock : ℕ → ℕ) : List V × NativeExpirationBuffer V :=
  let list := (evict b.ttl clock b.inner).2
  (list.map Prod.snd, { b with inner := list })

/-- The last of the first `n` readings, and `before` when there is none. -/
def lastOf (before : ℕ) (clock : ℕ → ℕ) : ℕ → ℕ
  | 0 => before
  | n + 1 => clock n

/-- The last reading `get` makes, and `before` when it makes none. -/
def lastReading (b : NativeExpirationBuffer V) (before : ℕ) (clock : ℕ → ℕ) : ℕ :=
  lastOf before clock (evict b.ttl clock b.inner).1

/-- All readings of a clock that stands still are the same. -/
theorem lastReading_const (b : NativeExpirationBuffer V) (now : ℕ) :
    b.lastReading now (fun _ => now) = now := by
  rw [lastReading]
  cases (evict b.ttl (fun _ => now) b.inner).1 <;> rfl

end NativeExpirationBuffer

/-- The entries younger than `ttl` at the reading `now`. -/
def liveAt (ttl now : ℕ) (adds : List (ℕ × V)) : List (ℕ × V) :=
  adds.filter fun e => now - e.1 < ttl

theorem liveAt_append (ttl now : ℕ) (l l' : List (ℕ × V)) :
    liveAt ttl now (l ++ l') = liveAt ttl now l ++ liveAt ttl now l' := List.filter_append ..

theorem liveAt_liveAt (ttl now : ℕ) (l : List (ℕ × V)) :
    liveAt ttl now (liveAt ttl now l) = liveAt ttl now l := by
  simp [liveAt, List.filter_filter]

theorem liveAt_eq_nil_iff {ttl now : ℕ} {l : List (ℕ × V)} :
    liveAt ttl now l = [] ↔ ∀ e ∈ l, ttl ≤ now - e.1 := by
  simp [liveAt, List.filter_eq_nil_iff]

/-- An entry expired at a reading is expired at every later one. -/
theorem liveAt_eq_nil_of_le {ttl now now' : ℕ} {l : List (ℕ × V)} (hle : now ≤ now')
    (h : ∀ e ∈ l, ttl ≤ now - e.1) : liveAt ttl now' l = [] :=
  liveAt_eq_nil_iff.2 fun e he => le_trans (h e he) (Nat.sub_le_sub_right hle e.1)

/-! ### Runs of the buffer -/

/-- An operation of a thread, with the readings of the clock it makes. -/
inductive BufferOp (V : Type)
  | add (thread : ℕ) (now : ℕ) (value : V)
  | get (thread : ℕ) (clock : ℕ →o ℕ)

/-- A buffer together with the last reading made of the clock. -/
structure TimedBuffer (V : Type) where
  clock : ℕ
  buffer : NativeExpirationBuffer V

/-- An operation takes place if the clock has not gone back. -/
def bufferStep (s : TimedBuffer V) : BufferOp V → Option (TimedBuffer V)
  | .add _ now value =>
      if s.clock ≤ now then some ⟨now, s.buffer.add now value⟩ else none
  | .get _ clock =>
      if s.clock ≤ clock 0 then
        some ⟨s.buffer.lastReading s.clock clock, (s.buffer.get clock).2⟩
      else none

/-- The values added by the operations, with their times. -/
def addsOf : List (BufferOp V) → List (ℕ × V)
  | [] => []
  | .add _ now value :: ops => (now, value) :: addsOf ops
  | .get _ _ :: ops => addsOf ops

theorem addsOf_append (ops ops' : List (BufferOp V)) :
    addsOf (ops ++ ops') = addsOf ops ++ addsOf ops' := by
  induction ops with
  | nil => rfl
  | cons op ops ih => cases op <;> simp [addsOf, ih]

/-! ### Eviction -/

open NativeExpirationBuffer

/-- **Eviction from the front removes exactly the expired entries**: expired, that is, at the last
reading made. -/
theorem evict_eq_filter (ttl : ℕ) : ∀ (l : List (ℕ × V)) (clock : ℕ → ℕ) (before : ℕ),
    Monotone clock → before ≤ clock 0 → (l.Pairwise fun a b => a.1 ≤ b.1) →
    (evict ttl clock l).2 = liveAt ttl (lastOf before clock (evict ttl clock l).1) l ∧
      before ≤ lastOf before clock (evict ttl clock l).1 := by
  intro l
  induction l with
  | nil => intro clock before _ _ _; exact ⟨rfl, le_rfl⟩
  | cons front l ih =>
      intro clock before hmono hbefore hsorted
      obtain ⟨hfront, hl⟩ := List.pairwise_cons.1 hsorted
      rw [evict]
      split_ifs with hexp
      · -- the front is evicted at the first reading; the tests that follow are later
        obtain ⟨hrest, hle⟩ := ih (fun i => clock (i + 1)) (clock 0)
          (fun i j hij => hmono (Nat.succ_le_succ hij)) (hmono (Nat.zero_le 1)) hl
        have hdec : lastOf before clock ((evict ttl (fun i => clock (i + 1)) l).1 + 1) =
            lastOf (clock 0) (fun i => clock (i + 1)) (evict ttl (fun i => clock (i + 1)) l).1 := by
          cases (evict ttl (fun i => clock (i + 1)) l).1 <;> rfl
        simp only [hdec]
        refine ⟨?_, le_trans hbefore hle⟩
        rw [liveAt, List.filter_cons_of_neg (by simp; omega)]
        exact hrest
      · -- the front is live, and the entries behind it are younger
        refine ⟨?_, hbefore⟩
        rw [liveAt, List.filter_eq_self.2]
        intro e he
        show decide (clock 0 - e.1 < ttl) = true
        rw [decide_eq_true_eq]
        rcases List.mem_cons.1 he with rfl | he
        · omega
        · have := hfront e he
          omega

/-- What eviction leaves is a last part of the entries. -/
theorem evict_suffix (ttl : ℕ) : ∀ (l : List (ℕ × V)) (clock : ℕ → ℕ),
    (evict ttl clock l).2 <:+ l := by
  intro l
  induction l with
  | nil => intro clock; exact List.suffix_rfl
  | cons front l ih =>
      intro clock
      rw [evict]
      split_ifs with hexp
      · exact (ih fun i => clock (i + 1)).trans (List.suffix_cons front l)
      · exact List.suffix_rfl

/-! ### What the buffer holds after a run -/

/-- What holds of the values added so far and the buffer: the times added do not decrease and are
not ahead of the clock, and the buffer holds all values but some first ones, which have expired. -/
structure Holds (ttl : ℕ) (adds : List (ℕ × V)) (s : TimedBuffer V) : Prop where
  ttl_eq : s.buffer.ttl = ttl
  sorted : adds.Pairwise fun a b => a.1 ≤ b.1
  past : ∀ e ∈ adds, e.1 ≤ s.clock
  suffix : ∃ evicted, adds = evicted ++ s.buffer.inner ∧ ∀ e ∈ evicted, ttl ≤ s.clock - e.1

/-- An add keeps it. -/
theorem Holds.add {ttl : ℕ} {adds : List (ℕ × V)} {s : TimedBuffer V} (h : Holds ttl adds s)
    {now : ℕ} (hnow : s.clock ≤ now) (value : V) :
    Holds ttl (adds ++ [(now, value)]) ⟨now, s.buffer.add now value⟩ := by
  obtain ⟨evicted, hadds, hexp⟩ := h.suffix
  refine ⟨h.ttl_eq, ?_, ?_, evicted, ?_, ?_⟩
  · refine List.pairwise_append.2 ⟨h.sorted, List.pairwise_singleton _ _, fun a ha b hb => ?_⟩
    rw [List.mem_singleton] at hb
    rw [hb]
    exact le_trans (h.past a ha) hnow
  · intro e he
    rcases List.mem_append.1 he with he | he
    · exact le_trans (h.past e he) hnow
    · rw [List.mem_singleton] at he
      rw [he]
  · rw [NativeExpirationBuffer.add, hadds, List.append_assoc]
  · intro e he
    have := hexp e he
    show ttl ≤ now - e.1
    omega

/-- **A `get` leaves the live values**: those added that are live at its last reading, which is not
before the clock. -/
theorem Holds.evict_eq {ttl : ℕ} {adds : List (ℕ × V)} {s : TimedBuffer V} (h : Holds ttl adds s)
    {clock : ℕ →o ℕ} (hclock : s.clock ≤ clock 0) :
    (evict s.buffer.ttl clock s.buffer.inner).2 =
        liveAt ttl (s.buffer.lastReading s.clock clock) adds ∧
      s.clock ≤ s.buffer.lastReading s.clock clock := by
  obtain ⟨evicted, hadds, hexp⟩ := h.suffix
  have hsorted : s.buffer.inner.Pairwise fun a b => a.1 ≤ b.1 := by
    have := h.sorted
    rw [hadds] at this
    exact (List.pairwise_append.1 this).2.1
  obtain ⟨heq, hle⟩ := evict_eq_filter s.buffer.ttl s.buffer.inner clock s.clock
    clock.monotone hclock hsorted
  refine ⟨?_, hle⟩
  have hgone : liveAt ttl (s.buffer.lastReading s.clock clock) evicted = [] :=
    liveAt_eq_nil_of_le hle hexp
  rw [hadds, liveAt_append, hgone, List.nil_append, ← h.ttl_eq]
  exact heq

/-- A `get` keeps it. -/
theorem Holds.get {ttl : ℕ} {adds : List (ℕ × V)} {s : TimedBuffer V} (h : Holds ttl adds s)
    {clock : ℕ →o ℕ} (hclock : s.clock ≤ clock 0) :
    Holds ttl adds ⟨s.buffer.lastReading s.clock clock, (s.buffer.get clock).2⟩ := by
  obtain ⟨heq, hle⟩ := h.evict_eq hclock
  obtain ⟨evicted, hadds, -⟩ := h.suffix
  obtain ⟨popped, hpopped⟩ := evict_suffix s.buffer.ttl s.buffer.inner clock
  have hall : adds = evicted ++ popped ++ (evict s.buffer.ttl clock s.buffer.inner).2 := by
    rw [hadds, List.append_assoc, hpopped]
  refine ⟨h.ttl_eq, h.sorted, fun e he => le_trans (h.past e he) hle,
    evicted ++ popped, hall, ?_⟩
  -- what is left is all that is live, so nothing live is among what is gone
  have hlive : liveAt ttl (s.buffer.lastReading s.clock clock) (evicted ++ popped) = [] := by
    have hself : liveAt ttl (s.buffer.lastReading s.clock clock)
        (evict s.buffer.ttl clock s.buffer.inner).2 =
          (evict s.buffer.ttl clock s.buffer.inner).2 := by
      rw [heq, liveAt_liveAt]
    rw [hall, liveAt_append, hself] at heq
    exact List.self_eq_append_left.1 heq
  exact liveAt_eq_nil_iff.1 hlive

/-- It survives the passing of time. -/
theorem Holds.mono {ttl clock clock' : ℕ} {adds : List (ℕ × V)} {b : NativeExpirationBuffer V}
    (h : Holds ttl adds ⟨clock, b⟩) (hle : clock ≤ clock') : Holds ttl adds ⟨clock', b⟩ := by
  obtain ⟨evicted, hadds, hexp⟩ := h.suffix
  exact ⟨h.ttl_eq, h.sorted, fun e he => le_trans (h.past e he) hle, evicted, hadds,
    fun e he => le_trans (hexp e he) (Nat.sub_le_sub_right hle e.1)⟩

/-- **What the buffer holds after a run.** -/
theorem buffer_history {ttl : ℕ} {ops : List (BufferOp V)} {s : TimedBuffer V}
    (h : Transition.exec bufferStep ⟨0, new ttl⟩ ops = some s) : Holds ttl (addsOf ops) s := by
  refine Transition.exec_history (I := fun ops s => Holds ttl (addsOf ops) s) ?_ ?_ h
  · exact ⟨rfl, List.Pairwise.nil, by simp [addsOf], [], rfl, by simp⟩
  · intro ops s op t hs hstep
    rw [addsOf_append]
    cases op with
    | add thread now value =>
        simp only [bufferStep, Option.ite_none_right_eq_some, Option.some.injEq] at hstep
        obtain ⟨hnow, rfl⟩ := hstep
        exact hs.add hnow value
    | get thread clock =>
        simp only [bufferStep, Option.ite_none_right_eq_some, Option.some.injEq] at hstep
        obtain ⟨hclock, rfl⟩ := hstep
        simpa [addsOf] using hs.get hclock

/-- **Every `get` returns exactly the live values.**  After any run, of any number of threads, a
`get` returns the values added so far that are younger than the ttl at its last reading of the
clock, in the order of insertion and with multiplicity; and if it leaves the buffer empty, every
value added so far has expired at that reading.  The reading is not before that of any earlier
operation, so a value that has expired stays expired. -/
theorem get_returns_live (ttl : ℕ) (ops : List (BufferOp V)) (s : TimedBuffer V)
    (h : Transition.exec bufferStep ⟨0, new ttl⟩ ops = some s) (clock : ℕ →o ℕ)
    (hclock : s.clock ≤ clock 0) :
    (s.buffer.get clock).1 =
        (liveAt ttl (s.buffer.lastReading s.clock clock) (addsOf ops)).map Prod.snd ∧
      ((s.buffer.get clock).2.inner = [] →
        ∀ e ∈ addsOf ops, ttl ≤ s.buffer.lastReading s.clock clock - e.1) ∧
      s.clock ≤ s.buffer.lastReading s.clock clock := by
  obtain ⟨heq, hle⟩ := (buffer_history h).evict_eq hclock
  refine ⟨congrArg (List.map Prod.snd) heq, fun hempty e he => ?_, hle⟩
  rw [NativeExpirationBuffer.get, heq] at hempty
  exact liveAt_eq_nil_iff.1 hempty e he

/-- Two threads add, and the clock advances between the tests of the `get`. -/
theorem get_returns_live_sample :
    ((⟨9, [(0, 7), (3, 8)]⟩ : NativeExpirationBuffer ℕ).get fun i => 10 + i).1 = [8] :=
  (get_returns_live 9 [.add 1 0 7, .add 2 3 8] ⟨3, ⟨9, [(0, 7), (3, 8)]⟩⟩ rfl
    ⟨fun i => 10 + i, fun _ _ h => Nat.add_le_add_left h 10⟩ (by decide)).1

end MarketMaker
