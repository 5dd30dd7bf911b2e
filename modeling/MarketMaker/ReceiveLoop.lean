/-
**Receive loops that send as they go.**

A feed handler is a loop that receives from a feed, sends values on a channel, and may panic.  What
has been sent before a panic stays sent, so a computation is described by the values it sends, in
order, together with a result that is absent when it panicked (`Sends`).

The feed is a finite list of messages after which every `recv` answers `none`.  The loop
(`ReceiveLoop.loop`) is run for a number of iterations; it is not assumed to stop, and
`Exit.running` records that the iterations ran out first.

* `Sends` — computations that send and may panic, a lawful monad;
* `ReceiveLoop.onMessages` — handling a list of messages, one after another;
* `ReceiveLoop.sendOne` — handling a message by updating the state and sending one value read off
  it, with `ReceiveLoop.sent_sendOne_eq_some_iff` and `ReceiveLoop.onMessages_sendOne` for what is
  sent;
* `ReceiveLoop.loop_messages` — the loop first handles the messages of the feed;
* `ReceiveLoop.loop_stops` — **a loop that leaves on a closed feed returns**, one iteration after
  the last message;
* `ReceiveLoop.loop_ne_returned` — **a loop whose body never leaves it never returns**.
-/

import Mathlib.Data.List.Basic

set_option relaxedAutoImplicit false
set_option autoImplicit false

/-! ### Computations that send -/

/-- What a computation sends, in order, and its result, absent when it panicked. -/
@[ext] structure Sends (O α : Type) where
  /-- The values sent. -/
  sent : List O
  /-- The result, absent after a panic. -/
  result : Option α
deriving DecidableEq

namespace Sends

variable {O α β : Type}

/-- Sequencing: what was sent before a panic stays sent. -/
protected def bind (x : Sends O α) (f : α → Sends O β) : Sends O β :=
  match x.result with
  | none => ⟨x.sent, none⟩
  | some a => ⟨x.sent ++ (f a).sent, (f a).result⟩

instance : Monad (Sends O) where
  pure a := ⟨[], some a⟩
  bind := Sends.bind

/-- Send one value. -/
def send (o : O) : Sends O Unit := ⟨[o], some ()⟩

/-- The value of an optional result; a panic when it is absent. -/
def unwrap (a : Option α) : Sends O α := ⟨[], a⟩

theorem pure_def (a : α) : (pure a : Sends O α) = ⟨[], some a⟩ := rfl

theorem bind_of_result {x : Sends O α} {a : α} (h : x.result = some a) (f : α → Sends O β) :
    x >>= f = ⟨x.sent ++ (f a).sent, (f a).result⟩ := by
  simp [Bind.bind, Sends.bind, h]

theorem bind_of_panic {x : Sends O α} (h : x.result = none) (f : α → Sends O β) :
    x >>= f = ⟨x.sent, none⟩ := by
  simp [Bind.bind, Sends.bind, h]

@[simp] theorem pure_bind' (a : α) (f : α → Sends O β) : (pure a : Sends O α) >>= f = f a := by
  rw [bind_of_result (rfl : (pure a : Sends O α).result = some a)]
  simp [pure_def]

@[simp] theorem unwrap_some_bind (a : α) (f : α → Sends O β) :
    unwrap (some a) >>= f = f a := pure_bind' a f

@[simp] theorem unwrap_none_bind (f : α → Sends O β) :
    (unwrap none : Sends O α) >>= f = ⟨[], none⟩ := rfl

theorem bind_assoc' (x : Sends O α) (f : α → Sends O β) {γ : Type} (g : β → Sends O γ) :
    x >>= f >>= g = x >>= fun a => f a >>= g := by
  cases hx : x.result with
  | none => rw [bind_of_panic hx, bind_of_panic hx, bind_of_panic rfl]
  | some a =>
      rw [bind_of_result hx, bind_of_result hx]
      cases hf : (f a).result with
      | none => rw [bind_of_panic rfl, bind_of_panic hf]
      | some b => rw [bind_of_result rfl, bind_of_result hf, List.append_assoc]

instance : LawfulMonad (Sends O) :=
  LawfulMonad.mk' _
    (fun x => by
      show x >>= pure = x
      cases hx : x.result with
      | none => rw [bind_of_panic hx, ← hx]
      | some a => rw [bind_of_result hx, pure_def, List.append_nil, ← hx])
    (fun a f => pure_bind' a f)
    (fun x f g => bind_assoc' x f g)

/-! ### Computations that do not panic -/

/-- The computation has a result. -/
def Succeeds (x : Sends O α) : Prop := x.result.isSome

theorem succeeds_pure (a : α) : (pure a : Sends O α).Succeeds := rfl

theorem succeeds_send (o : O) : (send o).Succeeds := rfl

theorem Succeeds.bind {x : Sends O α} {f : α → Sends O β} (hx : x.Succeeds)
    (hf : ∀ a, (f a).Succeeds) : (x >>= f).Succeeds := by
  obtain ⟨a, ha⟩ := Option.isSome_iff_exists.1 hx
  rw [Succeeds, bind_of_result ha]
  exact hf a

theorem succeeds_forM {l : List α} {f : α → Sends O PUnit} (hf : ∀ a ∈ l, (f a).Succeeds) :
    (l.forM f).Succeeds := by
  induction l with
  | nil => exact succeeds_pure PUnit.unit
  | cons a l ih =>
      rw [List.forM_eq_forM, List.forM_cons]
      exact (hf a (List.mem_cons_self ..)).bind fun _ =>
        ih fun a' ha' => hf a' (List.mem_cons_of_mem _ ha')

/-! ### What is sent without a panic -/

/-- Computations that do not panic and whose sends do not depend on the value passed along. -/
theorem foldlM_eq {l : List α} {f : β → α → Sends O β} {g : α → List O} {h : β → α → β}
    (hf : ∀ a ∈ l, ∀ b, f b a = ⟨g a, some (h b a)⟩) (b : β) :
    l.foldlM f b = ⟨l.flatMap g, some (l.foldl h b)⟩ := by
  induction l generalizing b with
  | nil => rfl
  | cons a l ih =>
      have ha : f b a = ⟨g a, some (h b a)⟩ := hf a (List.mem_cons_self ..) b
      have hrest := ih (fun a' ha' => hf a' (List.mem_cons_of_mem _ ha')) (h b a)
      rw [List.foldlM_cons, ha, bind_of_result rfl, hrest]
      rfl

theorem forM_eq {l : List α} {f : α → Sends O PUnit} {g : α → List O}
    (hf : ∀ a ∈ l, f a = ⟨g a, some PUnit.unit⟩) :
    l.forM f = ⟨l.flatMap g, some PUnit.unit⟩ := by
  induction l with
  | nil => rfl
  | cons a l ih =>
      have ha : f a = ⟨g a, some PUnit.unit⟩ := hf a (List.mem_cons_self ..)
      have hrest := ih fun a' ha' => hf a' (List.mem_cons_of_mem _ ha')
      rw [List.forM_eq_forM] at hrest
      rw [List.forM_eq_forM, List.forM_cons, ha, bind_of_result rfl, hrest]
      rfl

/-! ### Computations that send the same -/

/-- The same is sent, and the results are related, or there is none. -/
structure Alike (R : α → β → Prop) (x : Sends O α) (y : Sends O β) : Prop where
  sent : x.sent = y.sent
  result : Option.Rel R x.result y.result

variable {R : α → β → Prop}

theorem Alike.pure {a : α} {b : β} (h : R a b) : (pure a : Sends O α).Alike R (pure b) :=
  ⟨rfl, Option.Rel.some h⟩

theorem Alike.isSome {x : Sends O α} {y : Sends O β} (h : x.Alike R y) :
    x.result.isSome = y.result.isSome := by
  have hresult := h.result
  cases hx : x.result <;> cases hy : y.result <;> rw [hx, hy] at hresult <;>
    first | rfl | cases hresult

/-- Sequencing keeps it. -/
theorem Alike.bind {α' β' : Type} {R' : α' → β' → Prop} {x : Sends O α} {y : Sends O β}
    {f : α → Sends O α'} {g : β → Sends O β'} (h : x.Alike R y)
    (hfg : ∀ a b, R a b → (f a).Alike R' (g b)) : (x >>= f).Alike R' (y >>= g) := by
  have hresult := h.result
  cases hx : x.result with
  | none =>
      cases hy : y.result with
      | none =>
          rw [bind_of_panic hx, bind_of_panic hy]
          exact ⟨h.sent, Option.Rel.none⟩
      | some b =>
          rw [hx, hy] at hresult
          cases hresult
  | some a =>
      cases hy : y.result with
      | none =>
          rw [hx, hy] at hresult
          cases hresult
      | some b =>
          rw [hx, hy] at hresult
          cases hresult with
          | some hab =>
              rw [bind_of_result hx, bind_of_result hy]
              exact ⟨by rw [h.sent, (hfg a b hab).sent], (hfg a b hab).result⟩

end Sends

/-! ### The loop -/

/-- How an iteration of a loop ends: with the state of the next one, or by leaving the loop. -/
inductive LoopFlow (σ : Type)
  | next (s : σ)
  | stop

/-- How a run of a loop ends: it returned, it panicked, or it was still running. -/
inductive Exit
  | returned
  | panicked
  | running
deriving DecidableEq, Repr

namespace ReceiveLoop

variable {M O σ : Type}

/-- `fuel` iterations of a loop whose body gets the state and the answer of `recv`; the values
sent, and how the run ended. -/
def loop (body : σ → Option M → Sends O (LoopFlow σ)) : ℕ → σ → List M → List O × Exit
  | 0, _, _ => ([], .running)
  | fuel + 1, s, feed =>
      match body s feed.head? with
      | ⟨sent, none⟩ => (sent, .panicked)
      | ⟨sent, some .stop⟩ => (sent, .returned)
      | ⟨sent, some (.next t)⟩ =>
          let rest := loop body fuel t feed.tail
          (sent ++ rest.1, rest.2)

/-- Handling the messages of a list, one after another. -/
def onMessages (onMessage : σ → M → Sends O σ) (s : σ) (msgs : List M) : Sends O σ :=
  msgs.foldlM onMessage s

variable {body : σ → Option M → Sends O (LoopFlow σ)} {onMessage : σ → M → Sends O σ}

theorem onMessages_nil (s : σ) : onMessages onMessage s [] = pure s := rfl

theorem onMessages_cons (s : σ) (m : M) (msgs : List M) :
    onMessages onMessage s (m :: msgs) = onMessage s m >>= fun t => onMessages onMessage t msgs :=
  List.foldlM_cons

theorem onMessages_append (s : σ) (msgs msgs' : List M) :
    onMessages onMessage s (msgs ++ msgs') =
      onMessages onMessage s msgs >>= fun t => onMessages onMessage t msgs' := by
  simp [onMessages, List.foldlM_append]

/-- The first messages make the handler send a first part of what all of them do. -/
theorem sent_prefix_of_prefix (s : σ) {msgs msgs' : List M} (h : msgs <+: msgs') :
    (onMessages onMessage s msgs).sent <+: (onMessages onMessage s msgs').sent := by
  obtain ⟨rest, rfl⟩ := h
  rw [onMessages_append]
  cases hfirst : (onMessages onMessage s msgs).result with
  | none => simp [Sends.bind_of_panic hfirst]
  | some t =>
      rw [Sends.bind_of_result hfirst]
      exact List.prefix_append ..

/-- If the messages are handled without a panic, so are the first of them. -/
theorem isSome_of_append {s : σ} {msgs msgs' : List M}
    (h : (onMessages onMessage s (msgs ++ msgs')).result.isSome) :
    (onMessages onMessage s msgs).result.isSome := by
  rw [onMessages_append] at h
  cases hfirst : (onMessages onMessage s msgs).result with
  | none =>
      rw [Sends.bind_of_panic hfirst] at h
      exact h
  | some t => rfl

/-- What is sent is sent on handling one of the messages. -/
theorem exists_of_mem_sent {s : σ} {msgs : List M} {o : O}
    (h : o ∈ (onMessages onMessage s msgs).sent) : ∃ t, ∃ m ∈ msgs, o ∈ (onMessage t m).sent := by
  induction msgs generalizing s with
  | nil => simp [onMessages_nil, Sends.pure_def] at h
  | cons m msgs ih =>
      rw [onMessages_cons] at h
      cases hm : (onMessage s m).result with
      | none =>
          rw [Sends.bind_of_panic hm] at h
          exact ⟨s, m, List.mem_cons_self, h⟩
      | some t =>
          rw [Sends.bind_of_result hm, List.mem_append] at h
          rcases h with h | h
          · exact ⟨s, m, List.mem_cons_self, h⟩
          · obtain ⟨u, m', hm', ho⟩ := ih h
            exact ⟨u, m', List.mem_cons_of_mem _ hm', ho⟩

/-- The loop handles the messages of the feed and goes on from there; a panic ends it. -/
theorem loop_messages (hbody : ∀ s m, body s (some m) = LoopFlow.next <$> onMessage s m)
    (fuel : ℕ) (s : σ) (msgs : List M) :
    loop body (msgs.length + fuel) s msgs =
      match (onMessages onMessage s msgs).result with
      | none => ((onMessages onMessage s msgs).sent, .panicked)
      | some t => ((onMessages onMessage s msgs).sent ++ (loop body fuel t []).1,
          (loop body fuel t []).2) := by
  induction msgs generalizing s with
  | nil => simp [onMessages_nil, Sends.pure_def]
  | cons m msgs ih =>
      have hfuel : (m :: msgs).length + fuel = msgs.length + fuel + 1 := by simp; omega
      rw [hfuel, loop]
      simp only [List.head?_cons, List.tail_cons, hbody, map_eq_pure_bind, onMessages_cons]
      cases hm : (onMessage s m).result with
      | none => simp only [Sends.bind_of_panic hm]
      | some t =>
          simp only [Sends.bind_of_result hm, Sends.pure_def, List.append_nil]
          rw [ih t]
          cases (onMessages onMessage t msgs).result with
          | none => rfl
          | some u => simp [List.append_assoc]

/-- **A loop that leaves on a closed feed returns** one iteration after the last message, having
sent what the messages make it send. -/
theorem loop_stops (hbody : ∀ s m, body s (some m) = LoopFlow.next <$> onMessage s m)
    (hclosed : ∀ s, body s none = pure LoopFlow.stop) {s t : σ} {msgs : List M}
    (hok : (onMessages onMessage s msgs).result = some t) {fuel : ℕ} (hfuel : msgs.length < fuel) :
    loop body fuel s msgs = ((onMessages onMessage s msgs).sent, .returned) := by
  obtain ⟨k, rfl⟩ : ∃ k, fuel = msgs.length + (k + 1) := ⟨fuel - msgs.length - 1, by omega⟩
  rw [loop_messages hbody, hok]
  simp [loop, hclosed, Sends.pure_def]

/-- It sends what the messages make it send, also when one of them makes it panic. -/
theorem loop_sent (hbody : ∀ s m, body s (some m) = LoopFlow.next <$> onMessage s m)
    (hclosed : ∀ s, body s none = pure LoopFlow.stop) {s : σ} {msgs : List M} {fuel : ℕ}
    (hfuel : msgs.length < fuel) :
    (loop body fuel s msgs).1 = (onMessages onMessage s msgs).sent := by
  obtain ⟨k, rfl⟩ : ∃ k, fuel = msgs.length + (k + 1) := ⟨fuel - msgs.length - 1, by omega⟩
  rw [loop_messages hbody]
  cases (onMessages onMessage s msgs).result with
  | none => rfl
  | some t => simp [loop, hclosed, Sends.pure_def]

/-- A loop whose body never leaves it never returns. -/
theorem loop_ne_returned (hbody : ∀ s received, (body s received).result ≠ some .stop) (fuel : ℕ)
    (s : σ) (feed : List M) : (loop body fuel s feed).2 ≠ .returned := by
  induction fuel generalizing s feed with
  | zero => simp [loop]
  | succ fuel ih =>
      have hs := hbody s feed.head?
      rw [loop]
      generalize body s feed.head? = iteration at hs
      rcases iteration with ⟨sent, _ | (t | _)⟩
      · simp
      · exact ih t feed.tail
      · exact absurd rfl hs

/-- A loop that leaves on a closed feed sends what the messages make it send, and returns unless one
of them makes it panic. -/
theorem loop_eq (hbody : ∀ s m, body s (some m) = LoopFlow.next <$> onMessage s m)
    (hclosed : ∀ s, body s none = pure LoopFlow.stop) {s : σ} {msgs : List M} {fuel : ℕ}
    (hfuel : msgs.length < fuel) :
    loop body fuel s msgs = ((onMessages onMessage s msgs).sent,
      if (onMessages onMessage s msgs).result.isSome then .returned else .panicked) := by
  cases hresult : (onMessages onMessage s msgs).result with
  | some t => exact loop_stops hbody hclosed hresult hfuel
  | none =>
      obtain ⟨k, rfl⟩ := Nat.exists_eq_add_of_le (Nat.le_of_lt hfuel)
      rw [loop_messages hbody, hresult]
      rfl

/-- **The simulation rule**: if related states are handled alike, then so are all messages. -/
theorem onMessages_congr {R : σ → σ → Prop}
    (hstep : ∀ s t m, R s t → (onMessage s m).Alike R (onMessage t m)) {s t : σ} (hst : R s t)
    (msgs : List M) : (onMessages onMessage s msgs).Alike R (onMessages onMessage t msgs) := by
  induction msgs generalizing s t with
  | nil => exact Sends.Alike.pure hst
  | cons m msgs ih =>
      rw [onMessages_cons, onMessages_cons]
      exact (hstep s t m hst).bind fun _ _ => ih

/-! ### One value per message -/

/-- Update the state, then send one value read off the new state; a panic when there is none. -/
def sendOne (receive : σ → M → σ) (output : σ → M → Option O) (s : σ) (m : M) : Sends O σ := do
  let t := receive s m
  let o ← Sends.unwrap (output t m)
  Sends.send o
  pure t

theorem sendOne_of_some {receive : σ → M → σ} {output : σ → M → Option O} {s : σ} {m : M} {o : O}
    (h : output (receive s m) m = some o) :
    sendOne receive output s m = ⟨[o], some (receive s m)⟩ := by
  simp [sendOne, h, Sends.send, Sends.bind_of_result, Sends.pure_def]

theorem sendOne_of_none {receive : σ → M → σ} {output : σ → M → Option O} {s : σ} {m : M}
    (h : output (receive s m) m = none) : sendOne receive output s m = ⟨[], none⟩ := by
  simp [sendOne, h]

/-- **The `n`-th value sent is read off the state after the `n`-th message**, and it is sent if and
only if every message up to it had a value to send. -/
theorem sent_sendOne_eq_some_iff {receive : σ → M → σ} {output : σ → M → Option O} :
    ∀ {msgs : List M} {s : σ} {n : ℕ} {o : O},
      (onMessages (sendOne receive output) s msgs).sent[n]? = some o ↔
        (∃ m, msgs[n]? = some m ∧ output ((msgs.take (n + 1)).foldl receive s) m = some o) ∧
          ∀ k m, k < n → msgs[k]? = some m →
            (output ((msgs.take (k + 1)).foldl receive s) m).isSome := by
  intro msgs
  induction msgs with
  | nil => intro s n o; simp [onMessages_nil, Sends.pure_def]
  | cons m msgs ih =>
      intro s n o
      rw [onMessages_cons]
      cases hout : output (receive s m) m with
      | none =>
          rw [sendOne_of_none hout, Sends.bind_of_panic rfl]
          refine iff_of_false (by simp) ?_
          rintro ⟨⟨m', hm', ho⟩, hall⟩
          cases n with
          | zero =>
              obtain rfl : m = m' := by simpa using hm'
              simp [hout] at ho
          | succ n => simpa [hout] using hall 0 m (Nat.succ_pos n) rfl
      | some o' =>
          rw [sendOne_of_some hout, Sends.bind_of_result rfl]
          cases n with
          | zero => simp [hout]
          | succ n =>
              simp only [List.singleton_append, List.getElem?_cons_succ, List.take_succ_cons,
                List.foldl_cons, ih]
              refine and_congr_right fun _ => ⟨fun h k m' hk hm' => ?_, fun h k m' hk hm' => ?_⟩
              · cases k with
                | zero =>
                    obtain rfl : m = m' := by simpa using hm'
                    simp [hout]
                | succ k => exact h k m' (Nat.lt_of_succ_lt_succ hk) (by simpa using hm')
              · simpa using h (k + 1) m' (Nat.succ_lt_succ hk) (by simpa using hm')

/-- If every message has a value to send, then one is sent for each message. -/
theorem onMessages_sendOne {receive : σ → M → σ} {output : σ → M → Option O} :
    ∀ {msgs : List M} {s : σ},
      (∀ n m, msgs[n]? = some m → (output ((msgs.take (n + 1)).foldl receive s) m).isSome) →
      (onMessages (sendOne receive output) s msgs).result = some (msgs.foldl receive s) ∧
        (onMessages (sendOne receive output) s msgs).sent.length = msgs.length := by
  intro msgs
  induction msgs with
  | nil => intro s _; exact ⟨rfl, rfl⟩
  | cons m msgs ih =>
      intro s h
      obtain ⟨o, ho⟩ := Option.isSome_iff_exists.1 (by simpa using h 0 m rfl)
      have hrest := ih (s := receive s m) fun n m' hm' => by
        simpa using h (n + 1) m' (by simpa using hm')
      rw [onMessages_cons, sendOne_of_some ho, Sends.bind_of_result rfl]
      exact ⟨hrest.1, by simpa using hrest.2⟩

end ReceiveLoop
