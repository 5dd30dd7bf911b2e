/-
**Computations over a state that can panic.**

A panic leaves behind what was stored before it, which is how `EStateM` treats an error.  Code that
reads first and stores at the end changes nothing when it panics; to see this for a long
computation, it is enough to see it for its parts.

* `Panicking.unwrap` — the value of an option, or a panic;
* `Panicking.after`, `Panicking.reason` — the state left behind, whether the computation returned
  or panicked, and why it panicked;
* `Panicking.ReadsAt` — from a given state, the computation leaves the state alone and returns a
  given kind of value, or panics for a given kind of reason;
* `Panicking.ReadsAlike` — from two given states, the computation does the same;
* `Panicking.ReadsOnly` — from every state, whatever the value, the computation leaves it alone;
* `Panicking.ReadsAt.run_bind` — **what follows a read is run in the state that was read, or not
  at all**.
-/

import Mathlib.Init

set_option relaxedAutoImplicit false
set_option autoImplicit false

namespace Panicking

variable {E S α β : Type}

/-- The value of the option; a panic for the given reason when there is none. -/
def unwrap (reason : E) : Option α → EStateM E S α
  | some a => pure a
  | none => throw reason

@[simp] theorem unwrap_some (reason : E) (a : α) :
    (unwrap reason (some a) : EStateM E S α) = pure a := rfl

@[simp] theorem run_unwrap_none (reason : E) (s : S) :
    (unwrap reason none : EStateM E S α).run s = .error reason s := rfl

/-- A loop whose iterations all return. -/
theorem run_forM_of_ok {l : List α} {f : α → EStateM E S PUnit} {g : S → α → S}
    (hf : ∀ a ∈ l, ∀ s, (f a).run s = .ok () (g s a)) (s : S) :
    (l.forM f).run s = .ok () (l.foldl g s) := by
  induction l generalizing s with
  | nil => rfl
  | cons a l ih =>
      have hrest := ih (fun a' ha' => hf a' (List.mem_cons_of_mem _ ha')) (g s a)
      rw [List.forM_eq_forM] at hrest ⊢
      rw [List.forM_cons, EStateM.run_bind, hf a (List.mem_cons_self ..)]
      exact hrest

/-- The state after a computation. -/
def after (x : EStateM E S α) (s : S) : S :=
  match x.run s with
  | .ok _ t => t
  | .error _ t => t

theorem after_of_ok {x : EStateM E S α} {s t : S} {a : α} (h : x.run s = .ok a t) :
    after x s = t := by
  rw [after, h]

theorem after_of_error {x : EStateM E S α} {s t : S} {e : E} (h : x.run s = .error e t) :
    after x s = t := by
  rw [after, h]

/-- Why a computation panics, if it does. -/
def reason (x : EStateM E S α) (s : S) : Option E :=
  match x.run s with
  | .ok _ _ => none
  | .error e _ => some e

theorem reason_of_ok {x : EStateM E S α} {s t : S} {a : α} (h : x.run s = .ok a t) :
    reason x s = none := by
  rw [reason, h]

theorem reason_of_error {x : EStateM E S α} {s t : S} {e : E} (h : x.run s = .error e t) :
    reason x s = some e := by
  rw [reason, h]

/-- From the state `s` the computation either returns a value in `Q` or panics for a reason in `P`,
and leaves the state alone. -/
def ReadsAt (s : S) (P : E → Prop) (Q : α → Prop) (x : EStateM E S α) : Prop :=
  (∃ a, Q a ∧ x.run s = .ok a s) ∨ ∃ e, P e ∧ x.run s = .error e s

section ReadsAt

variable {s : S} {P : E → Prop} {Q : α → Prop} {R : β → Prop}

theorem readsAt_pure {a : α} (h : Q a) : ReadsAt s P Q (pure a) := Or.inl ⟨a, h, rfl⟩

theorem readsAt_get {Q : S → Prop} (h : Q s) : ReadsAt s P Q get := Or.inl ⟨s, h, rfl⟩

theorem readsAt_unwrap {reason : E} {o : Option α} (hnone : o = none → P reason) :
    ReadsAt s P (fun a => o = some a) (unwrap reason o) := by
  cases o with
  | none => exact Or.inr ⟨reason, hnone rfl, rfl⟩
  | some a => exact Or.inl ⟨a, rfl, rfl⟩

/-- **What follows a read is run in the state that was read, or not at all.** -/
theorem ReadsAt.run_bind {x : EStateM E S α} (hx : ReadsAt s P Q x) (f : α → EStateM E S β) :
    (∃ a, Q a ∧ x.run s = .ok a s ∧ (x >>= f).run s = (f a).run s) ∨
      ∃ e, P e ∧ (x >>= f).run s = .error e s := by
  rw [EStateM.run_bind]
  rcases hx with ⟨a, hQ, ha⟩ | ⟨e, he, ha⟩
  · exact Or.inl ⟨a, hQ, ha, by rw [ha]⟩
  · exact Or.inr ⟨e, he, by rw [ha]⟩

theorem ReadsAt.bind {x : EStateM E S α} {f : α → EStateM E S β} (hx : ReadsAt s P Q x)
    (hf : ∀ a, Q a → ReadsAt s P R (f a)) : ReadsAt s P R (x >>= f) := by
  rcases hx.run_bind f with ⟨a, hQ, -, hrun⟩ | ⟨e, he, hrun⟩
  · rw [ReadsAt, hrun]
    exact hf a hQ
  · exact Or.inr ⟨e, he, hrun⟩

end ReadsAt

/-- From both states the computation returns the same value, or panics for the same reason, and
leaves each state alone. -/
def ReadsAlike (s t : S) (x : EStateM E S α) : Prop :=
  (∃ a, x.run s = .ok a s ∧ x.run t = .ok a t) ∨ ∃ e, x.run s = .error e s ∧ x.run t = .error e t

section ReadsAlike

variable {s t : S}

theorem readsAlike_pure (a : α) : ReadsAlike s t (pure a : EStateM E S α) := Or.inl ⟨a, rfl, rfl⟩

theorem readsAlike_unwrap (reason : E) (o : Option α) :
    ReadsAlike s t (unwrap reason o : EStateM E S α) := by
  cases o with
  | none => exact Or.inr ⟨reason, rfl, rfl⟩
  | some a => exact Or.inl ⟨a, rfl, rfl⟩

theorem ReadsAlike.bind {x : EStateM E S α} {f : α → EStateM E S β} (hx : ReadsAlike s t x)
    (hf : ∀ a, ReadsAlike s t (f a)) : ReadsAlike s t (x >>= f) := by
  rcases hx with ⟨a, hs, ht⟩ | ⟨e, hs, ht⟩
  · rw [ReadsAlike, EStateM.run_bind, EStateM.run_bind, hs, ht]
    exact hf a
  · exact Or.inr ⟨e, by rw [EStateM.run_bind, hs], by rw [EStateM.run_bind, ht]⟩

end ReadsAlike

/-- From every state the computation either returns or panics for a reason in `P`, and leaves the
state alone. -/
def ReadsOnly (P : E → Prop) (x : EStateM E S α) : Prop :=
  ∀ s, (∃ a, x.run s = .ok a s) ∨ ∃ e, P e ∧ x.run s = .error e s

variable {P : E → Prop}

theorem ReadsOnly.readsAt {x : EStateM E S α} (h : ReadsOnly P x) (s : S) :
    ReadsAt s P (fun _ => True) x :=
  (h s).imp (fun ⟨a, ha⟩ => ⟨a, trivial, ha⟩) id

end Panicking
