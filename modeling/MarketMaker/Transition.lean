/-
**Runs of a partial step function.**

A system is given by a step function `step : S → A → Option S`: the action `a` is possible in the
state `s` exactly when `step s a` is defined, and then leads to its value.  Actions carry both
what the parties decide and what the environment decides (a clock tick, a failing command), so a
run of the system under any schedule is a list of actions, and whatever holds of every list of
actions holds of every interleaving.

* `Transition.exec` — the state a list of actions leads to;
* `Transition.exec_append`, `Transition.exec_concat_eq_some` — runs are cut and extended;
* `Transition.exec_invariant` — a property every step preserves holds along every run;
* `Transition.exec_history` — the same for a relation between the actions taken so far and the
  state, which is how a state is compared with the history that led to it;
* `Transition.observed`, `Transition.exec_observed` — what a run shows of another system, and the
  rule that a system simulates another through what it shows of it;
* `Transition.recorded`, `Transition.recorded_append` — what is noted of the actions of a run, each
  with the history it continues;
* `Transition.outputs`, `Transition.outputs_map_eq_iff` — systems whose every step is possible and
  may have an output, and the comparison of two of them step by step;
* `Transition.outputs_filterMap` — the rule that some of the actions do not count.
-/

import Mathlib.Data.List.Induction

set_option relaxedAutoImplicit false
set_option autoImplicit false

namespace Transition

variable {S A : Type*} {step : S → A → Option S}

/-- The state reached from `s` by taking the actions in order; absent when one of them is not
possible where its turn comes. -/
def exec (step : S → A → Option S) : S → List A → Option S
  | s, [] => some s
  | s, a :: acts => (step s a).bind fun s' => exec step s' acts

@[simp] theorem exec_nil (s : S) : exec step s [] = some s := rfl

theorem exec_cons (s : S) (a : A) (acts : List A) :
    exec step s (a :: acts) = (step s a).bind fun s' => exec step s' acts := rfl

theorem exec_append (s : S) (acts acts' : List A) :
    exec step s (acts ++ acts') = (exec step s acts).bind fun u => exec step u acts' := by
  induction acts generalizing s with
  | nil => rfl
  | cons a acts ih =>
      rw [List.cons_append, exec_cons, exec_cons, Option.bind_assoc]
      congr 1
      funext u
      exact ih u

/-- The last action of a run is a step out of the state the earlier ones lead to. -/
theorem exec_concat_eq_some {s t : S} {acts : List A} {a : A} :
    exec step s (acts ++ [a]) = some t ↔
      ∃ u, exec step s acts = some u ∧ step u a = some t := by
  rw [exec_append, Option.bind_eq_some_iff]
  refine exists_congr fun u => and_congr_right fun _ => ?_
  rw [exec_cons]
  cases step u a <;> simp

/-- An action of an extended run is the last one, or an earlier one. -/
theorem concat_eq_append_cons_iff {l before later : List A} {c d : A} :
    l ++ [c] = before ++ d :: later ↔
      (later = [] ∧ before = l ∧ d = c) ∨
        ∃ later', later = later' ++ [c] ∧ l = before ++ d :: later' := by
  constructor
  · intro h
    induction later using List.reverseRecOn with
    | nil =>
        obtain ⟨rfl, hc⟩ := List.append_inj' h rfl
        exact Or.inl ⟨rfl, rfl, (List.cons.inj hc).1.symm⟩
    | append_singleton later e _ =>
        rw [← List.cons_append, ← List.append_assoc] at h
        obtain ⟨rfl, hc⟩ := List.append_inj' h rfl
        exact Or.inr ⟨later, by rw [(List.cons.inj hc).1], rfl⟩
  · rintro (⟨rfl, rfl, rfl⟩ | ⟨later', rfl, rfl⟩) <;> simp

/-- Of two actions of a run, one is taken after the other, or they are the same. -/
theorem append_cons_trichotomy {before before' later later' : List A} {a a' : A}
    (h : before ++ a :: later = before' ++ a' :: later') :
    a' ∈ later ∨ a ∈ later' ∨ (a = a' ∧ later = later') := by
  rcases List.append_eq_append_iff.1 h with ⟨mid, -, hmid⟩ | ⟨mid, -, hmid⟩
  · cases mid with
    | nil => exact Or.inr (Or.inr (List.cons.inj hmid))
    | cons b mid => exact Or.inl ((List.cons.inj hmid).2 ▸ by simp)
  · cases mid with
    | nil => exact Or.inr (Or.inr ((List.cons.inj hmid).imp Eq.symm Eq.symm))
    | cons b mid => exact Or.inr (Or.inl ((List.cons.inj hmid).2 ▸ by simp))

/-- A run passes through a state at every cut. -/
theorem exec_append_eq_some {s t : S} {acts acts' : List A} :
    exec step s (acts ++ acts') = some t ↔
      ∃ u, exec step s acts = some u ∧ exec step u acts' = some t := by
  rw [exec_append, Option.bind_eq_some_iff]

/-- **The invariant rule**: what every step preserves holds along every run. -/
theorem exec_invariant {I : S → Prop} (hstep : ∀ s a t, I s → step s a = some t → I t) :
    ∀ {acts : List A} {s t : S}, I s → exec step s acts = some t → I t := by
  intro acts
  induction acts with
  | nil =>
      intro s t hs h
      rw [exec_nil, Option.some.injEq] at h
      exact h ▸ hs
  | cons a acts ih =>
      intro s t hs h
      rw [exec_cons, Option.bind_eq_some_iff] at h
      obtain ⟨u, hu, ht⟩ := h
      exact ih (hstep s a u hs hu) ht

/-- **The history rule**: a relation between the actions taken and the state reached, which every
step extends, holds of every run from the start. -/
theorem exec_history {I : List A → S → Prop} {s₀ : S} (hinit : I [] s₀)
    (hstep : ∀ acts s a t, I acts s → step s a = some t → I (acts ++ [a]) t)
    {acts : List A} {t : S} (h : exec step s₀ acts = some t) : I acts t := by
  induction acts using List.reverseRecOn generalizing t with
  | nil =>
      rw [exec_nil, Option.some.injEq] at h
      exact h ▸ hinit
  | append_singleton acts a ih =>
      obtain ⟨u, hu, ht⟩ := exec_concat_eq_some.1 h
      exact hstep acts u a t (ih hu) ht

/-! ### Simulation -/

section Simulation

variable {T B : Type*} {step' : T → B → Option T} {obs : S → A → Option B}

/-- What a run shows of another system: the actions of that system its own actions amount to, each
in the state where it is taken. -/
def observed (step : S → A → Option S) (obs : S → A → Option B) : S → List A → List B
  | _, [] => []
  | s, a :: acts =>
      (obs s a).toList ++ ((step s a).toList.flatMap fun t => observed step obs t acts)

theorem observed_concat {s u : S} {acts : List A} (h : exec step s acts = some u) (a : A) :
    observed step obs s (acts ++ [a]) = observed step obs s acts ++ (obs u a).toList := by
  induction acts generalizing s with
  | nil =>
      rw [exec_nil, Option.some.injEq] at h
      subst h
      cases hstep : step s a <;> simp [observed, hstep]
  | cons b acts ih =>
      rw [exec_cons, Option.bind_eq_some_iff] at h
      obtain ⟨t, hb, ht⟩ := h
      simp only [List.cons_append, observed, hb, Option.toList_some, List.flatMap_singleton, ih ht,
        List.append_assoc]

/-- What is observed is observed of an action of the run. -/
theorem exists_of_mem_observed {s : S} {acts : List A} {b : B} (h : b ∈ observed step obs s acts) :
    ∃ u, ∃ a ∈ acts, obs u a = some b := by
  induction acts generalizing s with
  | nil => simp [observed] at h
  | cons a acts ih =>
      rw [observed, List.mem_append] at h
      rcases h with h | h
      · exact ⟨s, a, List.mem_cons_self, by simpa using h⟩
      · obtain ⟨t, -, ht⟩ := List.mem_flatMap.1 h
        obtain ⟨u, a', ha', hobs⟩ := ih ht
        exact ⟨u, a', List.mem_cons_of_mem _ ha', hobs⟩

/-- **The simulation rule**: if every step out of a state that a run from the start can reach is a
step, or none, of another system, then every run is a run of the other system. -/
theorem exec_observed {I : S → Prop} {f : S → T} {s₀ : S} (hinit : I s₀)
    (hkeep : ∀ s a t, I s → step s a = some t → I t)
    (hsim : ∀ s a t, I s → step s a = some t → exec step' (f s) (obs s a).toList = some (f t))
    {acts : List A} {t : S} (h : exec step s₀ acts = some t) :
    exec step' (f s₀) (observed step obs s₀ acts) = some (f t) := by
  induction acts using List.reverseRecOn generalizing t with
  | nil =>
      rw [exec_nil, Option.some.injEq] at h
      exact h ▸ rfl
  | append_singleton acts a ih =>
      obtain ⟨u, hu, ht⟩ := exec_concat_eq_some.1 h
      rw [observed_concat hu]
      exact exec_append_eq_some.2 ⟨f u, ih hu, hsim u a t (exec_invariant hkeep hinit hu) ht⟩

end Simulation

/-! ### Records of a history -/

section Records

variable {B : Type*} (note : List A → A → Option B)

/-- What is noted along a list of actions, each with those taken before it. -/
def recorded : List A → List A → List B
  | _, [] => []
  | before, a :: acts => (note before a).toList ++ recorded (before ++ [a]) acts

theorem recorded_append (before acts acts' : List A) :
    recorded note before (acts ++ acts') =
      recorded note before acts ++ recorded note (before ++ acts) acts' := by
  induction acts generalizing before with
  | nil => simp [recorded]
  | cons a acts ih => simp [recorded, ih]

theorem recorded_concat (acts : List A) (a : A) :
    recorded note [] (acts ++ [a]) = recorded note [] acts ++ (note acts a).toList := by
  simp [recorded_append, recorded]

end Records

/-! ### Total steps with outputs -/

section Outputs

variable {T O P : Type*}

/-- The outputs along a run of a total step function, some of whose steps have one. -/
def outputs (step : S → A → S × Option O) : S → List A → List O
  | _, [] => []
  | s, a :: acts => (step s a).2.toList ++ outputs step (step s a).1 acts

/-- The state after a run of a total step function. -/
def after (step : S → A → S × Option O) (s : S) (acts : List A) : S :=
  acts.foldl (fun s a => (step s a).1) s

theorem after_concat (step : S → A → S × Option O) (s : S) (acts : List A) (a : A) :
    after step s (acts ++ [a]) = (step (after step s acts) a).1 := by
  simp [after]

/-- **Two systems have the same outputs exactly when each step has**, if they have outputs at the
same steps; the outputs of the first are compared through `f`. -/
theorem outputs_map_eq_iff {step : S → A → S × Option O} {step' : T → A → T × Option P}
    {f : O → P} (hlock : ∀ s t a, (step s a).2.isSome = (step' t a).2.isSome)
    (s : S) (t : T) (acts : List A) :
    outputs step' t acts = (outputs step s acts).map f ↔
      ∀ pre a post, acts = pre ++ a :: post →
        (step' (after step' t pre) a).2 = (step (after step s pre) a).2.map f := by
  induction acts generalizing s t with
  | nil => simp [outputs]
  | cons a acts ih =>
      have hhead : (step' t a).2.toList.length = ((step s a).2.toList.map f).length := by
        have := hlock s t a
        cases h : (step s a).2 <;> cases h' : (step' t a).2 <;> simp_all
      rw [outputs, outputs, List.map_append]
      constructor
      · intro h
        obtain ⟨hfirst, hrest⟩ := List.append_inj h hhead
        rintro (_ | ⟨c, pre⟩) b post hsplit
        · obtain ⟨rfl, rfl⟩ := List.cons.inj hsplit
          show (step' t a).2 = (step s a).2.map f
          cases h : (step s a).2 <;> cases h' : (step' t a).2 <;> simp_all
        · obtain ⟨rfl, htail⟩ := List.cons.inj hsplit
          exact (ih (step s a).1 (step' t a).1).1 hrest pre b post htail
      · intro h
        have hfirst : (step' t a).2 = (step s a).2.map f := h [] a acts rfl
        have hrest := (ih (step s a).1 (step' t a).1).2 fun pre b post hsplit =>
          h (a :: pre) b post (by rw [hsplit]; rfl)
        rw [hfirst, hrest]
        cases (step s a).2 <;> rfl

/-- **The projection rule**: if the actions that are let through change the states of two systems
alike and have the same outputs, and the others change nothing that is compared and have none, then
a run and what is let through of it have the same outputs, and lead to states that compare. -/
theorem outputs_filterMap {B : Type*} {step : S → A → S × Option O} {step' : T → B → T × Option O}
    {g : A → Option B} {R : S → T → Prop} {acts : List A}
    (hsome : ∀ s t a b, R s t → a ∈ acts → g a = some b →
      R (step s a).1 (step' t b).1 ∧ (step s a).2 = (step' t b).2)
    (hnone : ∀ s t a, R s t → a ∈ acts → g a = none → R (step s a).1 t ∧ (step s a).2 = none)
    {s : S} {t : T} (hst : R s t) :
    R (after step s acts) (after step' t (acts.filterMap g)) ∧
      outputs step s acts = outputs step' t (acts.filterMap g) := by
  induction acts generalizing s t with
  | nil => exact ⟨hst, rfl⟩
  | cons a acts ih =>
      have ih := fun {s t} => @ih
        (fun s t c b h hc => hsome s t c b h (List.mem_cons_of_mem _ hc))
        (fun s t c h hc => hnone s t c h (List.mem_cons_of_mem _ hc)) s t
      cases hg : g a with
      | none =>
          obtain ⟨hnext, hout⟩ := hnone s t a hst List.mem_cons_self hg
          obtain ⟨hlast, houts⟩ := ih hnext
          rw [List.filterMap_cons_none hg, outputs, hout]
          exact ⟨hlast, houts⟩
      | some b =>
          obtain ⟨hnext, hout⟩ := hsome s t a b hst List.mem_cons_self hg
          obtain ⟨hlast, houts⟩ := ih hnext
          rw [List.filterMap_cons_some hg, outputs, outputs, hout, houts]
          exact ⟨hlast, rfl⟩

end Outputs

end Transition
