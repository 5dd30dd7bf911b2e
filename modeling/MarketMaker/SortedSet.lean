/-
**A set of members ordered by score.**

A sorted set gives each of its members one score and lists its members by increasing score, members
of one score by their own order.  Adding a member that is present only moves it to its new score.

* `SortedSet.add`, `SortedSet.rangeFrom`, `SortedSet.removeUpTo` — the operations, with inclusive
  bounds;
* `SortedSet.mem_add`, `SortedSet.mem_removeUpTo` — the members and scores after them;
* `SortedSet.rangeFrom_eq` — **a range is determined by the members in it**;
* `SortedSet.after`, `SortedSet.mem_after` — the set after a run of operations, and **its members:
  those added and neither added again nor removed since**.
-/

import MarketMaker.Transition
import Mathlib.Data.List.Sort
import Mathlib.Data.Prod.Lex

set_option relaxedAutoImplicit false
set_option autoImplicit false

/-- Members with their scores, in the lexicographic order of scores and members, each member
once. -/
structure SortedSet (S M : Type*) [LinearOrder S] [LinearOrder M] where
  entries : List (S ×ₗ M)
  sorted : entries.Pairwise (· ≤ ·)
  nodup : (entries.map fun e => (ofLex e).2).Nodup

namespace SortedSet

variable {S M : Type*} [LinearOrder S] [LinearOrder M]

/-- The empty set. -/
def empty : SortedSet S M := ⟨[], List.Pairwise.nil, List.nodup_nil⟩

/-- The entries of the other members. -/
def others (z : SortedSet S M) (member : M) : List (S ×ₗ M) :=
  z.entries.filter fun e => (ofLex e).2 ≠ member

/-- Add a member, or move it to the score if it is present. -/
def add (z : SortedSet S M) (score : S) (member : M) : SortedSet S M where
  entries := (z.others member).orderedInsert (· ≤ ·) (toLex (score, member))
  sorted := (z.sorted.filter _).orderedInsert _ _
  nodup := by
    have hperm := List.perm_orderedInsert (· ≤ ·) (toLex (score, member)) (z.others member)
    rw [(hperm.map _).nodup_iff, List.map_cons, List.nodup_cons]
    refine ⟨fun h => ?_, ?_⟩
    · obtain ⟨e, he, heq⟩ := List.mem_map.1 h
      simpa [heq] using (List.mem_filter.1 he).2
    · exact z.nodup.sublist (List.filter_sublist.map _)

/-- The members of score `min` or more, in order. -/
def rangeFrom (z : SortedSet S M) (min : S) : List M :=
  (z.entries.filter fun e => min ≤ (ofLex e).1).map fun e => (ofLex e).2

/-- Remove the members of score `max` or less. -/
def removeUpTo (z : SortedSet S M) (max : S) : SortedSet S M where
  entries := z.entries.filter fun e => max < (ofLex e).1
  sorted := z.sorted.filter _
  nodup := z.nodup.sublist (List.filter_sublist.map _)

@[simp] theorem entries_empty : (empty : SortedSet S M).entries = [] := rfl

theorem rangeFrom_empty (min : S) : (empty : SortedSet S M).rangeFrom min = [] := rfl

theorem removeUpTo_empty (max : S) : (empty : SortedSet S M).removeUpTo max = empty := rfl

theorem mem_others {z : SortedSet S M} {member : M} {e : S ×ₗ M} :
    e ∈ z.others member ↔ e ∈ z.entries ∧ (ofLex e).2 ≠ member := by
  simp [others]

theorem mem_add {z : SortedSet S M} {score t : S} {member m : M} :
    toLex (t, m) ∈ (z.add score member).entries ↔
      (t = score ∧ m = member) ∨ (toLex (t, m) ∈ z.entries ∧ m ≠ member) := by
  rw [add, List.mem_orderedInsert, mem_others, toLex_inj, Prod.mk.injEq, ofLex_toLex]

theorem mem_removeUpTo {z : SortedSet S M} {max : S} {e : S ×ₗ M} :
    e ∈ (z.removeUpTo max).entries ↔ e ∈ z.entries ∧ max < (ofLex e).1 := by
  simp [removeUpTo]

/-- Entries of a sorted set are listed by listing their members. -/
theorem entries_eq_of_members {z : SortedSet S M} {l l' : List (S ×ₗ M)}
    (hl : ∀ e ∈ l, e ∈ z.entries) (hl' : ∀ e ∈ l', e ∈ z.entries)
    (h : (l.map fun e => (ofLex e).2) = l'.map fun e => (ofLex e).2) : l = l' := by
  induction l generalizing l' with
  | nil => simpa using h.symm
  | cons e l ih =>
      cases l' with
      | nil => simp at h
      | cons e' l' =>
          obtain ⟨hhead, htail⟩ := List.cons.inj h
          have he := hl e List.mem_cons_self
          have he' := hl' e' List.mem_cons_self
          rw [List.inj_on_of_nodup_map z.nodup he he' hhead,
            ih (fun d hd => hl d (List.mem_cons_of_mem _ hd))
              (fun d hd => hl' d (List.mem_cons_of_mem _ hd)) htail]

theorem mem_rangeFrom {z : SortedSet S M} {min : S} {m : M} :
    m ∈ z.rangeFrom min ↔ ∃ t, toLex (t, m) ∈ z.entries ∧ min ≤ t := by
  simp only [rangeFrom, List.mem_map, List.mem_filter, decide_eq_true_eq]
  constructor
  · rintro ⟨e, ⟨he, hmin⟩, rfl⟩
    exact ⟨(ofLex e).1, he, hmin⟩
  · rintro ⟨t, he, hmin⟩
    exact ⟨toLex (t, m), ⟨he, hmin⟩, rfl⟩

theorem nodup_rangeFrom (z : SortedSet S M) (min : S) : (z.rangeFrom min).Nodup :=
  z.nodup.sublist (List.filter_sublist.map _)

/-- **A range is determined by the members in it**: a strictly ordered list of exactly the entries
of score `min` or more lists the range. -/
theorem rangeFrom_eq {z : SortedSet S M} {min : S} {l : List (S ×ₗ M)}
    (hsorted : l.Pairwise (· < ·))
    (hmem : ∀ e, e ∈ l ↔ e ∈ z.entries ∧ min ≤ (ofLex e).1) :
    z.rangeFrom min = l.map fun e => (ofLex e).2 := by
  have hnodup : z.entries.Nodup := z.nodup.of_map
  have hperm : (z.entries.filter fun e => min ≤ (ofLex e).1).Perm l := by
    refine (List.perm_ext_iff_of_nodup (hnodup.filter _) (hsorted.imp ne_of_lt)).2 fun e => ?_
    simp [hmem]
  rw [rangeFrom, hperm.eq_of_pairwise (fun a b _ _ hab hba => le_antisymm hab hba)
    (z.sorted.filter _) (hsorted.imp le_of_lt)]

/-- The entries of a range, in strictly increasing order. -/
theorem exists_entries_of_rangeFrom (z : SortedSet S M) (min : S) :
    ∃ l : List (S ×ₗ M), l.Pairwise (· < ·) ∧
      (∀ e, e ∈ l ↔ e ∈ z.entries ∧ min ≤ (ofLex e).1) ∧
      z.rangeFrom min = l.map fun e => (ofLex e).2 := by
  refine ⟨z.entries.filter fun e => min ≤ (ofLex e).1, ?_, by simp, rfl⟩
  have hstrict : z.entries.Pairwise (· < ·) :=
    (z.sorted.and z.nodup.of_map).imp fun h => lt_of_le_of_ne h.1 h.2
  exact hstrict.filter _

/-! ### Runs of operations -/

/-- An operation on a sorted set. -/
inductive Op (S M : Type*)
  | add (score : S) (member : M)
  | removeUpTo (max : S)

def apply (z : SortedSet S M) : Op S M → SortedSet S M
  | .add score member => z.add score member
  | .removeUpTo max => z.removeUpTo max

section Runs

variable {A : Type*} (op : A → Option (Op S M))

/-- The set after some actions, some of which are operations on it. -/
def after (acts : List A) : SortedSet S M :=
  acts.foldl (fun z a => (op a).elim z z.apply) empty

theorem after_concat (acts : List A) (a : A) :
    after op (acts ++ [a]) = (op a).elim (after op acts) (after op acts).apply := by
  rw [after, List.foldl_concat, ← after]

/-- The set depends on the operations only. -/
theorem after_congr {op' : A → Option (Op S M)} {acts : List A} (h : ∀ a ∈ acts, op a = op' a) :
    after op acts = after op' acts := by
  unfold after
  refine List.foldl_ext _ _ _ ?_
  intro z a ha
  rw [h a ha]

/-- The member was added with the score, and neither added again nor removed since. -/
def Survives (acts : List A) (score : S) (member : M) : Prop :=
  ∃ before a later, acts = before ++ a :: later ∧ op a = some (.add score member) ∧
    (∀ b ∈ later, ∀ t, op b ≠ some (.add t member)) ∧
    ∀ b ∈ later, ∀ max, op b = some (.removeUpTo max) → max < score

variable {op}

omit [LinearOrder M] in
theorem survives_concat {acts : List A} {a : A} {score : S} {member : M} :
    Survives op (acts ++ [a]) score member ↔
      op a = some (.add score member) ∨
        (Survives op acts score member ∧ (∀ t, op a ≠ some (.add t member)) ∧
          ∀ max, op a = some (.removeUpTo max) → max < score) := by
  constructor
  · rintro ⟨before, b, later, hsplit, hadd, hagain, hremoved⟩
    rcases Transition.concat_eq_append_cons_iff.1 hsplit with ⟨-, -, rfl⟩ | ⟨later', rfl, rfl⟩
    · exact Or.inl hadd
    · refine Or.inr ⟨⟨before, b, later', rfl, hadd, fun c hc => hagain c ?_,
        fun c hc => hremoved c ?_⟩, hagain a ?_, hremoved a ?_⟩ <;> simp_all
  · rintro (hadd | ⟨⟨before, b, later, rfl, hadd, hagain, hremoved⟩, hnot, hmax⟩)
    · exact ⟨acts, a, [], rfl, hadd, by simp, by simp⟩
    · refine ⟨before, b, later ++ [a], by simp, hadd, ?_, ?_⟩
      · intro c hc
        rcases List.mem_append.1 hc with hc | hc
        · exact hagain c hc
        · exact List.mem_singleton.1 hc ▸ hnot
      · intro c hc
        rcases List.mem_append.1 hc with hc | hc
        · exact hremoved c hc
        · exact List.mem_singleton.1 hc ▸ hmax

/-- **The members after a run.** -/
theorem mem_after {acts : List A} {score : S} {member : M} :
    toLex (score, member) ∈ (after op acts).entries ↔ Survives op acts score member := by
  induction acts using List.reverseRecOn with
  | nil =>
      refine iff_of_false (by simp [after]) ?_
      rintro ⟨before, a, later, h, -⟩
      simp at h
  | append_singleton acts a ih =>
      rw [after_concat, survives_concat]
      cases hop : op a with
      | none => simp [ih]
      | some o =>
          cases o with
          | add t m =>
              change toLex (score, member) ∈ ((after op acts).add t m).entries ↔ _
              rw [mem_add, ih]
              grind
          | removeUpTo max =>
              change toLex (score, member) ∈ ((after op acts).removeUpTo max).entries ↔ _
              rw [mem_removeUpTo, ih]
              simp

end Runs

end SortedSet
