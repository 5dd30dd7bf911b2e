/-
**Last-write-wins: a log of writes and the map it leaves behind.**

A log is a list of writes, each to one key.  Applying it to a map, write after write, leaves at
every key what the last write to that key says, and the old content where the log never writes.
A write may store a value or clear its key; which of the two is read off the write by a function
`W → Option V`.

* `LastWrite.last` — the last write of a log to a key;
* `LastWrite.last_append` — the last write of a concatenation;
* `LastWrite.last_eq_some_iff` — the last write is one with no later write to its key;
* `LastWrite.exists_last_of_mem` — in an ordered log, it is the greatest one to its key;
* `LastWrite.last_filter` — writes to other keys may be left out;
* `LastWrite.apply` — applying a log to a map;
* `LastWrite.apply_eq` — **applying a log is looking up its last writes**;
* `LastWrite.apply_replay`, `LastWrite.apply_perm` — applying its end again, or writes to different
  keys in another order, leaves the same map.
-/

import Mathlib.Data.List.Induction
import Mathlib.Logic.Function.Basic

set_option relaxedAutoImplicit false
set_option autoImplicit false

namespace LastWrite

variable {W K V : Type*} [DecidableEq K] (key : W → K)

/-! ### The last write to a key -/

/-- The last write of the log to the key `k`. -/
def last : List W → K → Option W
  | [], _ => none
  | w :: log, k => (last log k).or (if key w = k then some w else none)

@[simp] theorem last_nil (k : K) : last key [] k = none := rfl

theorem last_cons (w : W) (log : List W) (k : K) :
    last key (w :: log) k = (last key log k).or (if key w = k then some w else none) := rfl

theorem last_append (log log' : List W) (k : K) :
    last key (log ++ log') k = (last key log' k).or (last key log k) := by
  induction log with
  | nil => simp
  | cons w log ih => rw [List.cons_append, last_cons, ih, last_cons, Option.or_assoc]

/-- A write at the end is the last one to its key. -/
@[simp] theorem last_concat_self (log : List W) (w : W) :
    last key (log ++ [w]) (key w) = some w := by
  simp [last_append, last_cons]

theorem last_concat_of_ne (log : List W) {w : W} {k : K} (h : key w ≠ k) :
    last key (log ++ [w]) k = last key log k := by
  simp [last_append, last_cons, h]

/-- The last write to `k` is a write of the log, and to `k`. -/
theorem last_eq_some {log : List W} {k : K} {w : W} (h : last key log k = some w) :
    w ∈ log ∧ key w = k := by
  induction log with
  | nil => simp at h
  | cons v log ih =>
      rw [last_cons, Option.or_eq_some_iff] at h
      rcases h with h | ⟨-, h⟩
      · exact ⟨List.mem_cons_of_mem _ (ih h).1, (ih h).2⟩
      · split at h
        · rename_i hk
          rw [Option.some.injEq] at h
          exact h ▸ ⟨List.mem_cons_self .., hk⟩
        · simp at h

theorem last_eq_none_iff {log : List W} {k : K} : last key log k = none ↔ ∀ w ∈ log, key w ≠ k := by
  induction log with
  | nil => simp
  | cons w log ih => simp [last_cons, ih, and_comm]

/-- **The last write is one with no later write to its key.** -/
theorem last_eq_some_iff {log : List W} {k : K} {w : W} :
    last key log k = some w ↔
      ∃ before later, log = before ++ w :: later ∧ key w = k ∧ ∀ v ∈ later, key v ≠ k := by
  constructor
  · intro h
    induction log with
    | nil => simp at h
    | cons v log ih =>
        rw [last_cons, Option.or_eq_some_iff] at h
        rcases h with h | ⟨hnone, h⟩
        · obtain ⟨before, later, rfl, hk, hlater⟩ := ih h
          exact ⟨v :: before, later, rfl, hk, hlater⟩
        · obtain ⟨hk, hv⟩ := Option.ite_none_right_eq_some.1 h
          obtain rfl := Option.some.inj hv
          exact ⟨[], log, rfl, hk, (last_eq_none_iff key).1 hnone⟩
  · rintro ⟨before, later, rfl, rfl, hlater⟩
    rw [last_append, last_cons, (last_eq_none_iff key).2 hlater]
    simp

/-- In an ordered log, no write to a key comes after the last one. -/
theorem exists_last_of_mem {R : W → W → Prop} {log : List W} (hlog : log.Pairwise R) {w : W}
    (h : w ∈ log) : ∃ w', last key log (key w) = some w' ∧ (w = w' ∨ R w w') := by
  cases hlast : last key log (key w) with
  | none => exact absurd rfl ((last_eq_none_iff key).1 hlast w h)
  | some w' =>
      obtain ⟨before, later, rfl, -, hlater⟩ := (last_eq_some_iff key).1 hlast
      refine ⟨w', rfl, ?_⟩
      rcases List.mem_append.1 h with hbefore | h
      · exact Or.inr ((List.pairwise_append.1 hlog).2.2 w hbefore w' List.mem_cons_self)
      · rcases List.mem_cons.1 h with heq | hin
        · exact Or.inl heq
        · exact absurd rfl (hlater w hin)

/-- Of writes to different keys each is the last one to its key. -/
theorem last_eq_some_iff_mem {log : List W} (h : (log.map key).Nodup) {k : K} {w : W} :
    last key log k = some w ↔ w ∈ log ∧ key w = k := by
  refine ⟨last_eq_some key, ?_⟩
  rintro ⟨hmem, hk⟩
  obtain ⟨before, later, rfl⟩ := List.append_of_mem hmem
  refine (last_eq_some_iff key).2 ⟨before, later, rfl, hk, fun v hv heq => ?_⟩
  rw [List.map_append, List.map_cons] at h
  have hnot := (List.nodup_cons.1 (List.nodup_append.1 h).2.1).1
  exact hnot (List.mem_map.2 ⟨v, hv, heq.trans hk.symm⟩)

/-- **Writes to different keys in another order** have the same last writes. -/
theorem last_perm {log log' : List W} (hperm : log.Perm log') (h : (log.map key).Nodup) (k : K) :
    last key log k = last key log' k := by
  have h' : (log'.map key).Nodup := (hperm.map key).nodup_iff.1 h
  refine Option.ext fun w => ?_
  rw [last_eq_some_iff_mem key h, last_eq_some_iff_mem key h', hperm.mem_iff]

/-- Leaving out writes to other keys. -/
theorem last_filter {p : W → Bool} {log : List W} {k : K} (h : ∀ w ∈ log, key w = k → p w) :
    last key (log.filter p) k = last key log k := by
  induction log with
  | nil => rfl
  | cons w log ih =>
      obtain ⟨hw, hlog⟩ := List.forall_mem_cons.1 h
      rw [last_cons, ← ih hlog]
      by_cases hp : p w
      · rw [List.filter_cons_of_pos hp, last_cons]
      · rw [List.filter_cons_of_neg hp, if_neg fun hk => hp (hw hk), Option.or_none]

/-- Writes translated to other writes to the same keys. -/
theorem last_map {U : Type*} {key' : U → K} {f : W → U} (hf : ∀ w, key' (f w) = key w)
    (log : List W) (k : K) : last key' (log.map f) k = (last key log k).map f := by
  induction log with
  | nil => rfl
  | cons w log ih =>
      rw [List.map_cons, last_cons, last_cons, ih, hf, Option.map_or]
      split_ifs <;> rfl

/-! ### Applying a log -/

/-- The map left by applying the log to `m`: each write sets its key to `val w`, or clears it. -/
def apply (val : W → Option V) (m : K → Option V) (log : List W) : K → Option V :=
  log.foldl (fun m w => Function.update m (key w) (val w)) m

variable (val : W → Option V)

@[simp] theorem apply_nil (m : K → Option V) : apply key val m [] = m := rfl

theorem apply_append (m : K → Option V) (log log' : List W) :
    apply key val m (log ++ log') = apply key val (apply key val m log) log' :=
  List.foldl_append

theorem apply_concat (m : K → Option V) (log : List W) (w : W) :
    apply key val m (log ++ [w]) = Function.update (apply key val m log) (key w) (val w) := by
  rw [apply_append]
  rfl

/-- **Applying a log is looking up its last writes**: at every key the map holds what the last
write there says, or what it held before if there was none. -/
theorem apply_eq (m : K → Option V) (log : List W) (k : K) :
    apply key val m log k = ((last key log k).map val).getD (m k) := by
  induction log using List.reverseRecOn with
  | nil => simp
  | append_singleton log w ih =>
      rw [apply_concat]
      by_cases hk : key w = k
      · subst hk
        simp
      · rw [Function.update_of_ne (Ne.symm hk), ih, last_concat_of_ne key log hk]

/-- **Applying the end of a log again changes nothing.** -/
theorem apply_replay (m : K → Option V) (log log' : List W) :
    apply key val (apply key val m (log ++ log')) log' = apply key val m (log ++ log') := by
  funext k
  rw [apply_eq, apply_append, apply_eq key val (apply key val m log)]
  cases last key log' k <;> rfl

/-- **Writes to different keys can be applied in any order.** -/
theorem apply_perm (m : K → Option V) {log log' : List W} (hperm : log.Perm log')
    (h : (log.map key).Nodup) : apply key val m log = apply key val m log' := by
  funext k
  rw [apply_eq, apply_eq, last_perm key hperm h]

end LastWrite
