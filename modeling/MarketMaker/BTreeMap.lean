/-
**A map kept in increasing order of its keys.**

`BTreeMap rank V` models an ordered map whose keys are compared through `rank : K → α`, a map into
a linear order.  Two keys of the same rank are one key to the map even when they are not the same
value, and an insertion at a rank already present keeps the key that is stored and replaces its
value only: what is stored is the *first* key of a rank and the *last* value.

The order of the entries is a field of the structure, so an unordered map cannot be built.

* `BTreeMap.insert`, `BTreeMap.remove`, `BTreeMap.firstKeyValue`, `BTreeMap.lastKeyValue` — the
  operations;
* `BTreeMap.getKeyValue` — the entry stored at a rank, in terms of which the others are specified;
* `BTreeMap.lastKeyValue_eq_some_iff`, `BTreeMap.firstKeyValue_eq_some_iff` — **the two ends are
  the greatest and the least rank present**.
-/

import Mathlib.Data.List.Pairwise
import Mathlib.Order.Lattice

set_option relaxedAutoImplicit false
set_option autoImplicit false

variable {K α V : Type*} [LinearOrder α]

/-- A map whose entries are listed in strictly increasing order of the ranks of their keys. -/
structure BTreeMap (rank : K → α) (V : Type*) where
  /-- The entries, in order. -/
  entries : List (K × V)
  /-- The ranks increase strictly. -/
  sorted : entries.Pairwise fun a b => rank a.1 < rank b.1

namespace BTreeMap

variable (rank : K → α)

/-- The empty map. -/
def empty : BTreeMap rank V := ⟨[], List.Pairwise.nil⟩

instance : Inhabited (BTreeMap rank V) := ⟨empty rank⟩

/-! ### Insertion into the list of entries -/

/-- The entries after an insertion at `k`.  The key of an entry of the same rank stays. -/
def insertEntry (k : K) (v : V) : List (K × V) → List (K × V)
  | [] => [(k, v)]
  | e :: es =>
      if rank k < rank e.1 then (k, v) :: e :: es
      else if rank e.1 < rank k then e :: insertEntry k v es
      else (e.1, v) :: es

/-- Every rank after an insertion is an old one or the inserted one. -/
theorem rank_of_mem_insertEntry {k : K} {v : V} {es : List (K × V)} {e : K × V}
    (h : e ∈ insertEntry rank k v es) : rank e.1 = rank k ∨ ∃ e' ∈ es, e'.1 = e.1 := by
  induction es with
  | nil =>
      rw [insertEntry, List.mem_singleton] at h
      exact Or.inl (h ▸ rfl)
  | cons d es ih =>
      rw [insertEntry] at h
      split_ifs at h with hlt hgt
      · rcases List.mem_cons.1 h with rfl | h
        · exact Or.inl rfl
        · exact Or.inr ⟨e, h, rfl⟩
      · rcases List.mem_cons.1 h with rfl | h
        · exact Or.inr ⟨e, List.mem_cons_self .., rfl⟩
        · rcases ih h with hk | ⟨e', he', heq⟩
          · exact Or.inl hk
          · exact Or.inr ⟨e', List.mem_cons_of_mem _ he', heq⟩
      · rcases List.mem_cons.1 h with rfl | h
        · exact Or.inr ⟨d, List.mem_cons_self .., rfl⟩
        · exact Or.inr ⟨e, List.mem_cons_of_mem _ h, rfl⟩

theorem sorted_insertEntry (k : K) (v : V) {es : List (K × V)}
    (h : es.Pairwise fun a b => rank a.1 < rank b.1) :
    (insertEntry rank k v es).Pairwise fun a b => rank a.1 < rank b.1 := by
  induction es with
  | nil => exact List.pairwise_singleton _ _
  | cons d es ih =>
      obtain ⟨hd, hes⟩ := List.pairwise_cons.1 h
      rw [insertEntry]
      split_ifs with hlt hgt
      · refine List.pairwise_cons.2 ⟨fun e he => ?_, h⟩
        rcases List.mem_cons.1 he with rfl | he
        · exact hlt
        · exact lt_trans hlt (hd e he)
      · refine List.pairwise_cons.2 ⟨fun e he => ?_, ih hes⟩
        rcases rank_of_mem_insertEntry rank he with hk | ⟨e', he', heq⟩
        · exact hk ▸ hgt
        · exact heq ▸ hd e' he'
      · exact List.pairwise_cons.2 ⟨hd, hes⟩

/-! ### The operations -/

variable {rank}

/-- Insert or overwrite; a key of the same rank already present is kept. -/
def insert (m : BTreeMap rank V) (k : K) (v : V) : BTreeMap rank V :=
  ⟨insertEntry rank k v m.entries, sorted_insertEntry rank k v m.sorted⟩

/-- Remove the entry whose key has the rank of `k`, if there is one. -/
def remove (m : BTreeMap rank V) (k : K) : BTreeMap rank V :=
  ⟨m.entries.filter fun e => rank e.1 ≠ rank k, m.sorted.filter _⟩

/-- Remove every entry. -/
def clear (_ : BTreeMap rank V) : BTreeMap rank V := empty rank

/-- The entry of least rank. -/
def firstKeyValue (m : BTreeMap rank V) : Option (K × V) := m.entries.head?

/-- The entry of greatest rank. -/
def lastKeyValue (m : BTreeMap rank V) : Option (K × V) := m.entries.getLast?

/-- The entry stored at the rank `a`. -/
def getKeyValue (m : BTreeMap rank V) (a : α) : Option (K × V) :=
  m.entries.find? fun e => rank e.1 = a

/-! ### The entry stored at a rank -/

@[simp] theorem getKeyValue_empty (a : α) : (empty rank : BTreeMap rank V).getKeyValue a = none :=
  rfl

@[simp] theorem getKeyValue_clear (m : BTreeMap rank V) (a : α) :
    m.clear.getKeyValue a = none := rfl

theorem rank_of_getKeyValue {m : BTreeMap rank V} {a : α} {e : K × V}
    (h : m.getKeyValue a = some e) : rank e.1 = a := by
  simpa using List.find?_some h

theorem mem_of_getKeyValue {m : BTreeMap rank V} {a : α} {e : K × V}
    (h : m.getKeyValue a = some e) : e ∈ m.entries := List.mem_of_find?_eq_some h

/-- In a strictly ordered list the entry of a rank is the only one. -/
theorem find?_rank_eq_some {es : List (K × V)} (h : es.Pairwise fun a b => rank a.1 < rank b.1)
    {e : K × V} (he : e ∈ es) : es.find? (fun e' => rank e'.1 = rank e.1) = some e := by
  induction es with
  | nil => simp at he
  | cons d es ih =>
      obtain ⟨hd, hes⟩ := List.pairwise_cons.1 h
      rcases List.mem_cons.1 he with rfl | he
      · simp
      · rw [List.find?_cons_of_neg (by simpa using (hd e he).ne)]
        exact ih hes he

theorem getKeyValue_of_mem {m : BTreeMap rank V} {e : K × V} (he : e ∈ m.entries) :
    m.getKeyValue (rank e.1) = some e := find?_rank_eq_some m.sorted he

theorem getKeyValue_eq_some_iff {m : BTreeMap rank V} {a : α} {e : K × V} :
    m.getKeyValue a = some e ↔ e ∈ m.entries ∧ rank e.1 = a := by
  constructor
  · intro h
    exact ⟨mem_of_getKeyValue h, rank_of_getKeyValue h⟩
  · rintro ⟨he, rfl⟩
    exact getKeyValue_of_mem he

/-- After an insertion the rank of `k` holds the new value, under the key stored before if there
was one. -/
theorem getKeyValue_insert_self (m : BTreeMap rank V) (k : K) (v : V) :
    (m.insert k v).getKeyValue (rank k) =
      some (((m.getKeyValue (rank k)).map Prod.fst).getD k, v) := by
  obtain ⟨es, h⟩ := m
  simp only [getKeyValue, insert]
  induction es with
  | nil => simp [insertEntry]
  | cons d es ih =>
      obtain ⟨hd, hes⟩ := List.pairwise_cons.1 h
      rw [insertEntry]
      split_ifs with hlt hgt
      · have hnone : (d :: es).find? (fun e => rank e.1 = rank k) = none := by
          refine List.find?_eq_none.2 fun e he => ?_
          rcases List.mem_cons.1 he with rfl | he
          · simpa using hlt.ne'
          · simpa using (hlt.trans (hd e he)).ne'
        rw [hnone]
        simp
      · rw [List.find?_cons_of_neg (by simpa using hgt.ne),
          List.find?_cons_of_neg (by simpa using hgt.ne)]
        exact ih hes
      · have heq : rank d.1 = rank k := le_antisymm (not_lt.1 hlt) (not_lt.1 hgt)
        simp [heq]

theorem getKeyValue_insert_of_ne (m : BTreeMap rank V) {k : K} (v : V) {a : α}
    (ha : a ≠ rank k) : (m.insert k v).getKeyValue a = m.getKeyValue a := by
  obtain ⟨es, h⟩ := m
  simp only [getKeyValue, insert]
  induction es with
  | nil => simp [insertEntry, Ne.symm ha]
  | cons d es ih =>
      obtain ⟨-, hes⟩ := List.pairwise_cons.1 h
      rw [insertEntry]
      split_ifs with hlt hgt
      · rw [List.find?_cons_of_neg (by simpa using Ne.symm ha)]
      · rw [List.find?_cons, List.find?_cons, ih hes]
      · have heq : rank d.1 = rank k := le_antisymm (not_lt.1 hlt) (not_lt.1 hgt)
        rw [List.find?_cons_of_neg (by simpa [heq] using Ne.symm ha),
          List.find?_cons_of_neg (by simpa [heq] using Ne.symm ha)]

@[simp] theorem getKeyValue_remove_self (m : BTreeMap rank V) (k : K) :
    (m.remove k).getKeyValue (rank k) = none := by
  refine List.find?_eq_none.2 fun e he => ?_
  simpa using (List.mem_filter.1 he).2

theorem getKeyValue_remove_of_ne (m : BTreeMap rank V) {k : K} {a : α} (ha : a ≠ rank k) :
    (m.remove k).getKeyValue a = m.getKeyValue a := by
  refine Option.ext fun e => ?_
  rw [getKeyValue_eq_some_iff, getKeyValue_eq_some_iff]
  refine and_congr_left fun he => ?_
  simp [remove, he, ha]

/-! ### The two ends -/

theorem lastKeyValue_eq_none_iff {m : BTreeMap rank V} :
    m.lastKeyValue = none ↔ ∀ a, m.getKeyValue a = none := by
  rw [lastKeyValue, List.getLast?_eq_none_iff]
  constructor
  · intro h a
    simp [getKeyValue, h]
  · intro h
    refine List.eq_nil_iff_forall_not_mem.2 fun e he => ?_
    simpa [h] using getKeyValue_of_mem he

theorem firstKeyValue_eq_none_iff {m : BTreeMap rank V} :
    m.firstKeyValue = none ↔ ∀ a, m.getKeyValue a = none := by
  rw [← lastKeyValue_eq_none_iff, firstKeyValue, lastKeyValue, List.head?_eq_none_iff,
    List.getLast?_eq_none_iff]

/-- **The last entry is the one of the greatest rank.** -/
theorem lastKeyValue_eq_some_iff {m : BTreeMap rank V} {e : K × V} :
    m.lastKeyValue = some e ↔
      m.getKeyValue (rank e.1) = some e ∧
        ∀ a, (m.getKeyValue a).isSome → a ≤ rank e.1 := by
  constructor
  · intro h
    obtain ⟨es, hes⟩ := List.getLast?_eq_some_iff.1 h
    have hmem : e ∈ m.entries := by simp [hes]
    refine ⟨getKeyValue_of_mem hmem, fun a ha => ?_⟩
    obtain ⟨d, hd⟩ := Option.isSome_iff_exists.1 ha
    obtain ⟨hdm, rfl⟩ := getKeyValue_eq_some_iff.1 hd
    rw [hes, List.mem_append, List.mem_singleton] at hdm
    have hs := m.sorted
    rw [hes, List.pairwise_append] at hs
    rcases hdm with hdm | rfl
    · exact (hs.2.2 d hdm e (List.mem_singleton_self e)).le
    · exact le_rfl
  · rintro ⟨he, hmax⟩
    have hmem := mem_of_getKeyValue he
    obtain ⟨d, hd⟩ : ∃ d, m.lastKeyValue = some d :=
      Option.isSome_iff_exists.1 (by simpa [lastKeyValue] using List.ne_nil_of_mem hmem)
    obtain ⟨es, hes⟩ := List.getLast?_eq_some_iff.1 hd
    have hs := m.sorted
    rw [hes, List.pairwise_append] at hs
    rw [hes, List.mem_append, List.mem_singleton] at hmem
    rcases hmem with hmem | rfl
    · -- an entry before the last would have a smaller rank than the last
      have hlt := hs.2.2 e hmem d (List.mem_singleton_self d)
      have hdm : d ∈ m.entries := by simp [hes]
      exact absurd (hmax (rank d.1) (by simp [getKeyValue_of_mem hdm])) (not_le.2 hlt)
    · exact hd

/-- **The first entry is the one of the least rank.** -/
theorem firstKeyValue_eq_some_iff {m : BTreeMap rank V} {e : K × V} :
    m.firstKeyValue = some e ↔
      m.getKeyValue (rank e.1) = some e ∧
        ∀ a, (m.getKeyValue a).isSome → rank e.1 ≤ a := by
  constructor
  · intro h
    obtain ⟨es, hes⟩ := List.head?_eq_some_iff.1 h
    have hmem : e ∈ m.entries := by simp [hes]
    refine ⟨getKeyValue_of_mem hmem, fun a ha => ?_⟩
    obtain ⟨d, hd⟩ := Option.isSome_iff_exists.1 ha
    obtain ⟨hdm, rfl⟩ := getKeyValue_eq_some_iff.1 hd
    have hs := m.sorted
    rw [hes] at hs hdm
    rcases List.mem_cons.1 hdm with rfl | hdm
    · exact le_rfl
    · exact (List.rel_of_pairwise_cons hs hdm).le
  · rintro ⟨he, hmin⟩
    have hmem := mem_of_getKeyValue he
    obtain ⟨d, es, hes⟩ := List.exists_cons_of_ne_nil (List.ne_nil_of_mem hmem)
    have hs := m.sorted
    rw [hes] at hs hmem
    rcases List.mem_cons.1 hmem with rfl | hmem
    · rw [firstKeyValue, hes, List.head?_cons]
    · -- an entry after the first would have a greater rank than the first
      have hlt := List.rel_of_pairwise_cons hs hmem
      have hdm : d ∈ m.entries := by simp [hes]
      exact absurd (hmin (rank d.1) (by simp [getKeyValue_of_mem hdm])) (not_le.2 hlt)

end BTreeMap
