/-
**Decimal numbers as plain positional text.**

An integer coefficient `c` with `scale` decimal places stands for `c * 10 ^ (-scale)`.  Written
plainly it is a sign, the digits of the whole part and, after a point, as many digits as there are
places; with a negative scale, the digits of a whole number.  Reading takes an optional sign, digits
and at most one point, and nothing else.

A text may be followed by an exponent: a mark, a sign and digits.

* `PositionalText.text` — the plain text of a coefficient and a scale;
* `PositionalText.read` — the number a text writes, absent where it is none;
* `PositionalText.read_text` — **what is written plainly is read back as the number it stands for**;
* `PositionalText.mem_of_read` — the characters of a text that is read;
* `PositionalText.ofDigitChars_text` — the digits of a text write its coefficient;
* `PositionalText.withExponent`, `PositionalText.splitExponent`, `PositionalText.readExponent` — a
  text with an exponent, its two parts, and the number the second one writes.
-/

import Mathlib.Algebra.Order.Field.Rat
import Mathlib.Data.List.TakeWhile
import Mathlib.Data.Nat.Digits.Defs
import Mathlib.Tactic.FieldSimp
import Mathlib.Tactic.Ring

set_option relaxedAutoImplicit false
set_option autoImplicit false

namespace PositionalText

/-! ### Writing -/

/-- Exactly `k` digits of a number below `10 ^ k`, with zeros in front. -/
def fraction (k n : ℕ) : List Char := (Nat.toDigits 10 n).leftpad k '0'

/-- The plain text of `n * 10 ^ (-scale)`. -/
def unsigned (n : ℕ) : ℤ → List Char
  | .ofNat 0 => Nat.toDigits 10 n
  | .ofNat (k + 1) =>
      Nat.toDigits 10 (n / 10 ^ (k + 1)) ++ '.' :: fraction (k + 1) (n % 10 ^ (k + 1))
  | .negSucc k => Nat.toDigits 10 (n * 10 ^ (k + 1))

/-- The plain text of `c * 10 ^ (-scale)`. -/
def text (c scale : ℤ) : String :=
  String.ofList ((if c < 0 then ['-'] else []) ++ unsigned c.natAbs scale)

/-! ### Reading -/

/-- The number some digits write, at least one. -/
def readDigits (cs : List Char) : Option ℕ :=
  if cs ≠ [] ∧ cs.all Char.isDigit then some (Nat.ofDigitChars 10 cs 0) else none

/-- The number digits with at most one point between them write. -/
def readUnsigned (cs : List Char) : Option ℚ :=
  match cs.span (· ≠ '.') with
  | (whole, []) => (readDigits whole).map fun n : ℕ => (n : ℚ)
  | (whole, _ :: rest) =>
      (readDigits whole).bind fun n : ℕ =>
        (readDigits rest).map fun m : ℕ => (n : ℚ) + m / 10 ^ rest.length

/-- The number a text writes, with an optional sign. -/
def read (s : String) : Option ℚ :=
  match s.toList with
  | '-' :: cs => (readUnsigned cs).map fun v => -v
  | '+' :: cs => readUnsigned cs
  | cs => readUnsigned cs

/-! ### Digits -/

theorem readDigits_of_isDigit {cs : List Char} (hne : cs ≠ []) (h : ∀ c ∈ cs, c.isDigit) :
    readDigits cs = some (Nat.ofDigitChars 10 cs 0) :=
  if_pos ⟨hne, List.all_eq_true.2 h⟩

theorem isDigit_of_readDigits {cs : List Char} {n : ℕ} (h : readDigits cs = some n) :
    ∀ c ∈ cs, c.isDigit := by
  unfold readDigits at h
  split_ifs at h with hcs
  exact List.all_eq_true.1 hcs.2

theorem isDigit_toDigits (n : ℕ) : ∀ c ∈ Nat.toDigits 10 n, c.isDigit :=
  fun _ hc => Nat.isDigit_of_mem_toDigits (by omega) (by omega) hc

theorem isDigit_fraction (k n : ℕ) : ∀ c ∈ fraction k n, c.isDigit := by
  intro c hc
  rw [fraction, List.leftpad, List.mem_append] at hc
  rcases hc with hc | hc
  · rw [List.eq_of_mem_replicate hc]
    rfl
  · exact isDigit_toDigits n c hc

theorem length_fraction {k n : ℕ} (hn : n < 10 ^ (k + 1)) :
    (fraction (k + 1) n).length = k + 1 := by
  have hle := Nat.toDigits_length 10 n (k + 1) (Nat.succ_pos k) hn
  rw [fraction, List.length_leftpad]
  omega

theorem lt_pow_length (n : ℕ) : n < 10 ^ (Nat.toDigits 10 n).length :=
  (Nat.length_toDigits_le_iff (by omega) Nat.length_toDigits_pos).1 le_rfl

theorem pow_length_le {n : ℕ} (hn : n ≠ 0) : 10 ^ ((Nat.toDigits 10 n).length - 1) ≤ n := by
  have hpos : 0 < (Nat.toDigits 10 n).length := Nat.length_toDigits_pos
  rcases Nat.eq_zero_or_pos ((Nat.toDigits 10 n).length - 1) with hzero | hmore
  · rw [hzero, pow_zero]
    omega
  · by_contra hlt
    have hle := (Nat.length_toDigits_le_iff (b := 10) (n := n) (by omega) hmore).2 (by omega)
    omega

theorem readDigits_toDigits (n : ℕ) : readDigits (Nat.toDigits 10 n) = some n := by
  have hne : Nat.toDigits 10 n ≠ [] := List.ne_nil_of_length_pos Nat.length_toDigits_pos
  rw [readDigits_of_isDigit hne (isDigit_toDigits n), Nat.ofDigitChars_ten_toDigits]

/-- The zeros in front do not count. -/
theorem readDigits_fraction (k n : ℕ) : readDigits (fraction k n) = some n := by
  have hne : fraction k n ≠ [] := by
    have hpos : 0 < (Nat.toDigits 10 n).length := Nat.length_toDigits_pos
    refine List.ne_nil_of_length_pos ?_
    rw [fraction, List.length_leftpad]
    omega
  rw [readDigits_of_isDigit hne (isDigit_fraction k n), fraction, List.leftpad,
    Nat.ofDigitChars_append, Nat.ofDigitChars_replicate_zero, mul_zero,
    Nat.ofDigitChars_ten_toDigits]

/-! ### What is written is read back -/

theorem ne_point_of_isDigit {cs : List Char} (h : ∀ c ∈ cs, c.isDigit) :
    ∀ c ∈ cs, decide (c ≠ '.') = true := by
  intro c hc
  rw [decide_eq_true_eq]
  rintro rfl
  exact absurd (h _ hc) (by decide)

/-- Digits without a point. -/
theorem readUnsigned_digits {cs : List Char} (h : ∀ c ∈ cs, c.isDigit) :
    readUnsigned cs = (readDigits cs).map fun n : ℕ => (n : ℚ) := by
  have hspan : cs.span (· ≠ '.') = (cs, []) := by
    rw [List.span_eq_takeWhile_dropWhile, List.takeWhile_eq_self_iff.2 (ne_point_of_isDigit h),
      List.dropWhile_eq_nil_iff.2 (ne_point_of_isDigit h)]
  rw [readUnsigned, hspan]

/-- Digits on both sides of a point. -/
theorem readUnsigned_point {whole rest : List Char} (h : ∀ c ∈ whole, c.isDigit) {n m : ℕ}
    (hn : readDigits whole = some n) (hm : readDigits rest = some m) :
    readUnsigned (whole ++ '.' :: rest) = some (n + m / 10 ^ rest.length : ℚ) := by
  have hspan : (whole ++ '.' :: rest).span (· ≠ '.') = (whole, '.' :: rest) := by
    rw [List.span_eq_takeWhile_dropWhile, List.takeWhile_append_of_pos (ne_point_of_isDigit h),
      List.dropWhile_append_of_pos (ne_point_of_isDigit h)]
    simp
  rw [readUnsigned, hspan]
  simp [hn, hm]

/-- **The digits of a number with a scale** are read back. -/
theorem readUnsigned_unsigned (n : ℕ) (scale : ℤ) :
    readUnsigned (unsigned n scale) = some (n * (10 : ℚ) ^ (-scale)) := by
  match scale with
  | .ofNat 0 =>
      rw [unsigned, readUnsigned_digits (isDigit_toDigits n), readDigits_toDigits]
      simp
  | .negSucc k =>
      rw [unsigned, readUnsigned_digits (isDigit_toDigits _), readDigits_toDigits,
        Int.neg_negSucc, zpow_natCast]
      simp
  | .ofNat (k + 1) =>
      have hlt : n % 10 ^ (k + 1) < 10 ^ (k + 1) := Nat.mod_lt _ (by positivity)
      rw [unsigned, readUnsigned_point (isDigit_toDigits _) (readDigits_toDigits _)
        (readDigits_fraction _ _), length_fraction hlt]
      -- the whole part and the fraction are quotient and remainder
      have hpow : (10 : ℚ) ^ (k + 1) ≠ 0 := by positivity
      have hdiv : (n : ℚ) = 10 ^ (k + 1) * (n / 10 ^ (k + 1) : ℕ) + (n % 10 ^ (k + 1) : ℕ) := by
        exact_mod_cast (Nat.div_add_mod n (10 ^ (k + 1))).symm
      rw [Option.some.injEq, Int.ofNat_eq_natCast, zpow_neg, zpow_natCast]
      field_simp
      linarith

/-- The digits of a number do not begin with a sign. -/
theorem head_unsigned (n : ℕ) (scale : ℤ) :
    ∃ c cs, unsigned n scale = c :: cs ∧ c.isDigit := by
  have hdigits : ∀ m (rest : List Char),
      ∃ c cs, Nat.toDigits 10 m ++ rest = c :: cs ∧ c.isDigit := by
    intro m rest
    have hpos : 0 < (Nat.toDigits 10 m).length := Nat.length_toDigits_pos
    obtain ⟨c, cs, heq⟩ := List.exists_cons_of_length_pos hpos
    refine ⟨c, cs ++ rest, by rw [heq, List.cons_append], isDigit_toDigits m c ?_⟩
    rw [heq]
    exact List.mem_cons_self ..
  match scale with
  | .ofNat 0 =>
      have h := hdigits n []
      rw [List.append_nil] at h
      exact h
  | .ofNat (k + 1) => exact hdigits _ _
  | .negSucc k =>
      have h := hdigits (n * 10 ^ (k + 1)) []
      rw [List.append_nil] at h
      exact h

theorem read_of_isDigit {c : Char} {cs : List Char} (hc : c.isDigit) :
    read (String.ofList (c :: cs)) = readUnsigned (c :: cs) := by
  unfold read
  rw [String.toList_ofList]
  split
  · rename_i heq
    cases heq
    exact absurd hc (by decide)
  · rename_i heq
    cases heq
    exact absurd hc (by decide)
  · rfl

/-- **What is written plainly is read back as the number it stands for.** -/
theorem read_text (c scale : ℤ) : read (text c scale) = some (c * (10 : ℚ) ^ (-scale)) := by
  unfold text
  split_ifs with hneg
  · have habs : (c : ℚ) = -(c.natAbs : ℚ) := by
      rw [← Int.cast_natCast, Int.ofNat_natAbs_of_nonpos hneg.le]
      push_cast
      ring
    unfold read
    rw [String.toList_ofList]
    change (readUnsigned (unsigned c.natAbs scale)).map _ = _
    rw [readUnsigned_unsigned, Option.map_some, habs, neg_mul]
  · have habs : (c : ℚ) = (c.natAbs : ℚ) := by
      rw [← Int.cast_natCast, Int.natAbs_of_nonneg (not_lt.1 hneg)]
    obtain ⟨head, cs, heq, hdigit⟩ := head_unsigned c.natAbs scale
    rw [List.nil_append, heq, read_of_isDigit hdigit, ← heq, readUnsigned_unsigned, habs]

/-! ### What is read -/

theorem mem_of_readUnsigned {cs : List Char} {v : ℚ} (h : readUnsigned cs = some v) :
    ∀ c ∈ cs, c.isDigit ∨ c = '.' := by
  have hsplit : (cs.span (· ≠ '.')).1 ++ (cs.span (· ≠ '.')).2 = cs := by
    rw [List.span_eq_takeWhile_dropWhile]
    exact List.takeWhile_append_dropWhile
  unfold readUnsigned at h
  split at h
  · rename_i whole heq
    obtain ⟨n, hn, -⟩ := Option.map_eq_some_iff.1 h
    rw [heq, List.append_nil] at hsplit
    exact hsplit ▸ fun c hc => Or.inl (isDigit_of_readDigits hn c hc)
  · rename_i whole point rest heq
    obtain ⟨n, hn, h⟩ := Option.bind_eq_some_iff.1 h
    obtain ⟨m, hm, -⟩ := Option.map_eq_some_iff.1 h
    have hpoint : point = '.' := by
      have hdrop : cs.dropWhile (fun c => decide (c ≠ '.')) = point :: rest := by
        rw [List.span_eq_takeWhile_dropWhile, Prod.mk.injEq] at heq
        exact heq.2
      have hne := List.head_dropWhile_not (fun c => decide (c ≠ '.')) (by rw [hdrop]; simp)
      simp only [hdrop, List.head_cons] at hne
      simpa using hne
    rw [heq, hpoint] at hsplit
    intro c hc
    rw [← hsplit, List.mem_append, List.mem_cons] at hc
    rcases hc with hc | hc | hc
    · exact Or.inl (isDigit_of_readDigits hn c hc)
    · exact Or.inr hc
    · exact Or.inl (isDigit_of_readDigits hm c hc)

/-- **The characters of a text that is read** are digits, points and signs. -/
theorem mem_of_read {s : String} {v : ℚ} (h : read s = some v) :
    ∀ c ∈ s.toList, c.isDigit ∨ c ∈ ['.', '-', '+'] := by
  intro c hc
  have hchar : ∀ {cs : List Char} {w : ℚ}, readUnsigned cs = some w → c ∈ cs →
      c.isDigit ∨ c ∈ ['.', '-', '+'] := by
    intro cs w hread hmem
    rcases mem_of_readUnsigned hread c hmem with hdigit | rfl
    · exact Or.inl hdigit
    · exact Or.inr (List.mem_cons_self ..)
  unfold read at h
  split at h
  · rename_i cs heq
    obtain ⟨w, hw, -⟩ := Option.map_eq_some_iff.1 h
    rw [heq] at hc
    rcases List.mem_cons.1 hc with rfl | hc
    · exact Or.inr (by simp)
    · exact hchar hw hc
  · rename_i cs heq
    rw [heq] at hc
    rcases List.mem_cons.1 hc with rfl | hc
    · exact Or.inr (by simp)
    · exact hchar h hc
  · exact hchar h hc

/-! ### The digits of a text -/

theorem filter_isDigit_of_isDigit {cs : List Char} (h : ∀ c ∈ cs, c.isDigit) :
    cs.filter Char.isDigit = cs := List.filter_eq_self.2 h

theorem ofDigitChars_fraction (k n : ℕ) : Nat.ofDigitChars 10 (fraction k n) 0 = n := by
  have h := readDigits_fraction k n
  unfold readDigits at h
  split_ifs at h
  exact Option.some.inj h

/-- The digits of a number with decimal places write its coefficient. -/
theorem ofDigitChars_unsigned (n k : ℕ) :
    Nat.ofDigitChars 10 ((unsigned n k).filter Char.isDigit) 0 = n := by
  match k with
  | 0 =>
      change Nat.ofDigitChars 10 ((Nat.toDigits 10 n).filter Char.isDigit) 0 = n
      rw [filter_isDigit_of_isDigit (isDigit_toDigits n), Nat.ofDigitChars_ten_toDigits]
  | k + 1 =>
      have hlt : n % 10 ^ (k + 1) < 10 ^ (k + 1) := Nat.mod_lt _ (by positivity)
      change Nat.ofDigitChars 10 ((Nat.toDigits 10 (n / 10 ^ (k + 1)) ++
        '.' :: fraction (k + 1) (n % 10 ^ (k + 1))).filter Char.isDigit) 0 = n
      rw [List.filter_append, List.filter_cons_of_neg (by decide),
        filter_isDigit_of_isDigit (isDigit_toDigits _),
        filter_isDigit_of_isDigit (isDigit_fraction _ _), Nat.ofDigitChars_append,
        Nat.ofDigitChars_ten_toDigits, Nat.ofDigitChars_eq_ofDigitChars_zero,
        length_fraction hlt, ofDigitChars_fraction]
      exact Nat.div_add_mod n (10 ^ (k + 1))

/-- **The digits of a plain text write its coefficient.** -/
theorem ofDigitChars_text (c : ℤ) (k : ℕ) :
    Nat.ofDigitChars 10 ((text c k).toList.filter Char.isDigit) 0 = c.natAbs := by
  rw [text, String.toList_ofList, List.filter_append]
  have hsign : (if c < 0 then ['-'] else []).filter Char.isDigit = [] := by
    split_ifs <;> rfl
  rw [hsign, List.nil_append, ofDigitChars_unsigned]

/-! ### Exponents -/

/-- The plain text of `c * 10 ^ (-scale)` and an exponent: a mark, a sign and digits. -/
def withExponent (mark : Char) (c scale exponent : ℤ) : String :=
  text c scale ++ String.ofList
    (mark :: (if exponent < 0 then '-' else '+') :: Nat.toDigits 10 exponent.natAbs)

/-- The marks of an exponent. -/
def isMark (c : Char) : Bool := c = 'e' ∨ c = 'E'

/-- What stands in front of the exponent, and the exponent with its mark. -/
def splitExponent (s : String) : List Char × List Char := s.toList.span fun c => !isMark c

/-- The number an exponent writes, with an optional sign. -/
def readExponent : List Char → Option ℤ
  | '-' :: cs => (readDigits cs).map fun n : ℕ => -(n : ℤ)
  | '+' :: cs => (readDigits cs).map fun n : ℕ => (n : ℤ)
  | cs => (readDigits cs).map fun n : ℕ => (n : ℤ)

/-- A text that is read has no exponent. -/
theorem not_isMark_of_read {s : String} {v : ℚ} (h : read s = some v) :
    ∀ c ∈ s.toList, (!isMark c) = true := by
  intro c hc
  rcases mem_of_read h c hc with hdigit | hsign
  · have hmark : isMark c = false := by
      rw [isMark, decide_eq_false_iff_not]
      rintro (rfl | rfl) <;> exact absurd hdigit (by decide)
    rw [hmark]
    rfl
  · simp only [List.mem_cons, List.not_mem_nil, or_false] at hsign
    rcases hsign with rfl | rfl | rfl <;> rfl

theorem splitExponent_of_read {s : String} {v : ℚ} (h : read s = some v) :
    splitExponent s = (s.toList, []) := by
  rw [splitExponent, List.span_eq_takeWhile_dropWhile,
    List.takeWhile_eq_self_iff.2 (not_isMark_of_read h),
    List.dropWhile_eq_nil_iff.2 (not_isMark_of_read h)]

/-- **A text with an exponent is taken apart.** -/
theorem splitExponent_withExponent {mark : Char} (hmark : isMark mark = true)
    (c scale exponent : ℤ) :
    splitExponent (withExponent mark c scale exponent) = ((text c scale).toList,
      mark :: (if exponent < 0 then '-' else '+') :: Nat.toDigits 10 exponent.natAbs) := by
  have hplain := not_isMark_of_read (read_text c scale)
  rw [splitExponent, withExponent, String.toList_append, String.toList_ofList,
    List.span_eq_takeWhile_dropWhile, List.takeWhile_append_of_pos hplain,
    List.dropWhile_append_of_pos hplain]
  simp [hmark]

/-- **The exponent is read back.** -/
theorem readExponent_toDigits (exponent : ℤ) :
    readExponent ((if exponent < 0 then '-' else '+') :: Nat.toDigits 10 exponent.natAbs) =
      some exponent := by
  split_ifs with hneg
  · rw [readExponent, readDigits_toDigits, Option.map_some, Int.ofNat_natAbs_of_nonpos hneg.le,
      neg_neg]
  · rw [readExponent, readDigits_toDigits, Option.map_some, Int.natAbs_of_nonneg (not_lt.1 hneg)]

end PositionalText
