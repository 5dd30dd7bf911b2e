/-
**The conversion of numbers through text.**

A number of the exchange is converted by displaying it and reading the text.  The one crate writes
an exponent in place of too many zeros, and the other reads plain text and text with an exponent;
but it gives up on the digits of a mantissa as soon as a coefficient cannot hold more of them, and
does not look at what follows.  So an exponent behind too many digits is lost: `10 ^ 29` with 37
decimal places, which is a hundred-millionth, is displayed as a one, a point, 29 zeros and `E-8`,
and read as one.

What the crates do is assumed by name, of texts and of the numbers they write.

* `Representable` — the numbers of the fixed-width decimals;
* `TextConventions` — what is assumed of the two crates;
* `BigDecimal.KeepsExponent` — the numbers whose exponent, if they are displayed with one, is read;
* `TextConventions.exists_of_representable` — **a representable number never panics**;
* `conversion_agrees_iff` — **it is converted to a number equal to it if and only if it is at least
  a millionth or its coefficient is one of a decimal**.
-/

import MarketMaker.Decimal
import Mathlib.Algebra.Order.Ring.Abs

set_option relaxedAutoImplicit false
set_option autoImplicit false

namespace MarketMaker

/-! ### Representable numbers -/

/-- The numbers of the fixed-width decimals: a coefficient of 96 bits at a scale of at most 28. -/
def Representable (v : ℚ) : Prop :=
  ∃ (c : ℤ) (k : ℕ), |c| < coefficientBound ∧ k ≤ 28 ∧ v = c * (10 : ℚ) ^ (-(k : ℤ))

theorem BigDecimal.representable {d : BigDecimal}
    (hcoefficient : d.intVal.natAbs < coefficientBound) (hnonneg : 0 ≤ d.scale)
    (hscale : d.scale ≤ 28) : Representable d.val := by
  refine ⟨d.intVal, d.scale.toNat, ?_, by omega, ?_⟩
  · rw [Int.abs_eq_natAbs]
    exact_mod_cast hcoefficient
  · rw [val, Int.toNat_of_nonneg hnonneg]

/-- Decimal places make a number no larger. -/
theorem abs_mul_zpow_neg_lt {c : ℤ} {bound : ℕ} (hc : |c| < bound) (k : ℕ) :
    |(c : ℚ) * 10 ^ (-(k : ℤ))| < bound := by
  have hpow : (10 : ℚ) ^ (-(k : ℤ)) ≤ 1 := zpow_le_one_of_nonpos₀ (by norm_num) (by omega)
  have hpos : (0 : ℚ) < 10 ^ (-(k : ℤ)) := zpow_pos (by norm_num) _
  calc |(c : ℚ) * 10 ^ (-(k : ℤ))| = |(c : ℚ)| * 10 ^ (-(k : ℤ)) := by
        rw [abs_mul, abs_of_pos hpos]
    _ ≤ |(c : ℚ)| * 1 := mul_le_mul_of_nonneg_left hpow (abs_nonneg _)
    _ < bound := by
        rw [mul_one, ← Int.cast_abs]
        exact_mod_cast hc

/-- A representable number is less than the bound of the coefficients. -/
theorem Representable.abs_lt {v : ℚ} (h : Representable v) : |v| < coefficientBound := by
  obtain ⟨c, k, hc, -, rfl⟩ := h
  exact abs_mul_zpow_neg_lt hc k

/-- A representable number that is not zero has a digit in the first 28 places. -/
theorem Representable.le_abs {v : ℚ} (h : Representable v) (hne : v ≠ 0) :
    (10 : ℚ) ^ (-28 : ℤ) ≤ |v| := by
  obtain ⟨c, k, -, hk, rfl⟩ := h
  have hpos : (0 : ℚ) < 10 ^ (-(k : ℤ)) := zpow_pos (by norm_num) _
  have hc : c ≠ 0 := by
    rintro rfl
    exact hne (by simp)
  have hone : (1 : ℚ) ≤ |(c : ℚ)| := by
    rw [← Int.cast_abs]
    exact_mod_cast Int.one_le_abs hc
  calc (10 : ℚ) ^ (-28 : ℤ) ≤ 10 ^ (-(k : ℤ)) := zpow_le_zpow_right₀ (by norm_num) (by omega)
    _ = 1 * 10 ^ (-(k : ℤ)) := (one_mul _).symm
    _ ≤ |(c : ℚ)| * 10 ^ (-(k : ℤ)) := mul_le_mul_of_nonneg_right hone hpos.le
    _ = |(c : ℚ) * 10 ^ (-(k : ℤ))| := by rw [abs_mul, abs_of_pos hpos]

/-- Moving the point to the right keeps a number below ten representable. -/
theorem Representable.shift {v : ℚ} (h : Representable v) {n : ℕ}
    (hlt : |v * (10 : ℚ) ^ (n : ℤ)| < 10) : Representable (v * 10 ^ (n : ℤ)) := by
  obtain ⟨c, k, hc, hk, rfl⟩ := h
  have hshift : (c : ℚ) * 10 ^ (-(k : ℤ)) * 10 ^ (n : ℤ) = c * 10 ^ ((n : ℤ) - k) := by
    rw [mul_assoc, ← zpow_add₀ (by norm_num), neg_add_eq_sub]
  rw [hshift] at hlt ⊢
  rcases Nat.lt_or_ge k n with hmore | hle
  · -- the number is zero, or it would be ten or more
    have hzero : c = 0 := by
      by_contra hne
      have hone : (1 : ℚ) ≤ |(c : ℚ)| := by
        rw [← Int.cast_abs]
        exact_mod_cast Int.one_le_abs hne
      have hpow : (10 : ℚ) ^ (1 : ℤ) ≤ 10 ^ ((n : ℤ) - k) :=
        zpow_le_zpow_right₀ (by norm_num) (by omega)
      rw [zpow_one] at hpow
      rw [abs_mul, abs_of_pos (zpow_pos (by norm_num : (0 : ℚ) < 10) _)] at hlt
      nlinarith
    exact ⟨0, 0, by norm_num [coefficientBound], by omega, by simp [hzero]⟩
  · refine ⟨c, k - n, hc, by omega, ?_⟩
    congr 2
    omega

/-! ### The two crates -/

/-- What is assumed of the two crates, where `num` is the number a decimal stands for. -/
structure TextConventions {D : Type} [DecimalText D] (num : D → ℚ) : Prop where
  displays : ∀ d : BigDecimal, DecimalText.toString D d = d.display
  reads : ∀ s v, PositionalText.read s = some v → Representable v →
    ∃ r : D, DecimalText.fromStr s = some r ∧ num r = v
  /-- An exponent moves the point of the number in front of it, if its coefficient is one of a
  decimal. -/
  reads_exponent : ∀ mark, PositionalText.isMark mark = true → ∀ (c : ℤ) (k : ℕ) (e : ℤ),
    c.natAbs < coefficientBound → k ≤ 28 → e.natAbs ≤ 28 →
      Representable (c * (10 : ℚ) ^ (e - k)) →
        ∃ r : D, DecimalText.fromStr (PositionalText.withExponent mark c k e) = some r ∧
          num r = c * (10 : ℚ) ^ (e - k)
  /-- Behind decimal places that a coefficient cannot hold, nothing is looked at. -/
  drops_exponent : ∀ mark, PositionalText.isMark mark = true → ∀ (c : ℤ) (k : ℕ) (e : ℤ),
    coefficientBound ≤ c.natAbs → 0 < k →
      (DecimalText.fromStr (PositionalText.withExponent mark c k e) : Option D) =
        DecimalText.fromStr (PositionalText.text c k)

/-! ### The exponent of a number -/

/-- The size of a number, by its digits. -/
theorem BigDecimal.abs_val (d : BigDecimal) :
    |d.val| = (d.intVal.natAbs : ℚ) * 10 ^ (-d.scale) := by
  rw [val, abs_mul, abs_of_pos (zpow_pos (by norm_num : (0 : ℚ) < 10) _), Nat.cast_natAbs,
    Int.cast_abs]

/-- **A power of ten is at most a number if its exponent is.** -/
theorem BigDecimal.zpow_le_abs_val_iff {d : BigDecimal} (hne : d.intVal ≠ 0) (n : ℤ) :
    (10 : ℚ) ^ n ≤ |d.val| ↔ n ≤ d.exponent := by
  have hunit : (0 : ℚ) < 10 ^ (-d.scale) := zpow_pos (by norm_num) _
  have hpos : 0 < d.digits := Nat.length_toDigits_pos
  rw [d.abs_val]
  constructor
  · intro hle
    have hcoefficient : (d.intVal.natAbs : ℚ) < 10 ^ (d.digits : ℤ) := by
      rw [zpow_natCast]
      exact_mod_cast PositionalText.lt_pow_length d.intVal.natAbs
    have hlt : (10 : ℚ) ^ n < 10 ^ ((d.digits : ℤ) - d.scale) :=
      calc (10 : ℚ) ^ n ≤ d.intVal.natAbs * 10 ^ (-d.scale) := hle
        _ < 10 ^ (d.digits : ℤ) * 10 ^ (-d.scale) := mul_lt_mul_of_pos_right hcoefficient hunit
        _ = 10 ^ ((d.digits : ℤ) - d.scale) := by rw [← zpow_add₀ (by norm_num), sub_eq_add_neg]
    have hexp : n < (d.digits : ℤ) - d.scale := (zpow_lt_zpow_iff_right₀ (by norm_num)).1 hlt
    unfold exponent
    omega
  · intro hle
    have hcoefficient : (10 : ℚ) ^ ((d.digits - 1 : ℕ) : ℤ) ≤ d.intVal.natAbs := by
      rw [zpow_natCast]
      exact_mod_cast PositionalText.pow_length_le (Int.natAbs_ne_zero.2 hne)
    calc (10 : ℚ) ^ n ≤ 10 ^ d.exponent := zpow_le_zpow_right₀ (by norm_num) hle
      _ = 10 ^ ((d.digits - 1 : ℕ) : ℤ) * 10 ^ (-d.scale) := by
          rw [← zpow_add₀ (by norm_num), exponent, sub_eq_add_neg]
      _ ≤ d.intVal.natAbs * 10 ^ (-d.scale) :=
          mul_le_mul_of_nonneg_right hcoefficient hunit.le

/-- **More than five zeros stand in front of the digits of numbers below a millionth.** -/
theorem BigDecimal.leadingZeros_iff {d : BigDecimal} (hne : d.intVal ≠ 0) :
    5 < d.leadingZeros ↔ |d.val| < (10 : ℚ) ^ (-6 : ℤ) := by
  have hpos : 0 < d.digits := Nat.length_toDigits_pos
  rw [← not_le, ← not_le, not_iff_not, zpow_le_abs_val_iff hne, leadingZeros, exponent]
  omega

/-- The exponent of a representable number has a value of at most 28. -/
theorem BigDecimal.natAbs_exponent_le {d : BigDecimal} (hne : d.intVal ≠ 0)
    (hd : Representable d.val) : d.exponent.natAbs ≤ 28 := by
  have hval : d.val ≠ 0 := by
    rwa [ne_eq, ← d.isZero_iff, isZero, decide_eq_true_eq]
  have hlow : -28 ≤ d.exponent := (zpow_le_abs_val_iff hne _).1 (hd.le_abs hval)
  have hhigh : ¬ 29 ≤ d.exponent := by
    intro hle
    have hmore := (zpow_le_abs_val_iff hne _).2 hle
    have hless := hd.abs_lt
    norm_num [coefficientBound] at hmore hless
    linarith
  omega

/-! ### What a number is converted to -/

variable {D : Type} [DecimalText D] {num : D → ℚ}

theorem BigDecimal.display_of_leadingZeros {d : BigDecimal} (hne : d.intVal ≠ 0)
    (h : 5 < d.leadingZeros) :
    d.display = PositionalText.withExponent 'E' d.intVal (d.digits - 1 : ℕ) d.exponent := by
  rw [display, if_neg hne, if_pos h]

/-- A number below ten with the digits of `d`. -/
def BigDecimal.mantissa (d : BigDecimal) : BigDecimal := ⟨d.intVal, (d.digits - 1 : ℕ)⟩

theorem BigDecimal.mantissa_val (d : BigDecimal) :
    d.mantissa.val = d.val * (10 : ℚ) ^ (-d.exponent) := by
  have hplaces : -((d.digits - 1 : ℕ) : ℤ) = -d.scale + -d.exponent := by
    unfold exponent
    omega
  change (d.intVal : ℚ) * 10 ^ (-((d.digits - 1 : ℕ) : ℤ)) = _
  rw [hplaces, zpow_add₀ (by norm_num), ← mul_assoc, val]

/-- It is at least one. -/
theorem BigDecimal.one_le_abs_mantissa {d : BigDecimal} (hne : d.intVal ≠ 0) :
    1 ≤ |d.mantissa.val| := by
  have hle := (zpow_le_abs_val_iff (d := d.mantissa) hne 0).2 (sub_self _).ge
  rwa [zpow_zero] at hle

/-- The point of a number below one is moved to the right, behind the first digit. -/
theorem BigDecimal.representable_mantissa {d : BigDecimal} (hd : Representable d.val)
    (hne : d.intVal ≠ 0) (hexp : d.exponent < 0) : Representable d.mantissa.val := by
  have hplaces : -d.exponent = (d.exponent.natAbs : ℤ) := by omega
  have hlt : |d.mantissa.val| < 10 := by
    by_contra hten
    rw [not_lt, ← zpow_one (10 : ℚ), zpow_le_abs_val_iff (d := d.mantissa) hne] at hten
    change 1 ≤ (d.digits - 1 : ℕ) - ((d.digits - 1 : ℕ) : ℤ) at hten
    omega
  rw [mantissa_val, hplaces] at hlt ⊢
  exact hd.shift hlt

/-- **An exponent behind digits that fit is read.** -/
theorem TextConventions.reads_display (h : TextConventions num) {d : BigDecimal}
    (hd : Representable d.val) (hne : d.intVal ≠ 0) (hzeros : 5 < d.leadingZeros)
    (hfits : d.intVal.natAbs < coefficientBound) :
    ∃ r : D, bigDecimalToDecimal d = some r ∧ num r = d.val := by
  -- 96 bits are at most 29 digits
  have hdigits : d.digits ≤ 29 := by
    refine (Nat.length_toDigits_le_iff (by omega) (by omega)).2 (hfits.trans ?_)
    norm_num [coefficientBound]
  have hshift : d.exponent - ((d.digits - 1 : ℕ) : ℤ) = -d.scale := by
    unfold BigDecimal.exponent
    omega
  have hread := h.reads_exponent 'E' rfl d.intVal (d.digits - 1) d.exponent hfits (by omega)
    (BigDecimal.natAbs_exponent_le hne hd)
  rw [hshift] at hread
  unfold bigDecimalToDecimal
  rw [h.displays, BigDecimal.display_of_leadingZeros hne hzeros]
  exact hread hd

/-- **An exponent behind more digits is lost**: the number read is the one in front of it. -/
theorem TextConventions.loses_exponent (h : TextConventions num) {d : BigDecimal}
    (hd : Representable d.val) (hne : d.intVal ≠ 0) (hzeros : 5 < d.leadingZeros)
    (hlong : coefficientBound ≤ d.intVal.natAbs) :
    ∃ r : D, bigDecimalToDecimal d = some r ∧ num r = d.mantissa.val := by
  have hexp : d.exponent < 0 := by
    unfold BigDecimal.leadingZeros at hzeros
    unfold BigDecimal.exponent
    omega
  have hplaces : 0 < d.digits - 1 := by
    have hmore : ¬ d.digits ≤ 1 := by
      rw [BigDecimal.digits, Nat.length_toDigits_le_iff (by omega) (by omega)]
      norm_num [coefficientBound] at hlong
      omega
    omega
  unfold bigDecimalToDecimal
  rw [h.displays, BigDecimal.display_of_leadingZeros hne hzeros,
    h.drops_exponent 'E' rfl _ _ _ hlong hplaces]
  exact h.reads _ _ (PositionalText.read_text _ _) (BigDecimal.representable_mantissa hd hne hexp)

/-- **Any other representable number** is converted to a number equal to it. -/
theorem TextConventions.converts_plain (h : TextConventions num) {d : BigDecimal}
    (hd : Representable d.val) (hzeros : d.intVal ≠ 0 → ¬ 5 < d.leadingZeros) :
    ∃ r : D, bigDecimalToDecimal d = some r ∧ num r = d.val := by
  unfold bigDecimalToDecimal
  rw [h.displays]
  rcases eq_or_ne d.intVal 0 with hzero | hne
  · have hval : d.val = 0 := by rw [BigDecimal.val, hzero, Int.cast_zero, zero_mul]
    rw [BigDecimal.display, if_pos hzero]
    refine h.reads _ _ ?_ hd
    rw [hval]
    rfl
  · rw [BigDecimal.display, if_neg hne, if_neg (hzeros hne)]
    split_ifs with htrailing
    · -- no decimal places: the coefficient is at most the number
      have hscale : d.scale < 0 := by
        unfold BigDecimal.trailingZeros at htrailing
        omega
      have hexp := BigDecimal.natAbs_exponent_le hne hd
      have hfits : d.intVal.natAbs < coefficientBound := by
        have hle : (d.intVal.natAbs : ℚ) ≤ |d.val| := by
          rw [d.abs_val]
          exact le_mul_of_one_le_right (Nat.cast_nonneg _)
            (one_le_zpow₀ (by norm_num) (by omega))
        exact_mod_cast hle.trans_lt hd.abs_lt
      have hsmall : (-d.scale).natAbs ≤ 28 := by
        unfold BigDecimal.exponent at hexp
        omega
      have hread := h.reads_exponent 'e' rfl d.intVal 0 (-d.scale) hfits (by omega) hsmall
      rw [Nat.cast_zero, sub_zero] at hread
      exact hread hd
    · exact h.reads _ _ (PositionalText.read_text _ _) hd

/-- A number that is displayed without an exponent or with one that is read. -/
def BigDecimal.KeepsExponent (d : BigDecimal) : Prop :=
  (10 : ℚ) ^ (-6 : ℤ) ≤ |d.val| ∨ d.intVal.natAbs < coefficientBound

/-- The exponent of any other number is lost. -/
theorem BigDecimal.leadingZeros_of_not_keepsExponent {d : BigDecimal} (h : ¬ d.KeepsExponent) :
    d.intVal ≠ 0 ∧ 5 < d.leadingZeros ∧ coefficientBound ≤ d.intVal.natAbs := by
  obtain ⟨hsmall, hlong⟩ := not_or.1 h
  have hpos : 0 < coefficientBound := by norm_num [coefficientBound]
  have hne : d.intVal ≠ 0 := Int.natAbs_pos.1 (hpos.trans_le (not_lt.1 hlong))
  exact ⟨hne, (leadingZeros_iff hne).2 (not_le.1 hsmall), not_lt.1 hlong⟩

theorem TextConventions.converts (h : TextConventions num) {d : BigDecimal}
    (hd : Representable d.val) (hkeeps : d.KeepsExponent) :
    ∃ r : D, bigDecimalToDecimal d = some r ∧ num r = d.val := by
  by_cases hzeros : d.intVal ≠ 0 ∧ 5 < d.leadingZeros
  · have hsmall := (BigDecimal.leadingZeros_iff hzeros.1).1 hzeros.2
    exact h.reads_display hd hzeros.1 hzeros.2 (hkeeps.resolve_left (not_le.2 hsmall))
  · exact h.converts_plain hd fun hne hmore => hzeros ⟨hne, hmore⟩

/-- **A representable number never panics.** -/
theorem TextConventions.exists_of_representable (h : TextConventions num) {d : BigDecimal}
    (hd : Representable d.val) : ∃ r : D, bigDecimalToDecimal d = some r := by
  by_cases hkeeps : d.KeepsExponent
  · exact (h.converts hd hkeeps).imp fun _ hr => hr.1
  · obtain ⟨hne, hzeros, hlong⟩ := BigDecimal.leadingZeros_of_not_keepsExponent hkeeps
    exact (h.loses_exponent hd hne hzeros hlong).imp fun _ hr => hr.1

/-- **What it is converted to** is equal to it if its exponent is kept, and only then: else it is
the number in front of the exponent, which is at least one. -/
theorem TextConventions.eq_val_iff (h : TextConventions num) {d : BigDecimal}
    (hd : Representable d.val) {r : D} (hr : bigDecimalToDecimal d = some r) :
    num r = d.val ↔ d.KeepsExponent := by
  constructor
  · intro heq
    by_contra hkeeps
    obtain ⟨hne, hzeros, hlong⟩ := BigDecimal.leadingZeros_of_not_keepsExponent hkeeps
    obtain ⟨r', hr', hlost⟩ := h.loses_exponent hd hne hzeros hlong
    rw [hr, Option.some.injEq] at hr'
    rw [← hr', heq] at hlost
    have hone := BigDecimal.one_le_abs_mantissa hne
    rw [← hlost] at hone
    have hsmall := (BigDecimal.leadingZeros_iff hne).1 hzeros
    norm_num at hsmall
    linarith
  · intro hkeeps
    obtain ⟨r', hr', heq⟩ := h.converts hd hkeeps
    rw [hr, Option.some.injEq] at hr'
    rw [hr', heq]

/-- **Where the conversion agrees.**  Every number that is representable is converted to a decimal
equal to it if and only if it is at least a millionth or its coefficient is one of a decimal. -/
theorem conversion_agrees_iff (h : TextConventions num) (d : BigDecimal)
    (hd : Representable d.val) :
    (∃ r : D, bigDecimalToDecimal d = some r ∧ num r = d.val) ↔
      (10 : ℚ) ^ (-6 : ℤ) ≤ |d.val| ∨ d.intVal.natAbs < coefficientBound := by
  constructor
  · rintro ⟨r, hr, heq⟩
    exact (h.eq_val_iff hd hr).1 heq
  · exact h.converts hd

/-! ### Exact decimals -/

theorem fits_of_abs_lt {v : ℚ} (h : |v| < coefficientBound) : fits v = some v := by
  refine if_pos ((Nat.div_lt_iff_lt_mul v.den_pos).2 ?_)
  have hden : (0 : ℚ) < v.den := by exact_mod_cast v.den_pos
  have hlt : (v.num.natAbs : ℚ) < coefficientBound * v.den :=
    calc (v.num.natAbs : ℚ) = |(v.num : ℚ)| := by rw [Nat.cast_natAbs, Int.cast_abs]
      _ = |v| * v.den := by rw [← Rat.mul_den_eq_num, abs_mul, abs_of_pos hden]
      _ < coefficientBound * v.den := mul_lt_mul_of_pos_right h hden
  exact_mod_cast hlt

/-- What is read in front of an exponent. -/
theorem readDecimal_withExponent {mark : Char} (hmark : PositionalText.isMark mark = true) (c : ℤ)
    (k : ℕ) (e : ℤ) :
    readDecimal (PositionalText.withExponent mark c k e) =
      if coefficientBound ≤ c.natAbs then fits (c * (10 : ℚ) ^ (-(k : ℤ)))
      else (fits (c * (10 : ℚ) ^ (-(k : ℤ)))).bind fun v =>
        if e.natAbs ≤ 28 then fits (v * 10 ^ e) else none := by
  simp only [readDecimal, PositionalText.splitExponent_withExponent hmark,
    PositionalText.ofDigitChars_text, String.ofList_toList, PositionalText.read_text,
    PositionalText.readExponent_toDigits, Option.bind_some]
  rfl

theorem readDecimal_of_read {s : String} {v : ℚ} (h : PositionalText.read s = some v) :
    readDecimal s = fits v := by
  simp only [readDecimal, PositionalText.splitExponent_of_read h, String.ofList_toList, h,
    Option.bind_some]

/-- **Exact decimals meet the assumptions.** -/
theorem readDecimal_conventions : TextConventions (D := ℚ) id where
  displays _ := rfl
  reads s v hread hv := ⟨v, by
    change readDecimal s = some v
    rw [readDecimal_of_read hread, fits_of_abs_lt hv.abs_lt], rfl⟩
  reads_exponent mark hmark c k e hfits _ he hv := by
    have hmantissa : |(c : ℚ) * 10 ^ (-(k : ℤ))| < coefficientBound := by
      refine abs_mul_zpow_neg_lt ?_ k
      rw [Int.abs_eq_natAbs]
      exact_mod_cast hfits
    have hmoved : (c : ℚ) * 10 ^ (-(k : ℤ)) * 10 ^ e = c * 10 ^ (e - k) := by
      rw [mul_assoc, ← zpow_add₀ (by norm_num), neg_add_eq_sub]
    refine ⟨c * (10 : ℚ) ^ (e - k), ?_, rfl⟩
    change readDecimal _ = _
    rw [readDecimal_withExponent hmark, if_neg (not_le.2 hfits), fits_of_abs_lt hmantissa,
      Option.bind_some, if_pos he, hmoved, fits_of_abs_lt hv.abs_lt]
  drops_exponent mark hmark c k e hlong _ := by
    change readDecimal _ = readDecimal _
    rw [readDecimal_withExponent hmark, if_pos hlong,
      readDecimal_of_read (PositionalText.read_text _ _)]

/-- A price of a hundred-millionth with 37 decimal places, which is converted to one. -/
theorem tiny_price_becomes_one :
    TextConventions (D := ℚ) id ∧ Representable (BigDecimal.val ⟨10 ^ 29, 37⟩) ∧
      BigDecimal.val ⟨10 ^ 29, 37⟩ = 1 / 10 ^ 8 ∧
      (bigDecimalToDecimal ⟨10 ^ 29, 37⟩ : Option ℚ) = some 1 := by
  refine ⟨readDecimal_conventions, ⟨1, 8, ?_, by omega, ?_⟩, ?_, by decide +kernel⟩
  · norm_num [coefficientBound]
  · norm_num [BigDecimal.val]
  · norm_num [BigDecimal.val]

/-- The same price with eight decimal places. -/
theorem conversion_agrees_iff_sample :
    Representable (BigDecimal.val ⟨1, 8⟩) ∧
      ∃ r : ℚ, bigDecimalToDecimal ⟨1, 8⟩ = some r ∧ r = BigDecimal.val ⟨1, 8⟩ := by
  have hd : Representable (BigDecimal.val ⟨1, 8⟩) :=
    BigDecimal.representable (by norm_num [coefficientBound]) (by decide) (by decide)
  exact ⟨hd, (conversion_agrees_iff readDecimal_conventions ⟨1, 8⟩ hd).2
    (Or.inr (by norm_num [coefficientBound]))⟩

end MarketMaker
