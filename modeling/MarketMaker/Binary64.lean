/-
**Numbers rounded to double precision.**

A double-precision number has 53 significant binary digits.  The result of an operation is the exact
one rounded to the nearest such number, and to the one with an even last digit where two are as
near.  The values are rational numbers here, and the range of exponents is not bounded: nothing
overflows or falls below the smallest number.

* `Binary64.roundEven` — the nearest whole number, the even one of two;
* `Binary64.nearest` — the nearest number with 53 significant digits;
* `Binary64.nearest_mono` — **rounding keeps the order**;
* `Binary64.abs_nearest_sub_le` — how far a rounded number may be off;
* `Binary64.nearest_natCast` — a small whole number is not rounded;
* `Binary64.exists_nearest`, `Binary64.nearest_add` — a rounded number, and that adding less than
  half a unit of its last digit is lost.
-/

import Mathlib.Algebra.Order.Field.Rat
import Mathlib.Data.Int.Log
import Mathlib.Data.Rat.Floor
import Mathlib.Tactic.Linarith
import Mathlib.Tactic.NormNum

set_option relaxedAutoImplicit false
set_option autoImplicit false

namespace Binary64

/-! ### The nearest whole number -/

/-- The nearest whole number, the even one of two as near. -/
def roundEven (x : ℚ) : ℤ :=
  if x - ⌊x⌋ < 1 / 2 ∨ x - ⌊x⌋ = 1 / 2 ∧ ⌊x⌋ % 2 = 0 then ⌊x⌋ else ⌊x⌋ + 1

theorem floor_le_roundEven (x : ℚ) : ⌊x⌋ ≤ roundEven x := by
  unfold roundEven
  split_ifs <;> omega

theorem roundEven_le_floor_add_one (x : ℚ) : roundEven x ≤ ⌊x⌋ + 1 := by
  unfold roundEven
  split_ifs <;> omega

/-- Less than a half above a whole number is dropped. -/
theorem roundEven_add {n : ℤ} {f : ℚ} (hnonneg : 0 ≤ f) (hlt : f < 1 / 2) :
    roundEven (n + f) = n := by
  have hfloor : ⌊(n : ℚ) + f⌋ = n := by
    rw [Int.floor_eq_iff]
    constructor <;> linarith
  rw [roundEven, hfloor, if_pos (Or.inl (by linarith))]

theorem roundEven_intCast (n : ℤ) : roundEven n = n := by
  have h := roundEven_add (n := n) le_rfl (by norm_num)
  rwa [add_zero] at h

/-- Rounding to whole numbers keeps the order. -/
theorem roundEven_mono {x y : ℚ} (hxy : x ≤ y) : roundEven x ≤ roundEven y := by
  rcases (Int.floor_mono hxy).lt_or_eq with hlt | heq
  · have hx := roundEven_le_floor_add_one x
    have hy := floor_le_roundEven y
    omega
  · unfold roundEven
    rw [heq]
    split_ifs with hx hy hy
    · exact le_rfl
    · omega
    · -- the larger part is rounded down, so the smaller is
      exfalso
      apply hx
      rcases hy with hy | ⟨hy, heven⟩
      · exact Or.inl (by linarith)
      · rcases hxy.lt_or_eq with hlt | rfl
        · exact Or.inl (by linarith)
        · exact Or.inr ⟨hy, heven⟩
    · exact le_rfl

theorem roundEven_neg (x : ℚ) : roundEven (-x) = -roundEven x := by
  have hle := Int.floor_le x
  have hlt := Int.lt_floor_add_one x
  rcases hle.eq_or_lt with heq | hmore
  · rw [← heq, roundEven_intCast, ← Int.cast_neg, roundEven_intCast]
  · -- the part above the floor is taken from one
    have hfloor : ⌊-x⌋ = -⌊x⌋ - 1 := by
      rw [Int.floor_eq_iff]
      push_cast
      constructor <;> linarith
    unfold roundEven
    rw [hfloor]
    push_cast
    split_ifs with hneg hpos hpos
    · exfalso
      rcases hneg with hneg | ⟨hneg, heven⟩
      · rcases hpos with hpos | ⟨hpos, -⟩ <;> linarith
      · rcases hpos with hpos | ⟨-, heven'⟩
        · linarith
        · omega
    · omega
    · omega
    · exfalso
      rcases lt_trichotomy (x - ⌊x⌋) (1 / 2) with hless | hhalf | hmore'
      · exact hpos (Or.inl hless)
      · rcases Int.emod_two_eq_zero_or_one ⌊x⌋ with heven | hodd
        · exact hpos (Or.inr ⟨hhalf, heven⟩)
        · exact hneg (Or.inr ⟨by linarith, by omega⟩)
      · exact hneg (Or.inl (by linarith))

/-! ### The nearest number with 53 digits -/

/-- The place value of the last of 53 significant digits. -/
def ulp (x : ℚ) : ℚ := 2 ^ (Int.log 2 |x| - 52)

/-- The nearest number with 53 significant digits. -/
def nearest (x : ℚ) : ℚ := roundEven (x / ulp x) * ulp x

theorem ulp_pos (x : ℚ) : 0 < ulp x := zpow_pos (by norm_num) _

theorem nearest_zero : nearest 0 = 0 := by
  have hzero : roundEven (0 / ulp 0) = 0 := by
    rw [zero_div]
    exact roundEven_intCast 0
  rw [nearest, hzero, Int.cast_zero, zero_mul]

theorem nearest_neg (x : ℚ) : nearest (-x) = -nearest x := by
  have hulp : ulp (-x) = ulp x := by rw [ulp, ulp, abs_neg]
  rw [nearest, nearest, hulp, neg_div, roundEven_neg, Int.cast_neg, neg_mul]

/-- In units of the last digit. -/
theorem pow_mul_ulp {x : ℚ} (hx : 0 < x) (n : ℕ) :
    (2 : ℚ) ^ n * ulp x = 2 ^ (Int.log 2 x + (n - 52)) := by
  rw [ulp, abs_of_pos hx, ← zpow_natCast, ← zpow_add₀ (by norm_num)]
  congr 1
  omega

/-- A positive number in units of its last digit has 53 digits. -/
theorem div_ulp_bounds {x : ℚ} (hx : 0 < x) : 2 ^ 52 ≤ x / ulp x ∧ x / ulp x < 2 ^ 53 := by
  have hlow := Int.zpow_log_le_self (b := 2) (by norm_num) hx
  have hhigh := Int.lt_zpow_succ_log_self (b := 2) (by norm_num) x
  rw [le_div_iff₀ (ulp_pos x), div_lt_iff₀ (ulp_pos x), pow_mul_ulp hx, pow_mul_ulp hx]
  norm_num at hlow hhigh ⊢
  exact ⟨hlow, hhigh⟩

/-- **A rounded positive number** has 53 digits, or is the power of two that follows them. -/
theorem exists_nearest {x : ℚ} (hx : 0 < x) :
    ∃ k : ℤ, 2 ^ 52 ≤ k ∧ k ≤ 2 ^ 53 ∧ nearest x = k * ulp x := by
  obtain ⟨hlow, hhigh⟩ := div_ulp_bounds hx
  refine ⟨roundEven (x / ulp x), ?_, ?_, rfl⟩
  · rw [← roundEven_intCast (2 ^ 52)]
    exact roundEven_mono (by exact_mod_cast hlow)
  · rw [← roundEven_intCast (2 ^ 53)]
    exact roundEven_mono (by exact_mod_cast hhigh.le)

theorem nearest_pos {x : ℚ} (hx : 0 < x) : 0 < nearest x := by
  obtain ⟨k, hk, -, heq⟩ := exists_nearest hx
  have hpos : (0 : ℚ) < k := by exact_mod_cast lt_of_lt_of_le (by norm_num) hk
  rw [heq]
  exact mul_pos hpos (ulp_pos x)

theorem nearest_le_of_pos {x y : ℚ} (hx : 0 < x) (hxy : x ≤ y) : nearest x ≤ nearest y := by
  have hy : 0 < y := hx.trans_le hxy
  rcases (Int.log_mono_right (b := 2) hx hxy).lt_or_eq with hlt | heq
  · -- a power of two lies between them
    obtain ⟨k, -, hk, hkx⟩ := exists_nearest hx
    obtain ⟨l, hl, -, hly⟩ := exists_nearest hy
    calc nearest x = k * ulp x := hkx
      _ ≤ 2 ^ 53 * ulp x := mul_le_mul_of_nonneg_right (by exact_mod_cast hk) (ulp_pos x).le
      _ = 2 ^ (Int.log 2 x + 1) := by rw [pow_mul_ulp hx]; norm_num
      _ ≤ 2 ^ Int.log 2 y := zpow_le_zpow_right₀ (by norm_num) hlt
      _ = 2 ^ 52 * ulp y := by rw [pow_mul_ulp hy]; norm_num
      _ ≤ l * ulp y := mul_le_mul_of_nonneg_right (by exact_mod_cast hl) (ulp_pos y).le
      _ = nearest y := hly.symm
  · have hulp : ulp x = ulp y := by rw [ulp, ulp, abs_of_pos hx, abs_of_pos hy, heq]
    have hround : roundEven (x / ulp y) ≤ roundEven (y / ulp y) :=
      roundEven_mono (div_le_div_of_nonneg_right hxy (ulp_pos y).le)
    rw [nearest, nearest, hulp]
    exact mul_le_mul_of_nonneg_right (by exact_mod_cast hround) (ulp_pos y).le

theorem nearest_nonneg {x : ℚ} (hx : 0 ≤ x) : 0 ≤ nearest x := by
  rcases hx.eq_or_lt with rfl | hpos
  · rw [nearest_zero]
  · exact (nearest_pos hpos).le

/-- **Rounding keeps the order.** -/
theorem nearest_mono : Monotone nearest := by
  intro x y hxy
  rcases lt_or_ge 0 x with hx | hx
  · exact nearest_le_of_pos hx hxy
  · have hneg : nearest x ≤ 0 := by
      have h := nearest_nonneg (neg_nonneg.2 hx)
      rw [nearest_neg] at h
      linarith
    rcases lt_or_ge y 0 with hy | hy
    · have h := nearest_le_of_pos (neg_pos.2 hy) (neg_le_neg hxy)
      rw [nearest_neg, nearest_neg] at h
      linarith
    · exact hneg.trans (nearest_nonneg hy)

/-! ### The error -/

theorem abs_roundEven_sub_le (x : ℚ) : |roundEven x - x| ≤ 1 / 2 := by
  have hle := Int.floor_le x
  have hlt := Int.lt_floor_add_one x
  rw [abs_le]
  unfold roundEven
  split_ifs with h
  · have hpart : x - ⌊x⌋ ≤ 1 / 2 := h.elim le_of_lt fun h => h.1.le
    constructor <;> linarith
  · have hpart : 1 / 2 ≤ x - ⌊x⌋ := not_lt.1 fun hless => h (Or.inl hless)
    push_cast
    constructor <;> linarith

/-- **The error is half a unit of the last digit at most**, and that of a number below a power of
two is known from the power. -/
theorem abs_nearest_sub_le {x : ℚ} {k : ℤ} (hx : |x| < 2 ^ k) :
    |nearest x - x| ≤ 2 ^ (k - 54) := by
  rcases eq_or_ne x 0 with rfl | hne
  · rw [nearest_zero, sub_zero, abs_zero]
    exact (zpow_pos (by norm_num) _).le
  · have hunits : nearest x - x = (roundEven (x / ulp x) - x / ulp x) * ulp x := by
      rw [nearest, sub_mul, div_mul_cancel₀ _ (ulp_pos x).ne']
    have hlog : Int.log 2 |x| < k := by
      rw [← Int.lt_zpow_iff_log_lt (by norm_num) (abs_pos.2 hne)]
      exact_mod_cast hx
    calc |nearest x - x| = |roundEven (x / ulp x) - x / ulp x| * ulp x := by
          rw [hunits, abs_mul, abs_of_pos (ulp_pos x)]
      _ ≤ 1 / 2 * ulp x := mul_le_mul_of_nonneg_right (abs_roundEven_sub_le _) (ulp_pos x).le
      _ ≤ 1 / 2 * 2 ^ (k - 1 - 52) := by
          refine mul_le_mul_of_nonneg_left ?_ (by norm_num)
          exact zpow_le_zpow_right₀ (by norm_num) (by omega)
      _ = 2 ^ (k - 54) := by
          rw [show k - 1 - 52 = k - 54 + 1 by omega, zpow_add₀ (by norm_num), zpow_one]
          ring

/-! ### What is lost -/

/-- Less than half a unit above a number of 53 digits is lost. -/
theorem nearest_add_of_lt {k e : ℤ} (hlow : 2 ^ 52 ≤ k) (hhigh : k < 2 ^ 53) {f : ℚ}
    (hnonneg : 0 ≤ f) (hlt : f < 2 ^ e / 2) : nearest (k * 2 ^ e + f) = k * 2 ^ e := by
  have hunit : (0 : ℚ) < 2 ^ e := zpow_pos (by norm_num) _
  have hpow : ∀ n : ℕ, (2 : ℚ) ^ (e + n) = 2 ^ n * 2 ^ e := fun n => by
    rw [zpow_add₀ (by norm_num), zpow_natCast, mul_comm]
  have hk : (2 : ℚ) ^ 52 ≤ k := by exact_mod_cast hlow
  have hk' : (k : ℚ) + 1 ≤ 2 ^ 53 := by exact_mod_cast hhigh
  have hpos : 0 < k * 2 ^ e + f :=
    add_pos_of_pos_of_nonneg (mul_pos (lt_of_lt_of_le (by norm_num) hk) hunit) hnonneg
  -- the digits in front of the unit are 53
  have hlog : Int.log 2 (k * 2 ^ e + f) = e + 52 := by
    refine le_antisymm ?_ ?_
    · rw [← Int.lt_add_one_iff, ← Int.lt_zpow_iff_log_lt (by norm_num) hpos]
      calc k * 2 ^ e + f < k * 2 ^ e + 2 ^ e := by linarith
        _ = (k + 1) * 2 ^ e := by ring
        _ ≤ 2 ^ 53 * 2 ^ e := mul_le_mul_of_nonneg_right hk' hunit.le
        _ = ((2 : ℕ) : ℚ) ^ (e + 52 + 1) := by
            rw [Nat.cast_ofNat, add_assoc]
            exact (hpow 53).symm
    · rw [← Int.zpow_le_iff_le_log (by norm_num) hpos]
      calc ((2 : ℕ) : ℚ) ^ (e + 52) = 2 ^ 52 * 2 ^ e := by
            rw [Nat.cast_ofNat]
            exact hpow 52
        _ ≤ k * 2 ^ e := mul_le_mul_of_nonneg_right hk hunit.le
        _ ≤ k * 2 ^ e + f := le_add_of_nonneg_right hnonneg
  have hulp : ulp (k * 2 ^ e + f) = 2 ^ e := by
    rw [ulp, abs_of_pos hpos, hlog, add_sub_cancel_right]
  have hquotient : (k * 2 ^ e + f) / 2 ^ e = k + f / 2 ^ e := by
    rw [add_div, mul_div_cancel_right₀ _ hunit.ne']
  have hround : roundEven (k + f / 2 ^ e) = k := by
    refine roundEven_add (div_nonneg hnonneg hunit.le) ?_
    rw [div_lt_iff₀ hunit]
    linarith
  rw [nearest, hulp, hquotient, hround]

/-- **Less than half a unit above a rounded number is lost.** -/
theorem nearest_add {x f : ℚ} (hx : 0 < x) (hnonneg : 0 ≤ f) (hlt : f < ulp x / 2) :
    nearest (nearest x + f) = nearest x := by
  obtain ⟨k, hlow, hhigh, heq⟩ := exists_nearest hx
  rcases hhigh.lt_or_eq with hless | rfl
  · rw [heq]
    exact nearest_add_of_lt hlow hless hnonneg hlt
  · -- the power of two that follows, as a number of 53 digits
    have hpower : ((2 ^ 53 : ℤ) : ℚ) * ulp x =
        ((2 ^ 52 : ℤ) : ℚ) * 2 ^ (Int.log 2 |x| - 52 + 1) := by
      rw [ulp, zpow_add₀ (by norm_num), zpow_one]
      push_cast
      ring
    have hhalf : f < 2 ^ (Int.log 2 |x| - 52 + 1) / 2 := by
      have hpos := ulp_pos x
      rw [ulp] at hlt hpos
      rw [zpow_add₀ (by norm_num), zpow_one]
      linarith
    rw [heq, hpower]
    exact nearest_add_of_lt le_rfl (by norm_num) hnonneg hhalf

/-- **A small whole number is not rounded.** -/
theorem nearest_natCast {n : ℕ} (hn : n < 2 ^ 53) : nearest n = n := by
  rcases Nat.eq_zero_or_pos n with rfl | hpos
  · rw [Nat.cast_zero, nearest_zero]
  · have hlog : Nat.log 2 n ≤ 52 :=
      Nat.lt_succ_iff.1 (Nat.log_lt_of_lt_pow hpos.ne' hn)
    have hulp : ulp n = (2 ^ (52 - Nat.log 2 n) : ℚ)⁻¹ := by
      rw [ulp, abs_of_nonneg (Nat.cast_nonneg n), Int.log_natCast, ← zpow_natCast, ← zpow_neg]
      congr 1
      omega
    have hunits : (n : ℚ) / ulp n = ((n * 2 ^ (52 - Nat.log 2 n) : ℤ) : ℚ) := by
      rw [hulp, div_inv_eq_mul]
      push_cast
      rfl
    rw [nearest, hunits, roundEven_intCast, ← hunits, div_mul_cancel₀ _ (ulp_pos _).ne']

/-- Rounding again changes nothing. -/
theorem nearest_nearest {x : ℚ} (hx : 0 ≤ x) : nearest (nearest x) = nearest x := by
  rcases hx.eq_or_lt with rfl | hpos
  · rw [nearest_zero, nearest_zero]
  · have h := nearest_add hpos le_rfl (half_pos (ulp_pos x))
    rwa [add_zero] at h

end Binary64
