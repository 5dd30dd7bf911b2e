/-
**Readings of the clock as scores.**

The Redis buffer turns a reading of the clock into a double-precision number of seconds, and takes
the lower bound of a query as the difference of two such numbers.  Both are rounded: at present-day
readings two neighbouring numbers are about a quarter of a microsecond apart.  Readings in between
have one score, and a value may be on the wrong side of a lower bound by as much as the roundings
make up together.

* `asSecsF64`, `minScore` — the code;
* `asSecsF64_mono`, `minScore_mono` — **the roundings keep the order of the readings**;
* `minScore_lt_of_live`, `lt_minScore_of_expired` — **a microsecond is told apart**, for readings
  below `2 ^ 31` seconds.
-/

import MarketMaker.Binary64

set_option relaxedAutoImplicit false
set_option autoImplicit false

namespace MarketMaker

open Binary64

/-- `as_secs_f64` of a number of nanoseconds: the seconds and the part of a second, each converted,
are added. -/
def asSecsF64 (nanos : ℕ) : ℚ :=
  nearest (nearest (nanos / 10 ^ 9 : ℕ) + nearest ((nanos % 10 ^ 9 : ℕ) / 10 ^ 9))

/-- The lower bound of a query at the reading `now`: the difference of two numbers of seconds. -/
def minScore (ttl now : ℕ) : ℚ := nearest (asSecsF64 now - asSecsF64 ttl)

/-! ### The order of the readings -/

/-- A part of a second is less than one after rounding. -/
theorem nearest_fraction_lt (n : ℕ) : nearest ((n % 10 ^ 9 : ℕ) / 10 ^ 9) < 1 := by
  have hle : ((n % 10 ^ 9 : ℕ) : ℚ) / 10 ^ 9 ≤ 999999999 / 10 ^ 9 := by
    refine div_le_div_of_nonneg_right ?_ (by norm_num)
    have hlt : n % 10 ^ 9 < 10 ^ 9 := Nat.mod_lt _ (by norm_num)
    exact_mod_cast Nat.le_of_lt_succ hlt
  refine (nearest_mono hle).trans_lt ?_
  decide +kernel

theorem nearest_fraction_nonneg (n : ℕ) : 0 ≤ nearest ((n % 10 ^ 9 : ℕ) / 10 ^ 9) :=
  nearest_nonneg (by positivity)

/-- **A later second has no smaller number**, whatever the parts of the seconds are. -/
theorem nearest_second_le {s t : ℕ} (hlt : s < t) {f g : ℚ} (hf : 0 ≤ f) (hf' : f < 1)
    (hg : 0 ≤ g) : nearest (nearest s + f) ≤ nearest (nearest t + g) := by
  have hnext : nearest t ≤ nearest (nearest t + g) := by
    calc nearest t = nearest (nearest t) := (nearest_nearest (Nat.cast_nonneg t)).symm
      _ ≤ nearest (nearest t + g) := nearest_mono (le_add_of_nonneg_right hg)
  refine le_trans ?_ hnext
  rcases Nat.lt_or_ge s (2 ^ 53) with hsmall | hlarge
  · refine nearest_mono ?_
    rw [nearest_natCast hsmall]
    have hsucc : (s : ℚ) + 1 ≤ t := by exact_mod_cast hlt
    linarith
  · -- a part of a second is lost
    have hpos : (0 : ℚ) < s := by exact_mod_cast lt_of_lt_of_le (by norm_num) hlarge
    have hlog : 53 ≤ Int.log 2 (s : ℚ) := by
      rw [← Int.zpow_le_iff_le_log (by norm_num) hpos]
      exact_mod_cast hlarge
    have hunit : (2 : ℚ) ≤ ulp s := by
      rw [ulp, abs_of_pos hpos]
      calc (2 : ℚ) = 2 ^ (1 : ℤ) := (zpow_one 2).symm
        _ ≤ 2 ^ (Int.log 2 (s : ℚ) - 52) := zpow_le_zpow_right₀ (by norm_num) (by omega)
    rw [nearest_add hpos hf (by linarith)]
    exact nearest_mono (by exact_mod_cast hlt.le)

/-- **A later reading has no smaller score.** -/
theorem asSecsF64_mono : Monotone asSecsF64 := by
  intro m n hmn
  rcases (Nat.div_le_div_right (c := 10 ^ 9) hmn).lt_or_eq with hlt | heq
  · exact nearest_second_le hlt (nearest_fraction_nonneg m) (nearest_fraction_lt m)
      (nearest_fraction_nonneg n)
  · have hrest : m % 10 ^ 9 ≤ n % 10 ^ 9 := by omega
    unfold asSecsF64
    rw [heq]
    refine nearest_mono (add_le_add_right (nearest_mono ?_) _)
    exact div_le_div_of_nonneg_right (by exact_mod_cast hrest) (by norm_num)

/-- A later reading has no smaller lower bound. -/
theorem minScore_mono (ttl : ℕ) : Monotone (minScore ttl) := fun _ _ hmn =>
  nearest_mono (sub_le_sub_right (asSecsF64_mono hmn) _)

/-! ### How far the scores are off -/

/-- A score is off by an eighth of a microsecond at most. -/
theorem abs_asSecsF64_sub_le {n : ℕ} (hn : n < 2 ^ 31 * 10 ^ 9) :
    |asSecsF64 n - n / 10 ^ 9| ≤ 1 / 8000000 := by
  have hsecond : n / 10 ^ 9 < 2 ^ 31 := by omega
  have hexact : nearest (n / 10 ^ 9 : ℕ) = (n / 10 ^ 9 : ℕ) :=
    nearest_natCast (hsecond.trans (by norm_num))
  have hfraction_lt := nearest_fraction_lt n
  have hfraction_nonneg := nearest_fraction_nonneg n
  have hsplit : (n : ℚ) / 10 ^ 9 = (n / 10 ^ 9 : ℕ) + (n % 10 ^ 9 : ℕ) / 10 ^ 9 := by
    have hdigits : ((n / 10 ^ 9 : ℕ) : ℚ) * 10 ^ 9 + (n % 10 ^ 9 : ℕ) = n := by
      exact_mod_cast Nat.div_add_mod' n (10 ^ 9)
    rw [div_eq_iff (by norm_num), add_mul, div_mul_cancel₀ _ (by norm_num), hdigits]
  have hfraction : |nearest ((n % 10 ^ 9 : ℕ) / 10 ^ 9) - (n % 10 ^ 9 : ℕ) / 10 ^ 9| ≤
      2 ^ (0 - 54 : ℤ) := by
    refine abs_nearest_sub_le ?_
    have hlt : ((n % 10 ^ 9 : ℕ) : ℚ) < 10 ^ 9 := by
      exact_mod_cast Nat.mod_lt n (by norm_num : 0 < 10 ^ 9)
    rw [abs_of_nonneg (by positivity), zpow_zero, div_lt_one (by norm_num)]
    exact hlt
  have hsum : |asSecsF64 n - ((n / 10 ^ 9 : ℕ) + nearest ((n % 10 ^ 9 : ℕ) / 10 ^ 9))| ≤
      2 ^ (31 - 54 : ℤ) := by
    rw [asSecsF64, hexact]
    refine abs_nearest_sub_le ?_
    have hle : ((n / 10 ^ 9 : ℕ) : ℚ) + 1 ≤ 2 ^ 31 := by exact_mod_cast hsecond
    rw [abs_of_nonneg (by positivity)]
    norm_num at hle ⊢
    linarith
  rw [abs_le] at hfraction hsum ⊢
  norm_num at hfraction hsum ⊢
  constructor <;> linarith [hsplit]

theorem asSecsF64_nonneg (n : ℕ) : 0 ≤ asSecsF64 n :=
  nearest_nonneg (add_nonneg (nearest_nonneg (Nat.cast_nonneg _)) (nearest_fraction_nonneg n))

/-- A lower bound is off by half a microsecond at most. -/
theorem abs_minScore_sub_le {ttl now : ℕ} (httl : ttl < 2 ^ 31 * 10 ^ 9)
    (hnow : now < 2 ^ 31 * 10 ^ 9) :
    |minScore ttl now - ((now : ℚ) - ttl) / 10 ^ 9| ≤ 1 / 2000000 := by
  have hscore := abs_asSecsF64_sub_le hnow
  have hage := abs_asSecsF64_sub_le httl
  have hnow' : (now : ℚ) / 10 ^ 9 < 2 ^ 31 := by
    rw [div_lt_iff₀ (by norm_num)]
    exact_mod_cast hnow
  have httl' : (ttl : ℚ) / 10 ^ 9 < 2 ^ 31 := by
    rw [div_lt_iff₀ (by norm_num)]
    exact_mod_cast httl
  have hrounded : |minScore ttl now - (asSecsF64 now - asSecsF64 ttl)| ≤ 2 ^ (32 - 54 : ℤ) := by
    refine abs_nearest_sub_le ?_
    have hnonneg := asSecsF64_nonneg now
    have hnonneg' := asSecsF64_nonneg ttl
    rw [abs_le] at hscore hage
    rw [abs_lt]
    norm_num at hscore hage hnow' httl' ⊢
    constructor <;> linarith
  rw [abs_le] at hscore hage hrounded ⊢
  rw [sub_div]
  norm_num at hscore hage hrounded ⊢
  constructor <;> linarith

/-- A value younger than the ttl by a microsecond is above the lower bound. -/
theorem minScore_lt_of_live {ttl n now : ℕ} (httl : ttl < 2 ^ 31 * 10 ^ 9)
    (hnow : now < 2 ^ 31 * 10 ^ 9) (hn : n ≤ now) (h : now + 1000 ≤ n + ttl) :
    minScore ttl now < asSecsF64 n := by
  have hbound := abs_minScore_sub_le httl hnow
  have hscore := abs_asSecsF64_sub_le (hn.trans_lt hnow)
  have hage : (now : ℚ) + 1000 ≤ n + ttl := by exact_mod_cast h
  rw [abs_le] at hbound hscore
  norm_num at hbound hscore
  linarith

/-- A value older than the ttl by a microsecond is below the lower bound. -/
theorem lt_minScore_of_expired {ttl n now : ℕ} (httl : ttl < 2 ^ 31 * 10 ^ 9)
    (hnow : now < 2 ^ 31 * 10 ^ 9) (hn : n ≤ now) (h : n + ttl + 1000 ≤ now) :
    asSecsF64 n < minScore ttl now := by
  have hbound := abs_minScore_sub_le httl hnow
  have hscore := abs_asSecsF64_sub_le (hn.trans_lt hnow)
  have hage : (n : ℚ) + ttl + 1000 ≤ now := by exact_mod_cast h
  rw [abs_le] at hbound hscore
  norm_num at hbound hscore
  linarith

end MarketMaker
