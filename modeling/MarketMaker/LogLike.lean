/-
**Functions that behave like the logarithm.**

Over an ordered field without analysis, what is used of the natural logarithm is that it increases
and is strictly concave on the positive numbers, vanishes at one, and stays below its tangent there.
A secant of a strictly concave function through a fixed point gets less steep as the other end moves
to the right; with the fixed point at one, `ln (1 + x) / x` decreases.

* `LogLike` — the assumptions;
* `LogLike.real` — the real logarithm satisfies them;
* `LogLike.ratio_strictAntiOn` — **`ln (1 + x) / x` is strictly decreasing**.
-/

import Mathlib.Analysis.Convex.Slope
import Mathlib.Analysis.Convex.SpecificFunctions.Basic

set_option relaxedAutoImplicit false
set_option autoImplicit false

/-- What is assumed of a logarithm on the positive numbers. -/
structure LogLike {K : Type*} [Field K] [LinearOrder K] [IsStrictOrderedRing K] (ln : K → K) :
    Prop where
  strictMonoOn : StrictMonoOn ln (Set.Ioi 0)
  strictConcaveOn : StrictConcaveOn K (Set.Ioi 0) ln
  one : ln 1 = 0
  lt_self : ∀ x, 0 < x → ln (1 + x) < x

namespace LogLike

variable {K : Type*} [Field K] [LinearOrder K] [IsStrictOrderedRing K] {ln : K → K}

theorem real : LogLike Real.log where
  strictMonoOn := Real.strictMonoOn_log
  strictConcaveOn := strictConcaveOn_log_Ioi
  one := Real.log_one
  lt_self x hx := by
    have h := Real.log_lt_sub_one_of_pos (x := 1 + x) (by linarith) (by linarith)
    linarith

theorem pos (h : LogLike ln) {x : K} (hx : 0 < x) : 0 < ln (1 + x) := by
  have hmono := h.strictMonoOn (Set.mem_Ioi.2 one_pos) (Set.mem_Ioi.2 (add_pos one_pos hx))
    (lt_add_of_pos_right 1 hx)
  rwa [h.one] at hmono

/-- The secants through the point at one get less steep. -/
theorem ratio_strictAntiOn (h : LogLike ln) :
    StrictAntiOn (fun x => ln (1 + x) / x) (Set.Ioi 0) := by
  intro x hx y hy hxy
  rw [Set.mem_Ioi] at hx hy
  have hsecant := h.strictConcaveOn.secant_strict_mono (a := 1) (x := 1 + x) (y := 1 + y)
    (Set.mem_Ioi.2 one_pos) (Set.mem_Ioi.2 (by linarith)) (Set.mem_Ioi.2 (by linarith))
    (by linarith) (by linarith) (by linarith)
  rwa [h.one, sub_zero, sub_zero, add_sub_cancel_left, add_sub_cancel_left] at hsecant

theorem ratio_lt_one (h : LogLike ln) {x : K} (hx : 0 < x) : ln (1 + x) / x < 1 :=
  (div_lt_one hx).2 (h.lt_self x hx)

end LogLike
