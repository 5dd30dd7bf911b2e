/-
**The numbers of the exchange and of the strategy.**

The exchange's client hands over prices, sizes and profits as `BigDecimal`s, an integer coefficient
with a decimal scale, and orders prices by their *numerical* value: `1.0` and `1.00` are different
values and one price.  The rest of the program computes with the fixed-width `Decimal` of another
crate.  The conversion between the two goes through text.

Neither crate is part of the repository.  What the code uses of them enters as the classes
`DecimalText`, `DecimalOps` and `ToF64` over a type `D` of decimals; an operation is undefined
exactly where the crate's panics, and no law of arithmetic is assumed here.

* `BigDecimal.val`, `Price.val` — the numerical values;
* `BigDecimal.display` — how a number is displayed;
* `bigDecimalToDecimal` — the conversion of `utils.rs`, absent where its `unwrap` panics;
* `readDecimal`, `exactOps` — exact decimals, on which concrete inputs are evaluated.
-/

import MarketMaker.PositionalText
import Mathlib.Data.Rat.Cast.Order
import Mathlib.Algebra.Order.Field.Rat
import Mathlib.Algebra.GroupWithZero.Units.Basic

set_option relaxedAutoImplicit false
set_option autoImplicit false

namespace MarketMaker

/-! ### The numbers of the exchange -/

/-- An integer coefficient `intVal` with `scale` decimal places. -/
structure BigDecimal where
  intVal : ℤ
  scale : ℤ
deriving DecidableEq, Repr

/-- The number a `BigDecimal` stands for. -/
def BigDecimal.val (d : BigDecimal) : ℚ := d.intVal * (10 : ℚ) ^ (-d.scale)

/-- Whether the number is zero. -/
def BigDecimal.isZero (d : BigDecimal) : Bool := d.intVal = 0

theorem BigDecimal.isZero_iff (d : BigDecimal) : d.isZero = true ↔ d.val = 0 := by
  have hpow : (10 : ℚ) ^ (-d.scale) ≠ 0 := zpow_ne_zero _ (by norm_num)
  rw [val, mul_eq_zero, or_iff_left hpow]
  simp [isZero]

/-- How many digits the coefficient has. -/
def BigDecimal.digits (d : BigDecimal) : ℕ := (Nat.toDigits 10 d.intVal.natAbs).length

/-- The zeros between the point and the first digit of the coefficient. -/
def BigDecimal.leadingZeros (d : BigDecimal) : ℕ := d.scale.toNat - d.digits

/-- The zeros between the last digit of the coefficient and the point. -/
def BigDecimal.trailingZeros (d : BigDecimal) : ℕ := (-d.scale).toNat

/-- The exponent with one digit in front of the point. -/
def BigDecimal.exponent (d : BigDecimal) : ℤ := (d.digits - 1 : ℕ) - d.scale

/-- **How a number is displayed.**  Zero has one digit at every scale.  An exponent is written where
more than five zeros would stand in front of the digits, with one of these in front of the point;
and where more than fifteen would stand behind them.  Any other number is written plainly. -/
def BigDecimal.display (d : BigDecimal) : String :=
  if d.intVal = 0 then "0"
  else if 5 < d.leadingZeros then
    PositionalText.withExponent 'E' d.intVal (d.digits - 1 : ℕ) d.exponent
  else if 15 < d.trailingZeros then PositionalText.withExponent 'e' d.intVal 0 (-d.scale)
  else PositionalText.text d.intVal d.scale

/-- A price; prices are compared by `Price.val`. -/
structure Price where
  inner : BigDecimal
deriving DecidableEq, Repr

/-- The number a price stands for, by which prices are ordered. -/
def Price.val (p : Price) : ℚ := p.inner.val

/-- A size. -/
structure Quantity where
  inner : BigDecimal
deriving DecidableEq, Repr

/-- Whether the size is zero. -/
def Quantity.isZero (q : Quantity) : Bool := q.inner.isZero

/-! ### The decimals of the strategy -/

/-- The text conversions between the two kinds of numbers. -/
class DecimalText (D : Type) where
  /-- How a `BigDecimal` is displayed. -/
  toString : BigDecimal → String
  /-- Reading a decimal, absent where the text is rejected. -/
  fromStr : String → Option D

/-- The arithmetic of decimals, absent where an operation panics. -/
class DecimalOps (D : Type) where
  /-- `Decimal::ZERO`. -/
  zero : D
  /-- `Decimal::ONE`. -/
  one : D
  /-- `Decimal::new`: a coefficient and a number of decimal places. -/
  new : ℤ → ℕ → D
  /-- `Decimal::from` on an integer. -/
  fromInt : ℤ → D
  add : D → D → Option D
  sub : D → D → Option D
  mul : D → D → Option D
  div : D → D → Option D
  powi : D → ℤ → Option D
  ln : D → Option D

/-- The conversion of a decimal to the floating-point type `F`. -/
class ToF64 (D : Type) (F : outParam Type) where
  /-- Absent where the conversion fails. -/
  toF64 : D → Option F
  /-- The value `0.0`. -/
  zero : F

/-- The conversion through text, absent where its `unwrap` panics. -/
def bigDecimalToDecimal {D : Type} [DecimalText D] (value : BigDecimal) : Option D :=
  DecimalText.fromStr (DecimalText.toString D value)

/-! ### Exact decimals -/

/-- The bound of the coefficients of a decimal: 96 bits. -/
def coefficientBound : ℕ := 2 ^ 96

/-- The number, if its whole part is one of a decimal. -/
def fits (v : ℚ) : Option ℚ := if v.num.natAbs / v.den < coefficientBound then some v else none

/-- The number a text writes, with or without an exponent.  After more digits than a coefficient can
have, an exponent is not looked at; and the one looked at has a value of at most 28.  What does not
fit is rejected, where its whole part is too large, and else kept without rounding. -/
def readDecimal (s : String) : Option ℚ :=
  let parts := PositionalText.splitExponent s
  let number := (PositionalText.read (String.ofList parts.1)).bind fits
  match parts.2 with
  | [] => number
  | _ :: exponent =>
      if coefficientBound ≤ Nat.ofDigitChars 10 (parts.1.filter Char.isDigit) 0 then number
      else do
        let v ← number
        let e ← PositionalText.readExponent exponent
        if e.natAbs ≤ 28 then fits (v * 10 ^ e) else none

/-- Exact decimals with the texts of the crates. -/
instance : DecimalText ℚ where
  toString := BigDecimal.display
  fromStr := readDecimal

instance : ToF64 ℚ ℚ where
  toF64 := some
  zero := 0

/-- **Exact arithmetic**: nothing is rounded and nothing overflows; a division by zero panics, and
the logarithm is a given partial function. -/
@[reducible] def exactOps (ln : ℚ → Option ℚ) : DecimalOps ℚ where
  zero := 0
  one := 1
  new coefficient scale := coefficient / 10 ^ scale
  fromInt n := n
  add a b := some (a + b)
  sub a b := some (a - b)
  mul a b := some (a * b)
  div a b := if b = 0 then none else some (a / b)
  powi a n := some (a ^ n)
  ln := ln

end MarketMaker
