import DefiniteIntegral.Expr.Tree
import Mathlib.Algebra.Order.Ring.Rat
import Mathlib.Algebra.Order.Group.Unbundled.Abs

/-! # Exact arithmetic

The operations on numbers read as those of the rational numbers. -/

namespace DefiniteIntegral

/-- Exact arithmetic, with any function as the square root. -/
@[reducible] def Arithmetic.exact (sqrt : ℚ → ℚ) : Arithmetic ℚ where
  abs x := |x|
  sqrt := sqrt
  le x y := decide (x ≤ y)
  isFinite _ := true
  precedes x y := decide (x ≤ y)

theorem Arithmetic.le_exact (sqrt : ℚ → ℚ) (x y : ℚ) :
    @Arithmetic.le ℚ (.exact sqrt) x y = decide (x ≤ y) :=
  rfl

/-- Exact arithmetic with any functions in the place of those that leave the rational numbers. -/
@[reducible] def Elementary.exact (function : ElementaryFunction → ℚ → ℚ) (pow : ℚ → ℚ → ℚ)
    (pi e : ℚ) : Elementary ℚ where
  toArithmetic := Arithmetic.exact (function .sqrt)
  lt x y := decide (x < y)
  isZero x := decide (x = 0)
  isWhole x := decide (x.den = 1)
  sin := function .sin
  cos := function .cos
  tan := function .tan
  exp := function .exp
  log := function .log
  pow := pow
  pi := pi
  e := e
  ofDecimal d := d.digits * (10 : ℚ) ^ d.exponent

end DefiniteIntegral
