import DefiniteIntegral.Number.Decimal

/-! The operations on numbers that integration needs, as interfaces without laws. The rules and the
evaluator are written over them once: they run on floating-point numbers, they can be read as exact
arithmetic, and what holds whatever the operations return holds of every instance. -/

namespace DefiniteIntegral

/-- The operations that the quadrature rules apply. -/
class Arithmetic (α : Type) extends Add α, Sub α, Mul α, Div α, Neg α, NatCast α where
  abs : α → α
  sqrt : α → α
  /-- Whether the first number is at most the second. -/
  le : α → α → Bool
  isFinite : α → Bool
  /-- Whether the first number comes no later than the second in a total order of all numbers. -/
  precedes : α → α → Bool

/-- The further operations that an expression can apply, and its constants. -/
class Elementary (α : Type) extends Arithmetic α where
  /-- Whether the first number is less than the second. -/
  lt : α → α → Bool
  isZero : α → Bool
  /-- Whether the number has no fractional part. -/
  isWhole : α → Bool
  sin : α → α
  cos : α → α
  tan : α → α
  exp : α → α
  log : α → α
  pow : α → α → α
  pi : α
  e : α
  /-- The number that a decimal numeral stands for. -/
  ofDecimal : Decimal → α

namespace Arithmetic

variable {α : Type} [Arithmetic α]

/-- The sum of a list from left to right, starting from negative zero: the sum of no numbers, or
of negative zeros only, is negative zero. -/
def sum (xs : List α) : α :=
  xs.foldl (· + ·) (-((0 : Nat) : α))

/-- The number `x * x`. -/
def square (x : α) : α :=
  x * x

/-- The fourth power as the square of the square. -/
def fourthPower (x : α) : α :=
  square (square x)

/-- One half. -/
def half : α :=
  ((1 : Nat) : α) / ((2 : Nat) : α)

end Arithmetic

/-- Floating-point numbers with the operations of the machine. -/
instance : Elementary Float where
  natCast n := (UInt64.ofNat n).toFloat
  abs := Float.abs
  sqrt := Float.sqrt
  le x y := x ≤ y
  isFinite := Float.isFinite
  precedes x y := Binary64.orderKey x ≤ Binary64.orderKey y
  lt x y := x < y
  isZero x := x == 0.0
  isWhole x := x.floor == x
  sin := Float.sin
  cos := Float.cos
  tan := Float.tan
  exp := Float.exp
  log := Float.log
  pow := Float.pow
  pi := Float.ofBits 0x400921FB54442D18
  e := Float.ofBits 0x4005BF0A8B145769
  ofDecimal := Decimal.toFloat

end DefiniteIntegral
