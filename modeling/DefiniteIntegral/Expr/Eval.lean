import DefiniteIntegral.Expr.Tree

/-! The value of an expression at a point. Every intermediate value has to be finite, and an
operation outside its domain is a fault; the first fault in evaluation order is reported. -/

namespace DefiniteIntegral

/-- Why an expression has no value at a point. -/
inductive EvalFault (α : Type)
  | divisionByZero
  | zeroToNegativePower
  | negativeToFractionalPower
  | logOfNonPositive (value : α)
  | sqrtOfNegative (value : α)
  | notFinite
deriving DecidableEq, Repr

variable {α : Type} [Elementary α]

/-- The number zero. -/
def Arithmetic.zero : α :=
  ((0 : Nat) : α)

/-- The value of an operator, where it is defined. -/
def BinaryOperator.apply (operator : BinaryOperator) (l r : α) : Except (EvalFault α) α :=
  match operator with
  | .add => .ok (l + r)
  | .sub => .ok (l - r)
  | .mul => .ok (l * r)
  | .div => if Elementary.isZero r then .error .divisionByZero else .ok (l / r)
  | .pow =>
    if Elementary.isZero l && Elementary.lt r Arithmetic.zero then .error .zeroToNegativePower
    else if Elementary.lt l Arithmetic.zero && !Elementary.isWhole r then
      .error .negativeToFractionalPower
    else .ok (Elementary.pow l r)

/-- The value of a function, where it is defined. -/
def ElementaryFunction.apply (function : ElementaryFunction) (a : α) : Except (EvalFault α) α :=
  match function with
  | .sin => .ok (Elementary.sin a)
  | .cos => .ok (Elementary.cos a)
  | .tan => .ok (Elementary.tan a)
  | .exp => .ok (Elementary.exp a)
  | .log => if Arithmetic.le a Arithmetic.zero then .error (.logOfNonPositive a) else
    .ok (Elementary.log a)
  | .sqrt => if Elementary.lt a Arithmetic.zero then .error (.sqrtOfNegative a) else
    .ok (Arithmetic.sqrt a)

/-- A value, if it is finite. -/
def EvalFault.checkFinite (value : α) : Except (EvalFault α) α :=
  if Arithmetic.isFinite value then .ok value else .error .notFinite

/-- The value of an expression at `x`. -/
def Expr.eval (x : α) : Expr α → Except (EvalFault α) α
  | .number value => EvalFault.checkFinite value
  | .var => EvalFault.checkFinite x
  | .neg operand => do
    let a ← operand.eval x
    EvalFault.checkFinite (-a)
  | .binary operator left right => do
    let l ← left.eval x
    let r ← right.eval x
    let value ← operator.apply l r
    EvalFault.checkFinite value
  | .call function argument => do
    let a ← argument.eval x
    let value ← function.apply a
    EvalFault.checkFinite value

end DefiniteIntegral
