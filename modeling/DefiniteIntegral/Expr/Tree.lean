import DefiniteIntegral.Arithmetic

/-! Expressions over one variable: numbers, the variable, the operators and six functions. -/

namespace DefiniteIntegral

/-- The functions that an expression can call. -/
inductive ElementaryFunction
  | sin
  | cos
  | tan
  | exp
  | log
  | sqrt
deriving DecidableEq, Repr

namespace ElementaryFunction

/-- The name of a function. -/
def name : ElementaryFunction → String
  | sin => "sin"
  | cos => "cos"
  | tan => "tan"
  | exp => "exp"
  | log => "log"
  | sqrt => "sqrt"

/-- All functions. -/
def all : List ElementaryFunction :=
  [sin, cos, tan, exp, log, sqrt]

/-- The function of a name. -/
def ofName? (text : String) : Option ElementaryFunction :=
  all.find? fun f => f.name = text

end ElementaryFunction

/-- The operators with two operands. -/
inductive BinaryOperator
  | add
  | sub
  | mul
  | div
  | pow
deriving DecidableEq, Repr

/-- The sign of an operator. -/
def BinaryOperator.sign : BinaryOperator → String
  | add => "+"
  | sub => "-"
  | mul => "*"
  | div => "/"
  | pow => "**"

/-- An expression tree. -/
inductive Expr (α : Type)
  | number (value : α)
  | var
  | neg (operand : Expr α)
  | binary (operator : BinaryOperator) (left right : Expr α)
  | call (function : ElementaryFunction) (argument : Expr α)
deriving DecidableEq, Repr

namespace Expr

variable {α : Type}

/-- The name of the variable. -/
def variableName : String := "x"

/-- The constant of a name. -/
def constant? [Elementary α] (text : String) : Option α :=
  if text = "pi" then some Elementary.pi
  else if text = "e" then some Elementary.e
  else none

/-- The tree in parenthesised form, the operator first. -/
def render (number : α → String) : Expr α → String
  | .number value => number value
  | .var => variableName
  | .neg operand => "(neg " ++ operand.render number ++ ")"
  | .binary operator left right =>
    "(" ++ operator.sign ++ " " ++ left.render number ++ " " ++ right.render number ++ ")"
  | .call function argument => "(" ++ function.name ++ " " ++ argument.render number ++ ")"

end Expr

end DefiniteIntegral
