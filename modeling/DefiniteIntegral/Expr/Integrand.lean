import DefiniteIntegral.Expr.Parser
import DefiniteIntegral.Expr.Eval

/-! Integrands: expressions that have been read, checked and can be evaluated at any point. -/

namespace DefiniteIntegral

/-- The longest accepted expression, in characters. -/
def maxExpressionLength : Nat := 1000

/-- Why a text is no integrand. -/
inductive ExpressionFault (α : Type)
  | tooLong
  | scan (fault : ScanFault)
  | parse (fault : ParseFault α)
  | undefinedAt (x : α) (fault : EvalFault α)
deriving DecidableEq, Repr

/-- A function of one variable with the text that it was read from. -/
structure Integrand (α : Type) where
  source : String
  tree : Expr α
deriving DecidableEq, Repr

namespace Integrand

variable {α : Type} [Elementary α]

/-- The value of the function at `x`. -/
def eval (f : Integrand α) (x : α) : Except (EvalFault α) α :=
  f.tree.eval x

/-- The tree of a text, of whatever length. -/
def readTree (text : String) : Except (ExpressionFault α) (Expr α) := do
  let tokens ← (tokenize text).mapError .scan
  (parse tokens).mapError .parse

/-- The integrand of a text: it is not too long, it is an expression, and it has a value at zero. -/
def compile (text : String) : Except (ExpressionFault α) (Integrand α) := do
  if maxExpressionLength < text.length then throw .tooLong
  let tree ← readTree text
  let _ ← (tree.eval Arithmetic.zero).mapError (.undefinedAt Arithmetic.zero)
  return ⟨text, tree⟩

end Integrand

end DefiniteIntegral
