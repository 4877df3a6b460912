import DefiniteIntegral.Expr.Token
import DefiniteIntegral.Expr.Tree

/-! The parser of expressions. The grammar is

* `sum = product (('+' | '-') product)*`, grouped from the left,
* `product = operand (('*' | '/') operand)*`, grouped from the left,
* `operand = '-' operand | power`,
* `power = atom ('**' operand)?`,
* `atom = NUMBER | 'x' | CONSTANT | FUNCTION '(' sum ')' | '(' sum ')'`.

An operand after a minus sign, an exponent, an argument and what stands in parentheses lie one
level deeper than what is around them. The number of levels is bounded, and the parser recurses
on it. -/

namespace DefiniteIntegral

/-- The deepest accepted nesting. -/
def maxDepth : Nat := 64

/-- Why a list of tokens is no expression. -/
inductive ParseFault (α : Type)
  | expectedValue (found : Token α)
  | expectedClose (found : Token α)
  | trailing (found : Token α)
  | functionNotCalled (function : ElementaryFunction)
  | notCallable (name : String)
  | unknownName (name : String)
  | tooDeep
deriving DecidableEq, Repr

/-- A parser reads a tree from the start of a list of tokens and leaves the rest. -/
abbrev Parser (α : Type) :=
  List (Token α) → Except (ParseFault α) (Expr α × List (Token α))

namespace Parser

variable {α : Type}

/-- The parsers that apply one level deeper. -/
structure Inner (α : Type) where
  operand : Parser α
  sum : Parser α

/-- The first token; a list without one is at its end. -/
def peek (tokens : List (Token α)) : Token α :=
  tokens.headD .eof

/-- A sum one level deeper, and the parenthesis that closes it. -/
def enclosed (inner : Inner α) : Parser α := fun tokens => do
  let (tree, rest) ← inner.sum tokens
  match rest with
  | .closeParen :: rest => return (tree, rest)
  | rest => throw (.expectedClose (peek rest))

/-- What a name stands for: a function has to be called, and nothing else can be. -/
def named [Elementary α] (inner : Inner α) (name : String) : Parser α := fun tokens =>
  match ElementaryFunction.ofName? name, tokens with
  | some function, .openParen :: rest => do
    let (argument, rest) ← enclosed inner rest
    return (.call function argument, rest)
  | some function, _ => throw (.functionNotCalled function)
  | none, tokens => do
    let value ←
      if name = Expr.variableName then pure Expr.var
      else match Expr.constant? name with
        | some value => pure (.number value)
        | none => throw (.unknownName name)
    match tokens with
    | .openParen :: _ => throw (.notCallable name)
    | tokens => return (value, tokens)

/-- A number, a name or a sum in parentheses. -/
def atom [Elementary α] (inner : Inner α) : Parser α
  | .number value :: rest => .ok (.number value, rest)
  | .name text :: rest => named inner text rest
  | .openParen :: rest => enclosed inner rest
  | tokens => .error (.expectedValue (peek tokens))

/-- An atom, raised to an operand if two stars follow. -/
def power [Elementary α] (inner : Inner α) : Parser α := fun tokens => do
  let (base, rest) ← atom inner tokens
  match rest with
  | .doubleStar :: rest =>
    let (exponent, rest) ← inner.operand rest
    return (.binary .pow base exponent, rest)
  | rest => return (base, rest)

/-- A negated operand or a power. -/
def operand [Elementary α] (inner : Inner α) : Parser α
  | .minus :: rest => do
    let (tree, rest) ← inner.operand rest
    return (.neg tree, rest)
  | tokens => power inner tokens

/-- The operator that a token stands for in a product. -/
def productOperator? : Token α → Option BinaryOperator
  | .star => some .mul
  | .slash => some .div
  | _ => none

/-- The operator that a token stands for in a sum. -/
def sumOperator? : Token α → Option BinaryOperator
  | .plus => some .add
  | .minus => some .sub
  | _ => none

/-- The remaining operands of a chain grouped from the left, at most `fuel` of them: a chain is no
longer than its list of tokens. -/
def chain (operator? : Token α → Option BinaryOperator) (next : Parser α) :
    (fuel : Nat) → (left : Expr α) → Parser α
  | fuel + 1, left, token :: rest =>
    match operator? token with
    | some operator => do
      let (right, rest) ← next rest
      chain operator? next fuel (.binary operator left right) rest
    | none => .ok (left, token :: rest)
  | _, left, tokens => .ok (left, tokens)

/-- Operands joined by stars and slashes. -/
def product [Elementary α] (inner : Inner α) : Parser α := fun tokens => do
  let (left, rest) ← operand inner tokens
  chain productOperator? (operand inner) rest.length left rest

/-- Products joined by plus and minus signs. -/
def sum [Elementary α] (inner : Inner α) : Parser α := fun tokens => do
  let (left, rest) ← product inner tokens
  chain sumOperator? (product inner) rest.length left rest

/-- The parsers for what lies deeper, with so many levels left. -/
def inner [Elementary α] : (levels : Nat) → Inner α
  | 0 => ⟨fun _ => .error .tooDeep, fun _ => .error .tooDeep⟩
  | levels + 1 => ⟨operand (inner levels), sum (inner levels)⟩

end Parser

/-- The tree of a list of tokens. -/
def parse {α : Type} [Elementary α] (tokens : List (Token α)) : Except (ParseFault α) (Expr α) := do
  let (tree, rest) ← Parser.sum (Parser.inner maxDepth) tokens
  match Parser.peek rest with
  | .eof => return tree
  | found => throw (.trailing found)

end DefiniteIntegral
