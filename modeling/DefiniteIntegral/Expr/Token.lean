import DefiniteIntegral.Arithmetic
import DefiniteIntegral.Text.Blank

/-! The tokens of an expression, and the scan that finds them: the longest lexeme at each place,
with blanks skipped and positions counted in characters. -/

namespace DefiniteIntegral

/-- A lexical unit of an expression. -/
inductive Token (α : Type)
  | number (value : α)
  | name (text : String)
  | plus
  | minus
  | star
  | doubleStar
  | slash
  | openParen
  | closeParen
  | eof
deriving DecidableEq, Repr

/-- Why a text has no tokens. -/
inductive ScanFault
  | unexpectedCharacter (c : Char) (position : Nat)
  | invalidNumber (lexeme : String)
deriving DecidableEq, Repr

/-- Whether a character can begin a name. -/
def isNameStart (c : Char) : Bool :=
  c.isAlpha || c = '_'

/-- Whether a character can continue a name. -/
def isNameCharacter (c : Char) : Bool :=
  c.isAlphanum || c = '_'

/-- Whether a character can begin a number. -/
def isNumberStart (c : Char) : Bool :=
  c.isDigit || c = '.'

/-- The operator or parenthesis at the head of a text, with the number of its characters. -/
def symbol? {α : Type} : List Char → Option (Token α × Nat)
  | '+' :: _ => some (.plus, 1)
  | '-' :: _ => some (.minus, 1)
  | '*' :: '*' :: _ => some (.doubleStar, 2)
  | '*' :: _ => some (.star, 1)
  | '/' :: _ => some (.slash, 1)
  | '(' :: _ => some (.openParen, 1)
  | ')' :: _ => some (.closeParen, 1)
  | _ => none

/-- The token at the head of a text that begins with `c`, which is no blank, with the number of its
characters. -/
def tokenAt {α : Type} [Elementary α] (position : Nat) (c : Char) (cs : List Char) :
    Except ScanFault (Token α × Nat) :=
  match symbol? (c :: cs) with
  | some found => .ok found
  | none =>
    if isNumberStart c then
      let (lexeme, numeral, _) := spanNumeral (c :: cs)
      match numeral.value? with
      | some d => .ok (.number (Elementary.ofDecimal d), lexeme.length)
      | none => .error (.invalidNumber (String.ofList lexeme))
    else if isNameStart c then
      let lexeme := (c :: cs).takeWhile isNameCharacter
      .ok (.name (String.ofList lexeme), lexeme.length)
    else .error (.unexpectedCharacter c position)

/-- The tokens of a text from a position on. A token never ends before the character it starts
with. -/
def tokensFrom {α : Type} [Elementary α] (position : Nat) :
    List Char → Except ScanFault (List (Token α))
  | [] => .ok [.eof]
  | c :: cs =>
    if isBlank c then tokensFrom (position + 1) cs
    else do
      let (token, length) ← tokenAt position c cs
      let rest ← tokensFrom (position + max length 1) (cs.drop (length - 1))
      return token :: rest
termination_by cs => cs.length
decreasing_by all_goals simp_wf; try omega

/-- The tokens of a text, the last of them `eof`. -/
def tokenize {α : Type} [Elementary α] (text : String) : Except ScanFault (List (Token α)) :=
  tokensFrom 0 text.toList

end DefiniteIntegral
