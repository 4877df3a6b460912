import DefiniteIntegral.Json.Reading
import DefiniteIntegral.Json.Value
import DefiniteIntegral.Text.Quoted

/-! What can be wrong with a JSON text: it is not well formed, or what it holds does not fit where
it stands. Where in the text and in what way it is not well formed is not told apart, and a misfit
has its way through the value but no line and column. -/

namespace DefiniteIntegral.Json

/-- What stands in the wrong place. -/
inductive Found
  | null
  | bool (b : Bool)
  | integer (n : Int)
  | real (x : Float)
  | string (text : String)
  | sequence
  | map
deriving Repr

/-- The wording for what was found. -/
def Found.describe : Found → String
  | .null => "null"
  | .bool b => "boolean `" ++ (if b then "true" else "false") ++ "`"
  | .integer n => "integer `" ++ toString n ++ "`"
  | .real x => "floating point `" ++ Layout.json.write x ++ "`"
  | .string text => "string " ++ quoted text
  | .sequence => "sequence"
  | .map => "map"

/-- A step on the way to a part of a value. -/
inductive Step
  | name (text : String)
  | index (n : Nat)
deriving DecidableEq, Repr

/-- A way to a part of a value: names are separated by points, positions stand in brackets. -/
def pathText : (first : Bool) → List Step → String
  | _, [] => ""
  | first, .name text :: steps => (if first then "" else ".") ++ text ++ pathText false steps
  | _, .index n :: steps => "[" ++ n.repr ++ "]" ++ pathText false steps

/-- Why a value does not fit. -/
inductive Misfit
  | wrongType (found : Found) (expected : String)
  | wrongValue (found : Found) (expected : String)
  | wrongLength (length : Nat) (expected : String)
  | missingField (name : String)
  | duplicateField (name : String)
  | unknownVariant (name : String) (known : List String)
deriving Repr

/-- A name in back quotes. -/
def backQuoted (name : String) : String :=
  "`" ++ name ++ "`"

/-- The wording of a misfit. -/
def Misfit.message : Misfit → String
  | .wrongType found expected => "invalid type: " ++ found.describe ++ ", expected " ++ expected
  | .wrongValue found expected => "invalid value: " ++ found.describe ++ ", expected " ++ expected
  | .wrongLength length expected =>
    "invalid length " ++ length.repr ++ ", expected " ++ expected
  | .missingField name => "missing field " ++ backQuoted name
  | .duplicateField name => "duplicate field " ++ backQuoted name
  | .unknownVariant name known =>
    "unknown variant " ++ backQuoted name ++ ", expected one of " ++
      ", ".intercalate (known.map backQuoted)

/-- Why a text could not be decoded. -/
inductive Fault
  | malformed
  | misfit (path : List Step) (reason : Misfit)
deriving Repr

/-! ## Values of a type -/

/-- The number as it is found in the wrong place. -/
def Number.found : Number → Found
  | .natural n => .integer n
  | .negative n => .integer n
  | .real x => .real x

/-- A value in the wrong place. Of an array or an object only its start has been looked at, while
anything else has to be complete. -/
def Reading.wrongType (expected : String) (path : List Step) : Reading → Fault
  | .null => .misfit path (.wrongType .null expected)
  | .bool b => .misfit path (.wrongType (.bool b) expected)
  | .number (some n) => .misfit path (.wrongType n.found expected)
  | .string (some text) => .misfit path (.wrongType (.string text) expected)
  | .array _ _ => .misfit path (.wrongType .sequence expected)
  | .object _ _ => .misfit path (.wrongType .map expected)
  | .number none => .malformed
  | .string none => .malformed
  | .broken => .malformed

/-- A text. -/
def Reading.toText (path : List Step) : Reading → Except Fault String
  | .string (some text) => .ok text
  | value => .error (value.wrongType "a string" path)

/-- A floating-point number; whole numbers are rounded to one. -/
def Reading.toFloat (path : List Step) : Reading → Except Fault Float
  | .number (some (.real x)) => .ok x
  | .number (some (.natural n)) => .ok (UInt64.ofNat n).toFloat
  | .number (some (.negative n)) => .ok (-(UInt64.ofNat n.natAbs).toFloat)
  | value => .error (value.wrongType "f64" path)

/-- A natural number of 64 bits. -/
def Reading.toNat (path : List Step) : Reading → Except Fault Nat
  | .number (some (.natural n)) => .ok n
  | .number (some (.negative n)) => .error (.misfit path (.wrongValue (.integer n) "usize"))
  | value => .error (value.wrongType "usize" path)

end DefiniteIntegral.Json
