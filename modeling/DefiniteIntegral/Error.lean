import DefiniteIntegral.Expr.Integrand
import DefiniteIntegral.Json.Fault
import DefiniteIntegral.Quadrature.Method

/-! The errors of the service, by cause, and the wording of each.

What the readers of JSON and TOML report in their own words is left out. That a text is not
well-formed JSON reads `<syntax>`, or nothing after the words of the service where it was the body
of a request over HTTP; a misfit is reported without its line and column; a configuration file that
cannot be read as one is reported without the place and the cause. -/

namespace DefiniteIntegral

/-- The least accepted number of points of a request. -/
def minRequestPoints : Nat := 10

/-- The greatest accepted number of points of a request. -/
def maxRequestPoints : Nat := 10000

/-- Why a file operation failed. -/
inductive FileFault
  | notFound
  | exists
  | notADirectory
  | isADirectory
  | nameTooLong
  | nulInName
  | notText
deriving DecidableEq, Repr

/-- Why the body of a request over HTTP was refused. -/
inductive BodyFault
  | contentType
  | tooLarge
  | json (fault : Json.Fault)
deriving Repr

/-- What is wrong with a request. -/
inductive RequestFault (α : Type)
  | boundsNotFinite (lower upper : α)
  | pointsOutOfRange (n : Nat)
  | tooFewPoints (method : Method) (n : Nat)
  | overflow (source : String) (lower upper : α)
  | unknownMethod (name : String)
  | unknownFormat (name : String)
  | noFunction
  | boundMissing
  | json (fault : Json.Fault)
  | body (fault : BodyFault)
deriving Repr

/-- What is wrong with the configuration. -/
inductive ConfigFault
  | unknownMethod (name : String)
  | unknownSource (name : String)
  | unknownKey (key : String)
  /-- A key to show, refused with the list of the keys there are. -/
  | noSuchKey (key : String) (available : List String)
  | invalidValue (field value : String)
  | keyMissing
  | unreadable (fault : FileFault)
  | unparsable
  | directoryRefused (fault : FileFault)
  | outOfRange
  | unwritable (fault : FileFault)
deriving DecidableEq, Repr

/-- Why the server did not start. -/
inductive ServerFault
  | invalidAddress
  | noNetwork
deriving DecidableEq, Repr

/-- An error of the service. -/
inductive Error (α : Type)
  | invalidExpression (fault : ExpressionFault α)
  | evaluation (x : α) (fault : EvalFault α)
  | invalidRequest (fault : RequestFault α)
  | config (fault : ConfigFault)
  | io (fault : FileFault)
  | server (fault : ServerFault)
deriving Repr

/-- Whether the error is due to what the client sent. -/
def Error.isClientError {α : Type} : Error α → Bool
  | .invalidExpression _ => true
  | .evaluation _ _ => true
  | .invalidRequest _ => true
  | .config _ => false
  | .io _ => false
  | .server _ => false

/-! ## Wording -/

/-- A text between single quotes. -/
def singleQuoted (text : String) : String :=
  "'" ++ text ++ "'"

/-- The wording for a token. -/
def Token.describe : Token Float → String
  | .number value => "number " ++ plainText value
  | .name text => "name " ++ singleQuoted text
  | .plus => "'+'"
  | .minus => "'-'"
  | .star => "'*'"
  | .doubleStar => "'**'"
  | .slash => "'/'"
  | .openParen => "'('"
  | .closeParen => "')'"
  | .eof => "end of expression"

/-- The wording of a fault in the characters of an expression. -/
def ScanFault.message : ScanFault → String
  | .unexpectedCharacter c position =>
    "unexpected character " ++ singleQuoted (String.singleton c) ++ " at position " ++ position.repr
  | .invalidNumber lexeme => "invalid number literal " ++ singleQuoted lexeme

/-- The wording of a fault in the tokens of an expression. -/
def ParseFault.message : ParseFault Float → String
  | .expectedValue found => "expected a value but found " ++ found.describe
  | .expectedClose found => "expected ')' but found " ++ found.describe
  | .trailing found => "unexpected " ++ found.describe ++ " after end of expression"
  | .functionNotCalled function =>
    "function " ++ singleQuoted function.name ++ " must be called with one argument"
  | .notCallable name => singleQuoted name ++ " is not callable"
  | .unknownName name => "name " ++ singleQuoted name ++ " is not allowed"
  | .tooDeep => "expression nested deeper than " ++ maxDepth.repr ++ " levels"

/-- The wording of a fault in the value of an expression. -/
def EvalFault.message : EvalFault Float → String
  | .divisionByZero => "division by zero"
  | .zeroToNegativePower => "zero raised to a negative power"
  | .negativeToFractionalPower => "negative number raised to a fractional power"
  | .logOfNonPositive value => "log of non-positive value " ++ plainText value
  | .sqrtOfNegative value => "sqrt of negative value " ++ plainText value
  | .notFinite => "result is not a finite number"

/-- The wording of a fault in an expression. -/
def ExpressionFault.message : ExpressionFault Float → String
  | .tooLong => "expression is longer than " ++ maxExpressionLength.repr ++ " characters"
  | .scan fault => fault.message
  | .parse fault => fault.message
  | .undefinedAt x fault => fault.message ++ " (at x = " ++ plainText x ++ ")"

/-- The wording of a failed file operation. -/
def FileFault.message : FileFault → String
  | .notFound => "No such file or directory (os error 2)"
  | .exists => "File exists (os error 17)"
  | .notADirectory => "Not a directory (os error 20)"
  | .isADirectory => "Is a directory (os error 21)"
  | .nameTooLong => "File name too long (os error 36)"
  | .nulInName => "file name contained an unexpected NUL byte"
  | .notText => "stream did not contain valid UTF-8"

/-- The wording of a fault in a JSON text, where `<syntax>` stands for any report on what is not
well formed, and the line and the column of a misfit are left out. -/
def Json.Fault.message : Json.Fault → String
  | .malformed => "<syntax>"
  | .misfit _ reason => reason.message

/-- The wording of a refused body, without the report on what is not well formed and without the
line and the column of a misfit. -/
def BodyFault.message : BodyFault → String
  | .contentType => "Expected request with `Content-Type: application/json`"
  | .tooLarge => "Failed to buffer the request body: length limit exceeded"
  | .json .malformed => "Failed to parse the request body as JSON"
  | .json (.misfit path reason) =>
    "Failed to deserialize the JSON body into the target type: " ++
      (if path = [] then "" else Json.pathText true path ++ ": ") ++ reason.message

/-- An interval. -/
def intervalText (lower upper : Float) : String :=
  "[" ++ plainText lower ++ ", " ++ plainText upper ++ "]"

/-- The wording for a method name that is none. -/
def unknownMethodText (name : String) : String :=
  "Unknown integration method: " ++ name

/-- The wording of a fault in a request. -/
def RequestFault.message : RequestFault Float → String
  | .boundsNotFinite lower upper =>
    "Bounds must be finite numbers, got " ++ intervalText lower upper
  | .pointsOutOfRange n =>
    "num_points " ++ n.repr ++ " is out of range [" ++ minRequestPoints.repr ++ ", " ++
      maxRequestPoints.repr ++ "]"
  | .tooFewPoints method n =>
    method.name ++ " needs at least " ++ method.minPoints.repr ++ " points, got " ++ n.repr
  | .overflow source lower upper =>
    "Integral of " ++ singleQuoted source ++ " over " ++ intervalText lower upper ++ " overflows"
  | .unknownMethod name => unknownMethodText name
  | .unknownFormat name => "Unknown format: " ++ name
  | .noFunction => "No function given"
  | .boundMissing => "Both --lower and --upper are required"
  | .json fault => fault.message
  | .body fault => fault.message

/-- The wording of a fault in the configuration. The report on a file that cannot be read as one
is left out. -/
def ConfigFault.message : ConfigFault → String
  | .unknownMethod name => unknownMethodText name
  | .unknownSource name => "Unknown random source: " ++ name
  | .unknownKey key => "Unknown config key: " ++ key
  | .noSuchKey key available =>
    "Unknown config key: " ++ key ++ "\n\nAvailable keys:" ++
      String.join (available.map fun k => "\n  " ++ k)
  | .invalidValue field value => "Invalid " ++ field ++ " value: " ++ value
  | .keyMissing => "Must specify a key to set a value"
  | .unreadable fault => "Failed to read config file: " ++ fault.message
  | .unparsable => "Failed to parse config file"
  | .directoryRefused fault => "Failed to create config directory: " ++ fault.message
  | .outOfRange => "Failed to serialize config: out-of-range value for u64 type"
  | .unwritable fault => "Failed to write config file: " ++ fault.message

/-- The wording of a fault of the server. -/
def ServerFault.message : ServerFault → String
  | .invalidAddress => "Invalid server address: invalid socket address syntax"
  | .noNetwork => "no network to listen on"

/-- The wording of an error. -/
def Error.message : Error Float → String
  | .invalidExpression fault => "Invalid function expression: " ++ fault.message
  | .evaluation x fault => "Evaluation failed at x = " ++ plainText x ++ ": " ++ fault.message
  | .invalidRequest fault => "Invalid request: " ++ fault.message
  | .config fault => "Configuration error: " ++ fault.message
  | .io fault => "IO error: " ++ fault.message
  | .server fault => "Server error: " ++ fault.message

end DefiniteIntegral
