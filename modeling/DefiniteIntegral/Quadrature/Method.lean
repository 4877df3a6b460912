/-! The integration methods: their names, descriptions and least sample counts. -/

namespace DefiniteIntegral

/-- An integration method. -/
inductive Method
  | trapezoidal
  | simpson
  | midpoint
  | monteCarlo
deriving DecidableEq, Repr

namespace Method

/-- All methods, in the order they are listed. -/
def all : List Method :=
  [trapezoidal, simpson, midpoint, monteCarlo]

/-- The method of a request that names none. -/
def standard : Method := trapezoidal

/-- The canonical name. -/
def name : Method → String
  | trapezoidal => "trapezoidal"
  | simpson => "simpson"
  | midpoint => "midpoint"
  | monteCarlo => "monte_carlo"

/-- The names that a method goes by, the canonical one first. -/
def names : Method → List String
  | trapezoidal => ["trapezoidal", "trapezoid"]
  | simpson => ["simpson"]
  | midpoint => ["midpoint"]
  | monteCarlo => ["monte_carlo", "monte-carlo", "montecarlo"]

/-- The method of a name in any case of letters. Only the letters of ASCII have a case here: no
other letter stands for one of them in these names. -/
def ofName? (text : String) : Option Method :=
  all.find? fun m => m.names.contains text.toLower

/-- What a method does. -/
def description : Method → String
  | trapezoidal => "Trapezoidal rule on n evenly spaced nodes"
  | simpson => "Simpson's 1/3 rule on an odd number of nodes"
  | midpoint => "Midpoint rule on n equal subintervals"
  | monteCarlo => "Monte Carlo estimate from n uniform random samples"

/-- The least sample count that a method runs with. -/
def minPoints : Method → Nat
  | trapezoidal => 2
  | simpson => 2
  | midpoint => 1
  | monteCarlo => 1

/-- The least sample count that gives an error estimate. -/
def minPointsForError : Method → Nat
  | trapezoidal => 3
  | simpson => 5
  | midpoint => 3
  | monteCarlo => 1

end Method

end DefiniteIntegral
