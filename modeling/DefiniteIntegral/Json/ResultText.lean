import DefiniteIntegral.Json.RequestText

/-! Results as JSON texts: an object with a member for each field, or an array of the fields in
order. Members with other names are skipped, and only the error estimate may be missing from an
object. -/

namespace DefiniteIntegral.Json

/-- What a result has to be, as messages put it. -/
def resultExpected : String := "struct IntegrationResult"

/-! ## Numbers -/

/-- The floating-point numbers of an array, from the element at some position on. -/
def floatsOfItems (path : List Step) : (n : Nat) → List Reading → Except Fault (List Float)
  | _, [] => .ok []
  | n, item :: items => do
    let x ← item.toFloat (path ++ [.index n])
    let xs ← floatsOfItems path (n + 1) items
    return x :: xs

/-- A list of floating-point numbers. -/
def Reading.toFloats (path : List Step) : Reading → Except Fault (List Float)
  | .array items closed => do
    let xs ← floatsOfItems path 0 items
    if closed then return xs else throw .malformed
  | value => .error (value.wrongType "a sequence" path)

/-- A floating-point number that may be absent. -/
def Reading.toOptionalFloat (path : List Step) : Reading → Except Fault (Option Float)
  | .null => .ok none
  | value => (value.toFloat path).map some

/-! ## Results -/

/-- The fields of a result that have been read. -/
structure ResultDraft where
  value : Option Float
  method : Option Method
  points : Option Nat
  xs : Option (List Float)
  ys : Option (List Float)
  errorEstimate : Option (Option Float)
deriving Repr

namespace ResultDraft

/-- Nothing read yet. -/
def empty : ResultDraft :=
  ⟨none, none, none, none, none, none⟩

/-- The draft with one more member. -/
def addMember (d : ResultDraft) (name : String) (value : Reading) : Except Fault ResultDraft := do
  let path := [Step.name name]
  match name with
  | "value" => return { d with value := ← freshField name d.value (value.toFloat path) }
  | "method" => return { d with method := ← freshField name d.method (value.toMethod path) }
  | "num_points" => return { d with points := ← freshField name d.points (value.toNat path) }
  | "x_values" => return { d with xs := ← freshField name d.xs (value.toFloats path) }
  | "y_values" => return { d with ys := ← freshField name d.ys (value.toFloats path) }
  | "error_estimate" =>
    return { d with
      errorEstimate := ← freshField name d.errorEstimate (value.toOptionalFloat path) }
  | _ => return d

/-- The result of a draft. -/
def finish (d : ResultDraft) : Except Fault (Result Float) := do
  let value ← requireField "value" d.value
  let method ← requireField "method" d.method
  let points ← requireField "num_points" d.points
  let xs ← requireField "x_values" d.xs
  let ys ← requireField "y_values" d.ys
  return ⟨value, method, points, xs, ys, d.errorEstimate.getD none⟩

end ResultDraft

/-- The result of an array of fields. None of them may be missing. -/
def resultOfItems (items : List Reading) (closed : Bool) : Except Fault (Result Float) := do
  let requireElement := requireElement (resultExpected ++ " with 6 elements")
  let value ← (← requireElement items closed 0).toFloat [.index 0]
  let method ← (← requireElement items closed 1).toMethod [.index 1]
  let points ← (← requireElement items closed 2).toNat [.index 2]
  let xs ← (← requireElement items closed 3).toFloats [.index 3]
  let ys ← (← requireElement items closed 4).toFloats [.index 4]
  let errorEstimate ← (← requireElement items closed 5).toOptionalFloat [.index 5]
  if closed ∧ items.length ≤ 6 then return ⟨value, method, points, xs, ys, errorEstimate⟩
  else throw .malformed

/-- The result that a value stands for. -/
def Reading.toResult : Reading → Except Fault (Result Float)
  | .object members closed => do
    let draft ← readFields ResultDraft.addMember .empty members
    if closed then draft.finish else throw .malformed
  | .array items closed => resultOfItems items closed
  | value => .error (value.wrongType resultExpected [])

/-- The floating-point number of a text that holds nothing else. -/
def floatOfText (text : String) : Except Fault Float :=
  ofText (Reading.toFloat []) text

/-- The result of a text that holds nothing else. -/
def resultOfText (text : String) : Except Fault (Result Float) :=
  ofText Reading.toResult text

end DefiniteIntegral.Json
