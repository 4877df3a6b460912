import DefiniteIntegral.Integration.Request
import DefiniteIntegral.Json.Record

/-! Requests as JSON texts: an object with a member for each field, or an array of the fields in
order. Members with other names are skipped. -/

namespace DefiniteIntegral.Json

/-- What a request has to be, as messages put it. -/
def requestExpected : String := "struct IntegrationRequest"

/-- The fields of a request that have been read. -/
structure Draft where
  function : Option String
  lower : Option Float
  upper : Option Float
  points : Option Nat
  method : Option Method
deriving Repr

/-- Nothing read yet. -/
def Draft.empty : Draft :=
  ⟨none, none, none, none, none⟩

/-- The method of its canonical name. -/
def methodOfName (path : List Step) (name : String) : Except Fault Method :=
  variantOfName Method.all Method.name path name

/-- A method: its name, or an object whose only member has that name and the value `null`. -/
def Reading.toMethod (path : List Step) : Reading → Except Fault Method
  | .string (some name) => methodOfName path name
  | .object ((.string (some name), value) :: rest) closed => do
    let method ← methodOfName path name
    match value with
    | .null => if rest.isEmpty ∧ closed then return method else throw .malformed
    | value => throw (value.wrongType "unit" (path ++ [.name name]))
  | _ => .error .malformed

/-- The draft with one more member. -/
def Draft.addMember (d : Draft) (name : String) (value : Reading) : Except Fault Draft := do
  let path := [Step.name name]
  match name with
  | "function" => return { d with function := ← freshField name d.function (value.toText path) }
  | "lower_bound" => return { d with lower := ← freshField name d.lower (value.toFloat path) }
  | "upper_bound" => return { d with upper := ← freshField name d.upper (value.toFloat path) }
  | "num_points" => return { d with points := ← freshField name d.points (value.toNat path) }
  | "method" => return { d with method := ← freshField name d.method (value.toMethod path) }
  | _ => return d

/-- The request of a draft. -/
def Draft.finish (d : Draft) : Except Fault (Request Float) := do
  let function ← requireField "function" d.function
  let lower ← requireField "lower_bound" d.lower
  let upper ← requireField "upper_bound" d.upper
  return ⟨function, lower, upper, d.points.getD standardPoints, d.method.getD .standard⟩

/-- The request of an array of fields. Missing fields at the end take their standard values. -/
def requestOfItems (items : List Reading) (closed : Bool) : Except Fault (Request Float) := do
  let requireElement := requireElement (requestExpected ++ " with 5 elements")
  let function ← (← requireElement items closed 0).toText [.index 0]
  let lower ← (← requireElement items closed 1).toFloat [.index 1]
  let upper ← (← requireElement items closed 2).toFloat [.index 2]
  let points ← match ← element? items closed 3 with
    | some item => item.toNat [.index 3]
    | none => pure standardPoints
  let method ← match ← element? items closed 4 with
    | some item => item.toMethod [.index 4]
    | none => pure .standard
  if closed ∧ items.length ≤ 5 then return ⟨function, lower, upper, points, method⟩
  else throw .malformed

/-- The request that a value stands for. -/
def Reading.toRequest : Reading → Except Fault (Request Float)
  | .object members closed => do
    let draft ← readFields Draft.addMember Draft.empty members
    if closed then draft.finish else throw .malformed
  | .array items closed => requestOfItems items closed
  | value => .error (value.wrongType requestExpected [])

/-- The request at the start of a text, whatever follows it. -/
def requestAtStart (text : String) : Except Fault (Request Float) :=
  (read text).1.toRequest

/-- The request of a text that holds nothing else. -/
def requestOfText (text : String) : Except Fault (Request Float) :=
  ofText Reading.toRequest text

end DefiniteIntegral.Json
