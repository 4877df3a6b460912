import DefiniteIntegral.Integration.Request
import DefiniteIntegral.Json.Value

/-! Results and methods as JSON values. -/

namespace DefiniteIntegral

/-- A list of numbers as a JSON array. -/
def Json.numbers (xs : List Float) : Json.Value :=
  .array (xs.map .real)

/-- A number that may be absent. -/
def Json.optional : Option Float → Json.Value
  | some x => .real x
  | none => .null

/-- A result as a JSON object with all of its fields. -/
def Result.toJson (r : Result Float) : Json.Value :=
  .object [
    ("value", .real r.value),
    ("method", .string r.method.name),
    ("num_points", .natural r.points),
    ("x_values", Json.numbers r.xs),
    ("y_values", Json.numbers r.ys),
    ("error_estimate", Json.optional r.errorEstimate)]

/-- A method as a JSON object: how it is named, what it does and when it estimates its error. -/
def Method.toJson (m : Method) : Json.Value :=
  .object [
    ("name", .string m.name),
    ("description", .string m.description),
    ("min_points_for_error", .natural m.minPointsForError)]

end DefiniteIntegral
