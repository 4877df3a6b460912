import DefiniteIntegral.Json.ResultText
import DefiniteIntegral.Output.Record
import DefiniteIntegral.Proofs.Json.Requests
import DefiniteIntegral.Proofs.Json.Writing

/-! # Results as JSON texts

A result is read back from the JSON text that it is written as, in either form, if every single
number of it is. -/

namespace DefiniteIntegral

namespace Json

/-! ## Fields -/

section Fields

variable {x : Float} {value : Reading} {path : List Step}

/-- Whether a floating-point number is read back from the JSON text that it is written as. -/
def Survives (x : Float) : Prop :=
  floatOfText (Layout.json.write x) = .ok x

theorem Survives.toFloat_eq (h : Survives x) (path : List Step) :
    (Value.real x).reading.toFloat path = .ok x := by
  obtain ⟨tree, htree⟩ := exists_isValue_real x
  rw [Survives, floatOfText, (isText_of_isValue htree).ofText_eq] at h
  rw [Value.reading, htree.read_eq]
  exact toFloat_congr h path

/-- Only finite numbers are written as numbers. -/
theorem Survives.isFinite (h : Survives x) : x.isFinite := by
  by_contra hx
  have hnull := h.toFloat_eq []
  rw [Value.reading, write_of_not_isFinite hx] at hnull
  cases hnull

theorem toOptionalFloat_of_toFloat (h : value.toFloat path = .ok x) :
    value.toOptionalFloat path = .ok (some x) := by
  unfold Reading.toOptionalFloat
  split
  · cases h
  · rw [h]
    rfl

theorem toOptionalFloat_optional {estimate : Option Float} (h : ∀ x ∈ estimate, Survives x)
    (path : List Step) : (optional estimate).reading.toOptionalFloat path = .ok estimate := by
  cases estimate with
  | none => rfl
  | some x => exact toOptionalFloat_of_toFloat ((h x rfl).toFloat_eq path)

theorem floatsOfItems_numbers {xs : List Float} (h : ∀ x ∈ xs, Survives x) (path : List Step)
    (n : Nat) : floatsOfItems path n (valueReadings (xs.map .real)) = .ok xs := by
  induction xs generalizing n with
  | nil => rfl
  | cons x xs ih =>
      obtain ⟨hx, hxs⟩ := List.forall_mem_cons.mp h
      rw [List.map_cons, valueReadings, floatsOfItems, hx.toFloat_eq, ok_bind, ih hxs, ok_bind]
      rfl

theorem toFloats_numbers {xs : List Float} (h : ∀ x ∈ xs, Survives x) (path : List Step) :
    (numbers xs).reading.toFloats path = .ok xs := by
  rw [numbers, Value.reading, Reading.toFloats, floatsOfItems_numbers h]
  rfl

theorem reading_natural {n : Nat} (h : n < UInt64.size) :
    (Value.natural n).reading = .number (some (.natural n)) := by
  have hdigits := Toml.valueOfDigits_toDigits n
  rw [Value.reading, (isValue_natural n).read_eq, Tree.reading, value?_digits (hdigits.trans_lt h),
    hdigits]

theorem toNat_natural {n : Nat} (h : n < UInt64.size) (path : List Step) :
    (Value.natural n).reading.toNat path = .ok n := by
  rw [reading_natural h]
  rfl

theorem toMethod_name (m : Method) (path : List Step) :
    (Value.string m.name).reading.toMethod path = .ok m :=
  methodOfName_name m path

end Fields

end Json

/-! ## Results -/

namespace Result

open Json

variable {r : Result Float}

/-- Whether every number of a result is read back from the JSON text that it is written as. The
number of points has to fit 64 bits. -/
structure Survives (r : Result Float) : Prop where
  points : r.points < UInt64.size
  value : Json.Survives r.value
  xs : ∀ x ∈ r.xs, Json.Survives x
  ys : ∀ y ∈ r.ys, Json.Survives y
  errorEstimate : ∀ estimate ∈ r.errorEstimate, Json.Survives estimate

theorem reading_toJson (r : Result Float) :
    r.toJson.reading = .object [
      (.string (some "value"), (Value.real r.value).reading),
      (.string (some "method"), (Value.string r.method.name).reading),
      (.string (some "num_points"), (Value.natural r.points).reading),
      (.string (some "x_values"), (numbers r.xs).reading),
      (.string (some "y_values"), (numbers r.ys).reading),
      (.string (some "error_estimate"), (Json.optional r.errorEstimate).reading)] true :=
  rfl

theorem Survives.toResult_eq (h : r.Survives) : r.toJson.reading.toResult = .ok r := by
  rw [reading_toJson]
  simp [Reading.toResult, readFields, ResultDraft.addMember, ResultDraft.empty, ResultDraft.finish,
    requireField, freshField_none _ (h.value.toFloat_eq _),
    freshField_none _ (toMethod_name r.method _), freshField_none _ (toNat_natural h.points _),
    freshField_none _ (toFloats_numbers h.xs _), freshField_none _ (toFloats_numbers h.ys _),
    freshField_none _ (toOptionalFloat_optional h.errorEstimate _)]

end Result

end DefiniteIntegral
