import DefiniteIntegral.Expr.Eval
import DefiniteIntegral.Proofs.Outcome

/-! # Values of expressions

Every value that an expression has is finite, and so is the point where it has one, if the
expression mentions the variable; otherwise the point makes no difference. Nothing is assumed of
the operations on numbers. -/

namespace DefiniteIntegral

variable {α : Type}

/-- Whether the variable occurs in a tree. -/
def Expr.mentionsVar : Expr α → Bool
  | .number _ => false
  | .var => true
  | .neg operand => operand.mentionsVar
  | .binary _ left right => left.mentionsVar || right.mentionsVar
  | .call _ argument => argument.mentionsVar

variable [Elementary α] {x value : α}

theorem EvalFault.checkFinite_eq_ok_iff {found : α} :
    checkFinite found = .ok value ↔ Arithmetic.isFinite found ∧ found = value := by
  unfold checkFinite
  split <;> simp_all

theorem Expr.eval_number (h : Arithmetic.isFinite value) :
    (Expr.number value).eval x = .ok value :=
  EvalFault.checkFinite_eq_ok_iff.mpr ⟨h, rfl⟩

theorem Expr.isFinite_of_eval {e : Expr α} (h : e.eval x = .ok value) :
    Arithmetic.isFinite value := by
  have hcheck : ∃ found : α, EvalFault.checkFinite found = .ok value := by
    cases e with
    | number found => exact ⟨found, h⟩
    | var => exact ⟨x, h⟩
    | neg operand =>
        obtain ⟨a, -, h⟩ := bind_eq_ok_iff.mp h
        exact ⟨-a, h⟩
    | binary operator left right =>
        obtain ⟨l, -, h⟩ := bind_eq_ok_iff.mp h
        obtain ⟨r, -, h⟩ := bind_eq_ok_iff.mp h
        obtain ⟨found, -, h⟩ := bind_eq_ok_iff.mp h
        exact ⟨found, h⟩
    | call function argument =>
        obtain ⟨a, -, h⟩ := bind_eq_ok_iff.mp h
        obtain ⟨found, -, h⟩ := bind_eq_ok_iff.mp h
        exact ⟨found, h⟩
  obtain ⟨found, hfound⟩ := hcheck
  obtain ⟨hfinite, rfl⟩ := EvalFault.checkFinite_eq_ok_iff.mp hfound
  exact hfinite

/-- An expression that mentions the variable has values only at finite points. -/
theorem Expr.isFinite_of_mentionsVar {e : Expr α} (hvar : e.mentionsVar)
    (h : e.eval x = .ok value) : Arithmetic.isFinite x := by
  induction e generalizing value with
  | number => cases hvar
  | var => exact (EvalFault.checkFinite_eq_ok_iff.mp h).1
  | neg operand ih =>
      obtain ⟨a, ha, -⟩ := bind_eq_ok_iff.mp h
      exact ih hvar ha
  | binary operator left right ihl ihr =>
      obtain ⟨l, hl, h⟩ := bind_eq_ok_iff.mp h
      obtain ⟨r, hr, -⟩ := bind_eq_ok_iff.mp h
      rcases Bool.or_eq_true_iff.mp hvar with hvar | hvar
      · exact ihl hvar hl
      · exact ihr hvar hr
  | call function argument ih =>
      obtain ⟨a, ha, -⟩ := bind_eq_ok_iff.mp h
      exact ih hvar ha

/-- An expression that does not mention the variable has one outcome, value or fault, at all
points. -/
theorem Expr.eval_eq_of_not_mentionsVar {e : Expr α} (hvar : e.mentionsVar = false) (x y : α) :
    e.eval x = e.eval y := by
  induction e with
  | number value => rfl
  | var => cases hvar
  | neg operand ih => simp only [eval, ih hvar]
  | binary operator left right ihl ihr =>
      obtain ⟨hleft, hright⟩ := Bool.or_eq_false_iff.mp hvar
      simp only [eval, ihl hleft, ihr hright]
  | call function argument ih => simp only [eval, ih hvar]

end DefiniteIntegral
