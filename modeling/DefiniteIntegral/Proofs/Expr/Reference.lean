import DefiniteIntegral.Integration.Compute
import DefiniteIntegral.Proofs.Expr.Evaluation

/-! # The meaning of expressions

The value of a tree without any checks, and the nodes whose values have to be defined and finite.
Evaluation checks the nodes one after another, operands first, and then gives the value. Nothing is
assumed of the operations on numbers. -/

namespace DefiniteIntegral

variable {α : Type}

/-! ## Values and nodes -/

/-- The nodes of a tree from left to right, operands before what is applied to them. -/
def Expr.nodes : Expr α → List (Expr α)
  | .number value => [.number value]
  | .var => [.var]
  | .neg operand => operand.nodes ++ [.neg operand]
  | .binary operator left right => left.nodes ++ right.nodes ++ [.binary operator left right]
  | .call function argument => argument.nodes ++ [.call function argument]

variable [Elementary α]

/-- What the primitive operation of an operator returns, defined or not. -/
def BinaryOperator.primitive (operator : BinaryOperator) (l r : α) : α :=
  match operator with
  | .add => l + r
  | .sub => l - r
  | .mul => l * r
  | .div => l / r
  | .pow => Elementary.pow l r

/-- What the primitive operation of a function returns, defined or not. -/
def ElementaryFunction.primitive (function : ElementaryFunction) (a : α) : α :=
  match function with
  | .sin => Elementary.sin a
  | .cos => Elementary.cos a
  | .tan => Elementary.tan a
  | .exp => Elementary.exp a
  | .log => Elementary.log a
  | .sqrt => Arithmetic.sqrt a

namespace Expr

/-- What the primitive operations of a tree return at `x`, each applied to the values of its
operands. -/
def value (x : α) : Expr α → α
  | .number value => value
  | .var => x
  | .neg operand => -(operand.value x)
  | .binary operator left right => operator.primitive (left.value x) (right.value x)
  | .call function argument => function.primitive (argument.value x)

/-- A node that applies an operation outside its domain. The fault of a power with a base that is
zero goes before that of one with a negative base. -/
inductive OutsideDomain (x : α) : Expr α → EvalFault α → Prop
  | divisionByZero {left right : Expr α} (hr : Elementary.isZero (right.value x)) :
      OutsideDomain x (.binary .div left right) .divisionByZero
  | zeroToNegativePower {left right : Expr α} (hl : Elementary.isZero (left.value x))
      (hr : Elementary.lt (right.value x) Arithmetic.zero) :
      OutsideDomain x (.binary .pow left right) .zeroToNegativePower
  | negativeToFractionalPower {left right : Expr α}
      (hzero : ¬ (Elementary.isZero (left.value x) ∧
        Elementary.lt (right.value x) Arithmetic.zero))
      (hl : Elementary.lt (left.value x) Arithmetic.zero)
      (hr : ¬ Elementary.isWhole (right.value x)) :
      OutsideDomain x (.binary .pow left right) .negativeToFractionalPower
  | logOfNonPositive {argument : Expr α}
      (ha : Arithmetic.le (argument.value x) Arithmetic.zero) :
      OutsideDomain x (.call .log argument) (.logOfNonPositive (argument.value x))
  | sqrtOfNegative {argument : Expr α}
      (ha : Elementary.lt (argument.value x) Arithmetic.zero) :
      OutsideDomain x (.call .sqrt argument) (.sqrtOfNegative (argument.value x))

/-- Whether a node is defined and finite. -/
def IsSound (x : α) (node : Expr α) : Prop :=
  (∀ fault, ¬ node.OutsideDomain x fault) ∧ Arithmetic.isFinite (node.value x)

/-- The fault of a node: it is outside the domain, or it is inside and its value is not finite. -/
def Offends (x : α) (node : Expr α) (fault : EvalFault α) : Prop :=
  node.OutsideDomain x fault ∨
    (∀ other, ¬ node.OutsideDomain x other) ∧ ¬ Arithmetic.isFinite (node.value x) ∧
      fault = .notFinite

end Expr

/-! ## One node -/

theorem BinaryOperator.primitive_of_apply {operator : BinaryOperator} {l r found : α}
    (h : operator.apply l r = .ok found) : operator.primitive l r = found := by
  cases operator with
  | add => exact Except.ok.inj h
  | sub => exact Except.ok.inj h
  | mul => exact Except.ok.inj h
  | div =>
      rw [apply] at h
      split at h
      · cases h
      · exact Except.ok.inj h
  | pow =>
      rw [apply] at h
      split at h
      · cases h
      · split at h
        · cases h
        · exact Except.ok.inj h

theorem ElementaryFunction.primitive_of_apply {function : ElementaryFunction} {a found : α}
    (h : function.apply a = .ok found) : function.primitive a = found := by
  cases function with
  | sin => exact Except.ok.inj h
  | cos => exact Except.ok.inj h
  | tan => exact Except.ok.inj h
  | exp => exact Except.ok.inj h
  | log =>
      rw [apply] at h
      split at h
      · cases h
      · exact Except.ok.inj h
  | sqrt =>
      rw [apply] at h
      split at h
      · cases h
      · exact Except.ok.inj h

namespace Expr

variable {x : α} {node e : Expr α} {fault : EvalFault α}

/-- The last step of an evaluation: the operation of the root, applied to the values of its
operands. -/
def step (x : α) : Expr α → Except (EvalFault α) α
  | .number value => .ok value
  | .var => .ok x
  | .neg operand => .ok (-(operand.value x))
  | .binary operator left right => operator.apply (left.value x) (right.value x)
  | .call function argument => function.apply (argument.value x)

/-- The check of one node. -/
def check (x : α) (node : Expr α) : Except (EvalFault α) Unit :=
  node.step x >>= fun found => if Arithmetic.isFinite found then .ok () else .error .notFinite

theorem value_of_step {found : α} (h : node.step x = .ok found) : node.value x = found := by
  cases node with
  | number value => exact Except.ok.inj h
  | var => exact Except.ok.inj h
  | neg operand => exact Except.ok.inj h
  | binary operator left right => exact BinaryOperator.primitive_of_apply h
  | call function argument => exact ElementaryFunction.primitive_of_apply h

theorem OutsideDomain.step_eq (h : node.OutsideDomain x fault) : node.step x = .error fault := by
  cases h with
  | divisionByZero hr => simp [step, BinaryOperator.apply, hr]
  | zeroToNegativePower hl hr => simp [step, BinaryOperator.apply, hl, hr]
  | negativeToFractionalPower hzero hl hr =>
      rw [← Bool.and_eq_true_iff] at hzero
      simp [step, BinaryOperator.apply, hzero, hl, hr]
  | logOfNonPositive ha => simp [step, ElementaryFunction.apply, ha]
  | sqrtOfNegative ha => simp [step, ElementaryFunction.apply, ha]

theorem outsideDomain_of_step (h : node.step x = .error fault) : node.OutsideDomain x fault := by
  cases node with
  | number value => cases h
  | var => cases h
  | neg operand => cases h
  | binary operator left right =>
      cases operator with
      | add => cases h
      | sub => cases h
      | mul => cases h
      | div =>
          simp only [step, BinaryOperator.apply] at h
          split at h
          · rename_i hr
            cases h
            exact .divisionByZero hr
          · cases h
      | pow =>
          simp only [step, BinaryOperator.apply] at h
          split at h
          · rename_i hzero
            cases h
            obtain ⟨hl, hr⟩ := Bool.and_eq_true_iff.mp hzero
            exact .zeroToNegativePower hl hr
          · rename_i hzero
            split at h
            · rename_i hnegative
              cases h
              rw [Bool.and_eq_true_iff] at hzero
              obtain ⟨hl, hr⟩ := Bool.and_eq_true_iff.mp hnegative
              exact .negativeToFractionalPower hzero hl (by simpa using hr)
            · cases h
  | call function argument =>
      cases function with
      | sin => cases h
      | cos => cases h
      | tan => cases h
      | exp => cases h
      | log =>
          simp only [step, ElementaryFunction.apply] at h
          split at h
          · rename_i ha
            cases h
            exact .logOfNonPositive ha
          · cases h
      | sqrt =>
          simp only [step, ElementaryFunction.apply] at h
          split at h
          · rename_i ha
            cases h
            exact .sqrtOfNegative ha
          · cases h

theorem step_eq_error_iff : node.step x = .error fault ↔ node.OutsideDomain x fault :=
  ⟨outsideDomain_of_step, OutsideDomain.step_eq⟩

theorem step_eq_ok_iff {found : α} :
    node.step x = .ok found ↔
      (∀ fault, ¬ node.OutsideDomain x fault) ∧ node.value x = found := by
  constructor
  · intro h
    refine ⟨?_, value_of_step h⟩
    intro fault hfault
    rw [hfault.step_eq] at h
    cases h
  · rintro ⟨hdomain, rfl⟩
    cases hstep : node.step x with
    | error fault => exact absurd (outsideDomain_of_step hstep) (hdomain fault)
    | ok found => rw [value_of_step hstep]

theorem check_eq_ok_iff : node.check x = .ok () ↔ node.IsSound x := by
  simp only [check, bind_eq_ok_iff, step_eq_ok_iff, IsSound]
  constructor
  · rintro ⟨found, ⟨hdomain, rfl⟩, hfinite⟩
    exact ⟨hdomain, by simpa using hfinite⟩
  · rintro ⟨hdomain, hfinite⟩
    exact ⟨_, ⟨hdomain, rfl⟩, if_pos hfinite⟩

theorem check_eq_error_iff : node.check x = .error fault ↔ node.Offends x fault := by
  simp only [check, bind_eq_error_iff, step_eq_ok_iff, step_eq_error_iff, Offends]
  apply or_congr_right
  constructor
  · rintro ⟨found, ⟨hdomain, rfl⟩, hfinite⟩
    split at hfinite
    · cases hfinite
    · rename_i hnot
      exact ⟨hdomain, hnot, (Except.error.inj hfinite).symm⟩
  · rintro ⟨hdomain, hfinite, rfl⟩
    exact ⟨_, ⟨hdomain, rfl⟩, if_neg hfinite⟩

theorem step_bind_checkFinite (x : α) (node : Expr α) :
    node.step x >>= EvalFault.checkFinite = node.check x >>= fun _ => .ok (node.value x) := by
  rw [check]
  cases hstep : node.step x with
  | error fault => rfl
  | ok found =>
      rw [value_of_step hstep, ok_bind, ok_bind, EvalFault.checkFinite]
      split <;> rfl

/-! ## Whole trees -/

/-- Evaluation is the check of all nodes in their order. -/
theorem eval_eq_checks (x : α) (e : Expr α) :
    e.eval x = forM e.nodes (check x) >>= fun _ => .ok (e.value x) := by
  -- The operands come first on both sides, and what is left of the evaluation checks the root.
  induction e with
  | number value => simp [eval, nodes, ← step_bind_checkFinite, step]
  | var => simp [eval, nodes, ← step_bind_checkFinite, step]
  | neg operand ih => simp [eval, nodes, ← step_bind_checkFinite, step, ih]
  | binary operator left right ihl ihr =>
      simp [eval, nodes, ← step_bind_checkFinite, step, ihl, ihr]
  | call function argument ih => simp [eval, nodes, ← step_bind_checkFinite, step, ih]

theorem eval_eq_ok_iff {found : α} :
    e.eval x = .ok found ↔ (∀ node ∈ e.nodes, node.IsSound x) ∧ e.value x = found := by
  rw [eval_eq_checks, bind_eq_ok_iff]
  constructor
  · rintro ⟨⟨⟩, hchecks, hvalue⟩
    exact ⟨fun node hnode => check_eq_ok_iff.mp (forM_eq_ok_iff.mp hchecks node hnode),
      Except.ok.inj hvalue⟩
  · rintro ⟨hsound, rfl⟩
    exact ⟨(), forM_eq_ok_iff.mpr fun node hnode => check_eq_ok_iff.mpr (hsound node hnode), rfl⟩

theorem eval_eq_error_iff :
    e.eval x = .error fault ↔
      ∃ before node after, e.nodes = before ++ node :: after ∧
        (∀ earlier ∈ before, earlier.IsSound x) ∧ node.Offends x fault := by
  have hbind : e.eval x = .error fault ↔ forM e.nodes (check x) = .error fault := by
    rw [eval_eq_checks, bind_eq_error_iff]
    simp
  simp only [hbind, forM_eq_error_iff, check_eq_ok_iff, check_eq_error_iff]

end Expr

/-- A function has a value at a point exactly if every node of its tree is defined and finite there,
and then it is the value of the root. Otherwise the point is reported, with the fault of the first
node that has one. -/
theorem Integrand.at_eq_reference (f : Integrand α) (x : α) :
    (∀ value, f.at x = .ok value ↔
      (∀ node ∈ f.tree.nodes, node.IsSound x) ∧ f.tree.value x = value) ∧
    ∀ e, f.at x = .error e ↔
      ∃ before node after fault, f.tree.nodes = before ++ node :: after ∧
        (∀ earlier ∈ before, earlier.IsSound x) ∧ node.Offends x fault ∧
        e = .evaluation x fault := by
  constructor
  · intro value
    rw [Integrand.at, mapError_eq_ok_iff]
    exact Expr.eval_eq_ok_iff
  · intro e
    rw [Integrand.at, mapError_eq_error_iff]
    constructor
    · rintro ⟨fault, heval, rfl⟩
      obtain ⟨before, node, after, hnodes, hbefore, hnode⟩ := Expr.eval_eq_error_iff.mp heval
      exact ⟨before, node, after, fault, hnodes, hbefore, hnode, rfl⟩
    · rintro ⟨before, node, after, fault, hnodes, hbefore, hnode, rfl⟩
      exact ⟨fault, Expr.eval_eq_error_iff.mpr ⟨before, node, after, hnodes, hbefore, hnode⟩, rfl⟩

end DefiniteIntegral
