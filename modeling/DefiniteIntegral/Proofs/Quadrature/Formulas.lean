import DefiniteIntegral.Proofs.Quadrature.Draws
import DefiniteIntegral.Proofs.Quadrature.Estimates
import Mathlib

/-! # The error formulas

The error estimates as they are specified, with the width of a step in them, and as the width of the
interval times a factor that is never negative. The rules cancel the width of a step, so that they
have an estimate on an interval without width too: zero. -/

namespace DefiniteIntegral

variable {σ ε : Type}

/-! ## Differences of samples -/

section Differences

variable (sqrt : ℚ → ℚ) {ys : List ℚ}

theorem exists_secondDifference (h : 3 ≤ ys.length) :
    ∃ y₀ y₁ y₂ rest, ys = y₀ :: y₁ :: y₂ :: rest ∧
      @secondDifference ℚ (.exact sqrt) ys h = |y₂ - 2 * y₁ + y₀| := by
  match ys, h with
  | y₀ :: y₁ :: y₂ :: rest, h => exact ⟨y₀, y₁, y₂, rest, rfl, rfl⟩

theorem exists_fourthDifference (h : 5 ≤ ys.length) :
    ∃ y₀ y₁ y₂ y₃ y₄ rest, ys = y₀ :: y₁ :: y₂ :: y₃ :: y₄ :: rest ∧
      @fourthDifference ℚ (.exact sqrt) ys h = |y₄ - 4 * y₃ + 6 * y₂ - 4 * y₁ + y₀| := by
  match ys, h with
  | y₀ :: y₁ :: y₂ :: y₃ :: y₄ :: rest, h => exact ⟨y₀, y₁, y₂, y₃, y₄, rest, rfl, rfl⟩

end Differences

/-- The width of a step cancels against the powers of the width `w` of the interval. -/
theorem div_step_pow {w s : ℚ} (hw : w ≠ 0) (hs : s ≠ 0) {k : ℕ} (hk : Even k) (d c : ℚ) :
    |w| ^ (k + 1) * d / (w / s) ^ k / c = |w| * (s ^ k * d / c) := by
  rw [pow_succ, hk.pow_abs, div_pow]
  field_simp

/-! ## Rules -/

namespace Quadrature

variable (sqrt : ℚ → ℚ) {f : ℚ → Except ε ℚ} {a b estimate : ℚ} {n : ℕ} {q : Quadrature ℚ}

theorem trapezoidal_estimate {hn : 2 ≤ n} (h : @trapezoidal ℚ ε (.exact sqrt) f a b n hn = .ok q)
    (hestimate : q.errorEstimate = some estimate) :
    2 < n ∧ ∃ y₀ y₁ y₂ rest, q.ys = y₀ :: y₁ :: y₂ :: rest ∧
      estimate = |b - a| * (((n : ℚ) - 1) ^ 2 * |y₂ - 2 * y₁ + y₀| / (12 * n ^ 2)) := by
  let := Arithmetic.exact sqrt
  have hformula := errorEstimate_trapezoidal h
  rw [hestimate] at hformula
  split at hformula
  · rename_i enough
    have hlength : 3 ≤ q.ys.length := by rwa [length_ys_trapezoidal h]
    obtain ⟨y₀, y₁, y₂, rest, hys, hdifference⟩ := exists_secondDifference sqrt hlength
    refine ⟨enough, y₀, y₁, y₂, rest, hys, (Option.some.inj hformula).trans ?_⟩
    rw [hdifference, Nat.cast_pred (Nat.zero_lt_of_lt enough)]
    change |b - a| * ((n : ℚ) - 1) * ((n : ℚ) - 1) * _ / (12 * (n : ℚ) * n) = _
    ring
  · cases hformula

theorem simpson_estimate {hn : 2 ≤ n} (h : @simpson ℚ ε (.exact sqrt) f a b n hn = .ok q)
    (hestimate : q.errorEstimate = some estimate) :
    ∃ y₀ y₁ y₂ y₃ y₄ rest, q.ys = y₀ :: y₁ :: y₂ :: y₃ :: y₄ :: rest ∧
      estimate = |b - a| * (((oddCount n : ℚ) - 1) ^ 4 *
        |y₄ - 4 * y₃ + 6 * y₂ - 4 * y₁ + y₀| / (180 * (oddCount n : ℚ) ^ 4)) := by
  let := Arithmetic.exact sqrt
  have hformula := errorEstimate_simpson h
  rw [hestimate] at hformula
  split at hformula
  · rename_i enough
    have hlength : 5 ≤ q.ys.length := by rwa [length_ys_simpson h]
    obtain ⟨y₀, y₁, y₂, y₃, y₄, rest, hys, hdifference⟩ := exists_fourthDifference sqrt hlength
    refine ⟨y₀, y₁, y₂, y₃, y₄, rest, hys, (Option.some.inj hformula).trans ?_⟩
    rw [hdifference, Nat.cast_pred (Nat.zero_lt_of_lt enough)]
    simp only [Arithmetic.fourthPower, Arithmetic.square]
    change |b - a| * _ * _ / (180 * _) = _
    ring
  · cases hformula

theorem midpoint_estimate (h : @midpoint ℚ ε (.exact sqrt) f a b n = .ok q)
    (hestimate : q.errorEstimate = some estimate) :
    2 < n ∧ ∃ y₀ y₁ y₂ rest, q.ys = y₀ :: y₁ :: y₂ :: rest ∧
      estimate = |b - a| * ((n : ℚ) ^ 2 * |y₂ - 2 * y₁ + y₀| / (24 * n ^ 2)) := by
  let := Arithmetic.exact sqrt
  have hformula := errorEstimate_midpoint h
  rw [hestimate] at hformula
  split at hformula
  · rename_i enough
    have hlength : 3 ≤ q.ys.length := by rw [length_ys_midpoint h]; omega
    have hne : (n : ℚ) ≠ 0 := Nat.cast_ne_zero.mpr (Nat.ne_zero_of_lt enough)
    obtain ⟨y₀, y₁, y₂, rest, hys, hdifference⟩ := exists_secondDifference sqrt hlength
    refine ⟨enough, y₀, y₁, y₂, rest, hys, (Option.some.inj hformula).trans ?_⟩
    rw [hdifference]
    change |b - a| * _ / 24 = _
    field_simp
  · cases hformula

/-- Sorting keeps the sum of the values and of the squares of their deviations. -/
theorem monteCarlo_estimate {draws : List ℚ}
    (h : @monteCarlo ℚ ε (.exact sqrt) f a b n draws = .ok q)
    (hestimate : q.errorEstimate = some estimate) :
    estimate = |b - a| *
      (sqrt ((q.ys.map fun y => (y - q.ys.sum / n) ^ 2).sum / n) / sqrt n) := by
  let := Arithmetic.exact sqrt
  obtain ⟨values, hvalues, hsorted, -, hformula⟩ := monteCarlo_isSorted (fun x y : ℚ => rfl) h
  have hys : (q.xs.zip q.ys).map Prod.snd = q.ys := List.map_snd_zip hsorted.length_eq.ge
  have hvaluesEq : ((draws.map (drawnPoint a b)).zip values).map Prod.snd = values :=
    List.map_snd_zip hvalues.length_eq.ge
  have hperm : q.ys.Perm values := by
    rw [← hys, ← hvaluesEq]
    exact hsorted.perm.map Prod.snd
  rw [hestimate] at hformula
  refine (Option.some.inj hformula).trans ?_
  simp only [Arithmetic.sum_exact, Arithmetic.square, ← hperm.sum_eq, ← sq]
  rw [(hperm.map _).sum_eq]
  exact mul_div_assoc ..

end Quadrature

/-! ## Methods -/

namespace Method

/-- Whether an estimate is the one that a method on `n` points is specified to give for its samples.
The power of the width over that of a step leaves the width of the interval once. -/
def IsSpecifiedEstimate (sqrt : ℚ → ℚ) (a b : ℚ) (n : ℕ) (ys : List ℚ) (estimate : ℚ) :
    Method → Prop
  | trapezoidal =>
    let h := (b - a) / (n - 1)
    ∃ y₀ y₁ y₂ rest, ys = y₀ :: y₁ :: y₂ :: rest ∧
      estimate = |b - a| ^ 3 * |y₂ - 2 * y₁ + y₀| / h ^ 2 / (12 * n ^ 2)
  | simpson =>
    let count : ℚ := Quadrature.oddCount n
    let h := (b - a) / (count - 1)
    ∃ y₀ y₁ y₂ y₃ y₄ rest, ys = y₀ :: y₁ :: y₂ :: y₃ :: y₄ :: rest ∧
      estimate = |b - a| ^ 5 * |y₄ - 4 * y₃ + 6 * y₂ - 4 * y₁ + y₀| / h ^ 4 / (180 * count ^ 4)
  | midpoint =>
    let h := (b - a) / n
    ∃ y₀ y₁ y₂ rest, ys = y₀ :: y₁ :: y₂ :: rest ∧
      estimate = |b - a| ^ 3 * |y₂ - 2 * y₁ + y₀| / h ^ 2 / (24 * n ^ 2)
  | monteCarlo =>
    let mean : ℚ := ys.sum / n
    let variance : ℚ := (ys.map fun y => (y - mean) ^ 2).sum / n
    estimate = |b - a| * sqrt variance / sqrt n

section Specified

variable (function : ElementaryFunction → ℚ → ℚ) (pow : ℚ → ℚ → ℚ) (pi e : ℚ) {method : Method}
  {f : ℚ → Except (Error ℚ) ℚ} {a b estimate : ℚ} {n : ℕ} {q : Quadrature ℚ}
  (supply : Supplier σ ℚ) (s : σ)

/-- The estimate of a run: the specified one, and the width of the interval times a factor. -/
theorem estimate_of_integrate (hsqrt : method = .monteCarlo → ∀ x, 0 ≤ function .sqrt x) :
    letI := Elementary.exact function pow pi e
    ((method.integrate f a b n supply).run s).1 = .ok q → q.errorEstimate = some estimate →
      (a ≠ b → method.IsSpecifiedEstimate (function .sqrt) a b n q.ys estimate) ∧
        ∃ factor, 0 ≤ factor ∧ estimate = |b - a| * factor := by
  let := Elementary.exact function pow pi e
  intro h hestimate
  cases yields_of_integrate h with
  | trapezoidal hn hrule =>
      obtain ⟨enough, y₀, y₁, y₂, rest, hys, rfl⟩ :=
        Quadrature.trapezoidal_estimate (function .sqrt) hrule hestimate
      refine ⟨fun hab => ⟨y₀, y₁, y₂, rest, hys, ?_⟩, _, by positivity, rfl⟩
      have hsteps : (n : ℚ) - 1 ≠ 0 := by
        rw [← Nat.cast_pred (Nat.zero_lt_of_lt enough), Nat.cast_ne_zero]
        omega
      exact (div_step_pow (sub_ne_zero.mpr hab.symm) hsteps even_two _ _).symm
  | simpson hn hrule =>
      obtain ⟨y₀, y₁, y₂, y₃, y₄, rest, hys, rfl⟩ :=
        Quadrature.simpson_estimate (function .sqrt) hrule hestimate
      refine ⟨fun hab => ⟨y₀, y₁, y₂, y₃, y₄, rest, hys, ?_⟩, _, by positivity, rfl⟩
      have hcount : 2 ≤ Quadrature.oddCount n := Quadrature.two_le_oddCount hn
      have hsteps : (Quadrature.oddCount n : ℚ) - 1 ≠ 0 := by
        rw [← Nat.cast_pred (Nat.zero_lt_of_lt hcount), Nat.cast_ne_zero]
        omega
      exact (div_step_pow (sub_ne_zero.mpr hab.symm) hsteps (by decide) _ _).symm
  | midpoint hn hrule =>
      obtain ⟨enough, y₀, y₁, y₂, rest, hys, rfl⟩ :=
        Quadrature.midpoint_estimate (function .sqrt) hrule hestimate
      refine ⟨fun hab => ⟨y₀, y₁, y₂, rest, hys, ?_⟩, _, by positivity, rfl⟩
      have hcells : (n : ℚ) ≠ 0 := Nat.cast_ne_zero.mpr (Nat.ne_zero_of_lt enough)
      exact (div_step_pow (sub_ne_zero.mpr hab.symm) hcells even_two _ _).symm
  | monteCarlo hn draws hdraws hrule =>
      obtain rfl := Quadrature.monteCarlo_estimate (function .sqrt) hrule hestimate
      exact ⟨fun _ => (mul_div_assoc ..).symm, _,
        div_nonneg (hsqrt rfl _) (hsqrt rfl _), rfl⟩

/-- In exact arithmetic the error estimates are the specified ones wherever the interval has a
width; none is negative, and all are zero on an interval without width. The square root in Monte
Carlo can be any function that is never negative. -/
theorem integrate_specified_estimate (method : Method) (f : ℚ → Except (Error ℚ) ℚ) (a b : ℚ)
    (n : ℕ) (hn : method.minPoints ≤ n) (hsqrt : method = .monteCarlo → ∀ x, 0 ≤ function .sqrt x)
    (supply : Supplier σ ℚ) (s : σ) (draws : List ℚ)
    (hdraws : method = .monteCarlo → ((supply n).run s).1 = .ok draws) :
    letI := Elementary.exact function pow pi e
    (∀ x ∈ method.nodes a b n draws, ∃ y, f x = .ok y) →
      ∃ q, ((method.integrate f a b n supply).run s).1 = .ok q ∧
        (q.errorEstimate.isSome ↔ method.minPointsForError ≤ n ∨ method = .simpson ∧ n = 4) ∧
        ∀ estimate ∈ q.errorEstimate,
          (a ≠ b → method.IsSpecifiedEstimate (function .sqrt) a b n q.ys estimate) ∧
          0 ≤ estimate ∧ (a = b → estimate = 0) := by
  let := Elementary.exact function pow pi e
  intro hdefined
  obtain ⟨q, hq⟩ := (exists_integrate_eq_ok_iff supply s hn hdraws).mpr hdefined
  refine ⟨q, hq, isSome_errorEstimate supply s hq, fun estimate hestimate => ?_⟩
  obtain ⟨hspecified, factor, hfactor, rfl⟩ :=
    estimate_of_integrate function pow pi e supply s hsqrt hq hestimate
  refine ⟨hspecified, mul_nonneg (abs_nonneg _) hfactor, ?_⟩
  rintro rfl
  rw [sub_self, abs_zero, zero_mul]

end Specified

/-- Simpson's rule asked for four points between falling bounds, and Monte Carlo on an interval
without width. -/
theorem integrate_specified_estimate_falling :
    letI := Elementary.exact (fun _ x => |x|) (fun x _ => x) 3 3
    let supply : Supplier Unit ℚ := fun _ => pure [3 / 4, 1 / 4]
    (∃ q estimate,
      ((simpson.integrate (fun x => .ok (x * x * x * x)) 2 0 4 supply).run ()).1 = .ok q ∧
      q.errorEstimate = some estimate ∧
      simpson.IsSpecifiedEstimate (fun x => |x|) 2 0 4 q.ys estimate) ∧
    ∃ q, ((monteCarlo.integrate (fun x => .ok (x * x)) 2 2 2 supply).run ()).1 = .ok q ∧
      q.errorEstimate = some 0 := by
  intro supply
  constructor
  · obtain ⟨q, hq, hsome, hestimate⟩ := integrate_specified_estimate (fun _ x => |x|)
      (fun x _ => x) 3 3 simpson (fun x => .ok (x * x * x * x)) 2 0 4 (by decide) nofun supply ()
      [] nofun fun x _ => ⟨_, rfl⟩
    obtain ⟨estimate, hmem⟩ := Option.isSome_iff_exists.mp (hsome.mpr (.inr ⟨rfl, rfl⟩))
    exact ⟨q, estimate, hq, hmem, (hestimate estimate hmem).1 (by norm_num)⟩
  · obtain ⟨q, hq, hsome, hestimate⟩ := integrate_specified_estimate (fun _ x => |x|)
      (fun x _ => x) 3 3 monteCarlo (fun x => .ok (x * x)) 2 2 2 (by decide)
      (fun _ => abs_nonneg) supply () [3 / 4, 1 / 4] (fun _ => rfl) fun x _ => ⟨_, rfl⟩
    obtain ⟨estimate, hmem⟩ := Option.isSome_iff_exists.mp (hsome.mpr (.inl (by decide)))
    obtain ⟨-, -, hzero⟩ := hestimate estimate hmem
    exact ⟨q, hq, by rw [hmem, hzero rfl]⟩

end Method

end DefiniteIntegral
