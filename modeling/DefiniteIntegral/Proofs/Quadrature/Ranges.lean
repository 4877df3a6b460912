import DefiniteIntegral.Proofs.Integration.Outcomes
import DefiniteIntegral.Proofs.Integration.Soundness
import DefiniteIntegral.Proofs.Quadrature.Estimates
import Mathlib

/-! # Ranges

The rules once more, on counts that are machine words and with positions that can lie outside of a
list: an operation that leaves its range ends the computation without any outcome. No method ends so
on a number of points below the greatest word, and what it comes to is the same. Making a list is
not among the operations with a range: whether there is memory for one is left out. -/

namespace DefiniteIntegral

variable {σ α β γ ε : Type}

/-- A computation that comes to an outcome, or to none if an operation in it leaves its range. -/
abbrev Ranged (ε α : Type) := ExceptT ε Option α

namespace Ranged

/-! ## Operations -/

/-- No outcome. -/
def outOfRange : Ranged ε α :=
  ExceptT.mk none

/-- A computation that stays in range. -/
def ofExcept (outcome : Except ε α) : Ranged ε α :=
  ExceptT.mk (some outcome)

/-- The sum of two words. -/
def add (m k : ℕ) : Ranged ε ℕ :=
  if m + k < 2 ^ 64 then pure (m + k) else outOfRange

/-- The difference of two words. -/
def sub (m k : ℕ) : Ranged ε ℕ :=
  if k ≤ m then pure (m - k) else outOfRange

/-- The value at a position. -/
def get (xs : List α) (i : ℕ) : Ranged ε α :=
  if h : i < xs.length then pure xs[i] else outOfRange

/-- A list with another value at a position. -/
def set (xs : List α) (i : ℕ) (x : α) : Ranged ε (List α) :=
  if i < xs.length then pure (xs.set i x) else outOfRange

/-- The values from position `first` up to, and without, position `stop`. -/
def slice (xs : List α) (first stop : ℕ) : Ranged ε (List α) :=
  if first ≤ stop ∧ stop ≤ xs.length then pure ((xs.take stop).drop first) else outOfRange

theorem add_eq {m k : ℕ} (h : m + k < 2 ^ 64) : (add m k : Ranged ε ℕ) = pure (m + k) :=
  if_pos h

theorem sub_eq {m k : ℕ} (h : k ≤ m) : (sub m k : Ranged ε ℕ) = pure (m - k) :=
  if_pos h

theorem get_eq {xs : List α} {i : ℕ} (h : i < xs.length) : (get xs i : Ranged ε α) = pure xs[i] :=
  dif_pos h

theorem set_eq {xs : List α} {i : ℕ} (h : i < xs.length) (x : α) :
    (set xs i x : Ranged ε (List α)) = pure (xs.set i x) :=
  if_pos h

theorem slice_eq {xs : List α} {first stop : ℕ} (h : first ≤ stop ∧ stop ≤ xs.length) :
    (slice xs first stop : Ranged ε (List α)) = pure (DefiniteIntegral.slice xs first stop h) :=
  if_pos h

theorem ofExcept_bind (outcome : Except ε α) (f : α → Except ε β) :
    ofExcept (outcome >>= f) = ofExcept outcome >>= fun a => ofExcept (f a) := by
  cases outcome with
  | error fault => rfl
  | ok a => rfl

theorem mapM_ofExcept (f : α → Except ε α) (xs : List α) :
    xs.mapM (fun x => ofExcept (f x)) = ofExcept (sample f xs) >>= fun ys => pure ys.1 := by
  induction xs with
  | nil => rfl
  | cons x xs ih =>
      rw [List.mapM_cons, ih, sample, ofExcept_bind, bind_assoc]
      refine bind_congr fun y => ?_
      rw [ofExcept_bind, bind_assoc, bind_assoc]
      refine bind_congr fun ys => ?_
      rw [pure_bind]
      rfl

/-! ## Rules -/

section Rules

open Arithmetic

variable [Arithmetic α]

/-- `n` evenly spaced points; the last one is overwritten. -/
def grid (start stop : α) (n : ℕ) : Ranged ε (List α) :=
  match n with
  | 0 => pure []
  | 1 => pure [start]
  | n => do
    let step := (stop - start) / ((← sub n 1 : ℕ) : α)
    let points := (List.range n).map fun (i : ℕ) => start + (i : α) * step
    set points (← sub n 1) stop

/-- The second difference of the first three values, without its sign. -/
def secondDifference (ys : List α) : Ranged ε α := do
  return abs ((← get ys 2) - ((2 : ℕ) : α) * (← get ys 1) + (← get ys 0))

/-- The fourth difference of the first five values, without its sign. -/
def fourthDifference (ys : List α) : Ranged ε α := do
  return abs ((← get ys 4) - ((4 : ℕ) : α) * (← get ys 3) + ((6 : ℕ) : α) * (← get ys 2) -
    ((4 : ℕ) : α) * (← get ys 1) + (← get ys 0))

/-- The least odd number that is no less than `n`. -/
def oddCount (n : ℕ) : Ranged ε ℕ :=
  if n % 2 = 0 then add n 1 else pure n

/-- The trapezoidal rule. -/
def trapezoidal (f : α → Ranged ε α) (a b : α) (n : ℕ) : Ranged ε (Quadrature α) := do
  let xs ← grid a b n
  let ys ← xs.mapM f
  let h := (b - a) / ((← sub n 1 : ℕ) : α)
  let interior := sum (← slice ys 1 (← sub n 1))
  let value := h * (half * (← get ys 0) + interior + half * (← get ys (← sub n 1)))
  let errorEstimate ←
    if 2 < n then do
      let steps : α := ((← sub n 1 : ℕ) : α)
      pure (some (abs (b - a) * steps * steps * (← secondDifference ys) /
        (((12 : ℕ) : α) * (n : α) * (n : α))))
    else pure none
  return { value, xs, ys, errorEstimate }

/-- Simpson's rule; the number of points is made odd first. -/
def simpson (f : α → Ranged ε α) (a b : α) (n : ℕ) : Ranged ε (Quadrature α) := do
  let n ← oddCount n
  let xs ← grid a b n
  let ys ← xs.mapM f
  let h := (b - a) / ((← sub n 1 : ℕ) : α)
  let odd := sum (everyOther (← slice ys 1 (← sub n 1)))
  let even := sum (everyOther (← slice ys 2 (← sub n 1)))
  let value := h / ((3 : ℕ) : α) *
    ((← get ys 0) + (← get ys (← sub n 1)) + ((4 : ℕ) : α) * odd + ((2 : ℕ) : α) * even)
  let errorEstimate ←
    if 4 < n then do
      let steps : α := fourthPower ((← sub n 1 : ℕ) : α)
      pure (some (abs (b - a) * steps * (← fourthDifference ys) /
        (((180 : ℕ) : α) * fourthPower (n : α))))
    else pure none
  return { value, xs, ys, errorEstimate }

/-- The midpoint rule. -/
def midpoint (f : α → Ranged ε α) (a b : α) (n : ℕ) : Ranged ε (Quadrature α) := do
  let h := (b - a) / (n : α)
  let middles ← (midpoints a b n).mapM f
  let value := h * sum middles
  let xs ← grid a b (← add n 1)
  let ys ← xs.mapM f
  let errorEstimate ←
    if 2 < n then do
      pure (some (abs (b - a) * (← secondDifference ys) / ((24 : ℕ) : α)))
    else pure none
  return { value, xs, ys, errorEstimate }

/-- The Monte Carlo estimate. No operation in it has a range. -/
def monteCarlo (f : α → Ranged ε α) (a b : α) (n : ℕ) (draws : List α) :
    Ranged ε (Quadrature α) := do
  let points := draws.map (Quadrature.drawnPoint a b)
  let values ← points.mapM f
  let count : α := (n : α)
  let mean := sum values / count
  let variance := sum (values.map fun v => square (v - mean)) / count
  let samples := (points.zip values).mergeSort fun p q => precedes p.1 q.1
  return {
    value := (b - a) * mean
    xs := samples.map Prod.fst
    ys := samples.map Prod.snd
    errorEstimate := some (abs (b - a) * sqrt variance / sqrt count) }

variable {f : α → Except ε α} {a b : α} {n : ℕ}

theorem grid_eq (start stop : α) (n : ℕ) :
    (grid start stop n : Ranged ε (List α)) = pure (DefiniteIntegral.grid start stop n) := by
  match n with
  | 0 => rfl
  | 1 => rfl
  | n + 2 =>
    have hone : 1 ≤ n + 2 := Nat.le_add_left ..
    have hlast : (n + 2 - 1) < ((List.range (n + 2)).map fun (i : ℕ) =>
        start + (i : α) * ((stop - start) / ((n + 2 - 1 : ℕ) : α))).length := by
      simp
    simp only [grid, sub_eq hone, pure_bind, set_eq hlast]
    congr 1
    simp [DefiniteIntegral.grid, List.range_succ (n := n + 1)]

theorem secondDifference_eq {ys : List α} (h : 3 ≤ ys.length) :
    (secondDifference ys : Ranged ε α) = pure (DefiniteIntegral.secondDifference ys h) := by
  have hsecond : 1 < ys.length := Nat.lt_of_succ_lt h
  have hfirst : 0 < ys.length := Nat.lt_of_succ_lt hsecond
  simp only [secondDifference, get_eq h, get_eq hsecond, get_eq hfirst, pure_bind]
  rfl

theorem fourthDifference_eq {ys : List α} (h : 5 ≤ ys.length) :
    (fourthDifference ys : Ranged ε α) = pure (DefiniteIntegral.fourthDifference ys h) := by
  have hfourth : 3 < ys.length := Nat.lt_of_succ_lt h
  have hthird : 2 < ys.length := Nat.lt_of_succ_lt hfourth
  have hsecond : 1 < ys.length := Nat.lt_of_succ_lt hthird
  have hfirst : 0 < ys.length := Nat.lt_of_succ_lt hsecond
  simp only [fourthDifference, get_eq h, get_eq hfourth, get_eq hthird, get_eq hsecond,
    get_eq hfirst, pure_bind]
  rfl

/-- An even word below the greatest one has a successor. -/
theorem oddCount_eq (hword : n < 2 ^ 64 - 1) :
    (oddCount n : Ranged ε ℕ) = pure (Quadrature.oddCount n) := by
  rw [oddCount, Quadrature.oddCount]
  split
  · exact add_eq (by omega)
  · rfl

theorem trapezoidal_eq (hn : 2 ≤ n) :
    trapezoidal (fun x => ofExcept (f x)) a b n = ofExcept (Quadrature.trapezoidal f a b n hn) := by
  rw [trapezoidal, grid_eq, pure_bind, mapM_ofExcept, bind_assoc, Quadrature.trapezoidal,
    ofExcept_bind]
  refine bind_congr ?_
  rintro ⟨ys, hys⟩
  have hlength : ys.length = n := by simpa using hys
  have hone : 1 ≤ n := Nat.one_le_of_lt hn
  have hinner : 1 ≤ n - 1 ∧ n - 1 ≤ ys.length := by omega
  have hfirst : 0 < ys.length := by omega
  have hlast : n - 1 < ys.length := by omega
  simp only [pure_bind, sub_eq hone, slice_eq hinner, get_eq hfirst, get_eq hlast]
  by_cases enough : 2 < n
  · have hthree : 3 ≤ ys.length := by omega
    simp only [if_pos enough, dif_pos enough, secondDifference_eq hthree, pure_bind]
    rfl
  · simp only [if_neg enough, dif_neg enough]
    rfl

theorem simpson_eq (hn : 2 ≤ n) (hword : n < 2 ^ 64 - 1) :
    simpson (fun x => ofExcept (f x)) a b n = ofExcept (Quadrature.simpson f a b n hn) := by
  rw [simpson, oddCount_eq hword, pure_bind, grid_eq, pure_bind, mapM_ofExcept, bind_assoc,
    Quadrature.simpson, ofExcept_bind]
  refine bind_congr ?_
  rintro ⟨ys, hys⟩
  have hcount := Quadrature.oddCount_eq n
  have hlength : ys.length = Quadrature.oddCount n := by simpa using hys
  have hone : 1 ≤ Quadrature.oddCount n := by omega
  have hodd : 1 ≤ Quadrature.oddCount n - 1 ∧ Quadrature.oddCount n - 1 ≤ ys.length := by omega
  have heven : 2 ≤ Quadrature.oddCount n - 1 ∧ Quadrature.oddCount n - 1 ≤ ys.length := by omega
  have hfirst : 0 < ys.length := by omega
  have hlast : Quadrature.oddCount n - 1 < ys.length := by omega
  simp only [pure_bind, sub_eq hone, slice_eq hodd, slice_eq heven, get_eq hfirst, get_eq hlast]
  by_cases enough : 4 < Quadrature.oddCount n
  · have hfive : 5 ≤ ys.length := by omega
    simp only [if_pos enough, dif_pos enough, fourthDifference_eq hfive, pure_bind]
    rfl
  · simp only [if_neg enough, dif_neg enough]
    rfl

theorem midpoint_eq (hword : n < 2 ^ 64 - 1) :
    midpoint (fun x => ofExcept (f x)) a b n = ofExcept (Quadrature.midpoint f a b n) := by
  rw [midpoint, mapM_ofExcept, bind_assoc, Quadrature.midpoint, ofExcept_bind]
  refine bind_congr ?_
  rintro ⟨middles, _⟩
  have hboundaries : n + 1 < 2 ^ 64 := by omega
  rw [pure_bind, add_eq hboundaries, pure_bind, grid_eq, pure_bind, mapM_ofExcept, bind_assoc,
    ofExcept_bind]
  refine bind_congr ?_
  rintro ⟨ys, hys⟩
  have hlength : ys.length = n + 1 := by simpa using hys
  by_cases enough : 2 < n
  · have hthree : 3 ≤ ys.length := by omega
    simp only [if_pos enough, dif_pos enough, secondDifference_eq hthree, pure_bind]
    rfl
  · simp only [if_neg enough, dif_neg enough]
    rfl

theorem monteCarlo_eq (draws : List α) :
    monteCarlo (fun x => ofExcept (f x)) a b n draws =
      ofExcept (Quadrature.monteCarlo f a b n draws) := by
  rw [monteCarlo, mapM_ofExcept, bind_assoc, Quadrature.monteCarlo, ofExcept_bind]
  refine bind_congr ?_
  rintro ⟨values, _⟩
  rw [pure_bind]
  rfl

end Rules

/-! ## Methods -/

variable [Elementary α]

/-- The integral of a function by a method, with the state of the supplier. -/
def integrate (method : Method) (f : α → Ranged (Error α) α) (a b : α) (n : ℕ)
    (supply : Supplier σ α) (s : σ) : Option (Except (Error α) (Quadrature α) × σ) :=
  if n < method.minPoints then some (.error (.invalidRequest (.tooFewPoints method n)), s)
  else
    match method with
    | .trapezoidal => (trapezoidal f a b n).run.map (·, s)
    | .simpson => (simpson f a b n).run.map (·, s)
    | .midpoint => (midpoint f a b n).run.map (·, s)
    | .monteCarlo =>
      match (supply n).run s with
      | (.ok draws, t) => (monteCarlo f a b n draws).run.map (·, t)
      | (.error fault, t) => some (.error fault, t)

/-- The answer to a request, with the state of the supplier. -/
def compute (request : Request α) (supply : Supplier σ α) (s : σ) :
    Option (Except (Error α) (Result α) × σ) :=
  match Integrand.compile request.function with
  | .ok f =>
    (integrate request.method (fun x => ofExcept (f.at x)) request.lower request.upper
      request.points supply s).map fun (outcome, t) => (outcome >>= request.conclude f, t)
  | .error fault => some (.error (.invalidExpression fault), s)

variable {f : α → Except (Error α) α} {a b : α} {n : ℕ} (supply : Supplier σ α) (s : σ)

theorem integrate_of_lt {method : Method} (hn : n < method.minPoints)
    (f : α → Ranged (Error α) α) :
    integrate method f a b n supply s =
      some (.error (.invalidRequest (.tooFewPoints method n)), s) :=
  if_pos hn

theorem integrate_eq (method : Method) (hword : n < 2 ^ 64 - 1) :
    integrate method (fun x => ofExcept (f x)) a b n supply s =
      some ((method.integrate f a b n supply).run s) := by
  by_cases hn : n < method.minPoints
  · rw [integrate_of_lt supply s hn, Method.run_integrate_of_lt supply s hn]
  have henough := Nat.le_of_not_lt hn
  unfold integrate
  rw [if_neg hn]
  cases method with
  | trapezoidal =>
      rw [Method.run_integrate_trapezoidal supply s henough, trapezoidal_eq henough]
      rfl
  | simpson =>
      rw [Method.run_integrate_simpson supply s henough, simpson_eq henough hword]
      rfl
  | midpoint =>
      rw [Method.run_integrate_midpoint supply s henough, midpoint_eq hword]
      rfl
  | monteCarlo =>
      rw [Method.run_integrate_monteCarlo supply s henough]
      rcases (supply n).run s with ⟨fault | draws, t⟩
      · rfl
      · simp only [monteCarlo_eq]
        rfl

theorem compute_eq {request : Request α} (hword : request.points < 2 ^ 64 - 1) :
    compute request supply s = some ((request.compute supply).run s) := by
  cases hf : (Integrand.compile request.function : Except (ExpressionFault α) _) with
  | error fault =>
      rw [compute, hf, Request.run_compute_of_compile_error hf]
  | ok f =>
      rw [compute, hf, Request.run_compute_of_compile hf]
      simp only [integrate_eq supply s request.method hword]
      rfl

end Ranged

/-! ## Numbers of samples -/

theorem Quadrature.isLeast_oddCount (n : ℕ) : IsLeast {m | Odd m ∧ n ≤ m} (oddCount n) := by
  rw [oddCount_eq]
  refine ⟨⟨odd_two_mul_add_one _, by omega⟩, ?_⟩
  rintro m ⟨⟨k, rfl⟩, hle⟩
  omega

theorem Quadrature.length_xs_monteCarlo [Arithmetic α] {f : α → Except ε α} {a b : α} {n : ℕ}
    {draws : List α} {q : Quadrature α} (h : monteCarlo f a b n draws = .ok q) :
    q.xs.length = draws.length := by
  obtain ⟨⟨values, hvalues⟩, -, hq⟩ := bind_eq_ok_iff.mp h
  obtain rfl := pure_eq_ok_iff.mp hq
  simpa using hvalues.ge

namespace Method

variable [Elementary α] {method : Method} {f : α → Except (Error α) α} {a b : α} {n : ℕ}
  {draws : List α} {q : Quadrature α} (supply : Supplier σ α) (s : σ)

theorem length_xs_of_integrate
    (hdraws : method = .monteCarlo → ((supply n).run s).1 = .ok draws ∧ draws.length = n)
    (h : ((method.integrate f a b n supply).run s).1 = .ok q) :
    q.xs.length = method.sampleCount n := by
  cases yields_of_integrate h with
  | trapezoidal hn hrule => rw [Quadrature.xs_trapezoidal hrule, length_grid, sampleCount]
  | simpson hn hrule => rw [Quadrature.xs_simpson hrule, length_grid, sampleCount]
  | midpoint hn hrule => rw [Quadrature.xs_midpoint hrule, length_grid, sampleCount]
  | monteCarlo hn drawn hdrawn hrule =>
      obtain ⟨hsupply, hlength⟩ := hdraws rfl
      obtain rfl := Except.ok.inj (hdrawn.symm.trans hsupply)
      rw [Quadrature.length_xs_monteCarlo hrule, hlength, sampleCount]

/-- On fewer points than the greatest word no method leaves the range of an operation, whatever the
function and the supplier do, and so does no request that passes its checks. A method returns the
documented number of samples, and on too few points it refuses without a look at the function. -/
theorem integrate_in_range (method : Method) (f : α → Except (Error α) α) (a b : α) (n : ℕ)
    (supply : Supplier σ α) (s : σ) :
    (n < 2 ^ 64 - 1 →
      Ranged.integrate method (fun x => Ranged.ofExcept (f x)) a b n supply s =
        some ((method.integrate f a b n supply).run s)) ∧
    (∀ draws, method.minPoints ≤ n →
      (method = .monteCarlo → ((supply n).run s).1 = .ok draws ∧ draws.length = n) →
      (∀ x ∈ method.nodes a b n draws, ∃ y, f x = .ok y) →
      ∃ q, ((method.integrate f a b n supply).run s).1 = .ok q ∧ q.ys.length = q.xs.length ∧
        (method = .trapezoidal ∨ method = .monteCarlo → q.xs.length = n) ∧
        (method = .midpoint → q.xs.length = n + 1) ∧
        (method = .simpson → IsLeast {m | Odd m ∧ n ≤ m} q.xs.length)) ∧
    (n < method.minPoints → ∀ f : α → Ranged (Error α) α,
      Ranged.integrate method f a b n supply s =
        some (.error (.invalidRequest (.tooFewPoints method n)), s)) ∧
    (∀ request : Request α, request.validate = .ok () →
      Ranged.compute request supply s = some ((request.compute supply).run s)) := by
  refine ⟨Ranged.integrate_eq supply s method, ?_, Ranged.integrate_of_lt supply s, ?_⟩
  · intro draws hn hdraws hdefined
    obtain ⟨q, hq⟩ :=
      (exists_integrate_eq_ok_iff supply s hn fun h => (hdraws h).1).mpr hdefined
    have hlength := length_xs_of_integrate supply s hdraws hq
    refine ⟨q, hq, (integrate_isSampled (Prod.ext hq rfl)).length_eq.symm, ?_, ?_, ?_⟩
    · rintro (rfl | rfl)
      · exact hlength
      · exact hlength
    · rintro rfl
      exact hlength
    · rintro rfl
      rw [hlength]
      exact Quadrature.isLeast_oddCount n
  · intro request hvalid
    obtain ⟨-, -, -, hmax⟩ := Request.admissible_of_validate hvalid
    exact Ranged.compute_eq supply s (by omega)

/-- The greatest even word is made the greatest word, four points are made five, and a function that
leaves its range everywhere is no matter on a single point. No machine has the memory for the
samples of the first case: it is about words alone. -/
theorem integrate_in_range_greatest_even :
    letI := Elementary.exact (fun _ x => x) (fun x _ => x) 3 3
    let f : ℚ → Except (Error ℚ) ℚ := fun x => .ok (x * x)
    let supply : Supplier Unit ℚ := fun _ => pure []
    Ranged.integrate simpson (fun x => Ranged.ofExcept (f x)) 2 0 (2 ^ 64 - 2) supply () =
      some ((simpson.integrate f 2 0 (2 ^ 64 - 2) supply).run ()) ∧
    (∃ q, ((simpson.integrate f 2 0 4 supply).run ()).1 = .ok q ∧ q.ys.length = 5) ∧
    Ranged.integrate simpson (fun _ => Ranged.outOfRange) 2 0 1 supply () =
      some (.error (.invalidRequest (.tooFewPoints simpson 1)), ()) ∧
    Ranged.compute ⟨"x", 2, 0, 10, midpoint⟩ supply () =
      some ((Request.compute ⟨"x", 2, 0, 10, midpoint⟩ supply).run ()) := by
  intro f supply
  let := Elementary.exact (fun _ x => x) (fun x _ => x) 3 3
  obtain ⟨hrange, -, -, hrequest⟩ := integrate_in_range simpson f 2 0 (2 ^ 64 - 2) supply ()
  obtain ⟨-, hcount, -, -⟩ := integrate_in_range simpson f 2 0 4 supply ()
  obtain ⟨-, -, hfew, -⟩ := integrate_in_range simpson f 2 0 1 supply ()
  refine ⟨hrange (by norm_num), ?_, hfew (by decide) _, hrequest _ rfl⟩
  obtain ⟨q, hq, hlength, -, -, hsimpson⟩ :=
    hcount [] (by decide) nofun fun x _ => ⟨x * x, rfl⟩
  have hleast : IsLeast {m | Odd m ∧ 4 ≤ m} 5 := Quadrature.isLeast_oddCount 4
  exact ⟨q, hq, hlength.trans ((hsimpson rfl).unique hleast)⟩

end Method

end DefiniteIntegral
