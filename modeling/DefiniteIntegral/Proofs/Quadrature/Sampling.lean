import DefiniteIntegral.Quadrature.Rules
import DefiniteIntegral.Proofs.Outcome
import Mathlib.Data.List.Forall2

/-! # The samples of the quadrature rules

What a rule returns as its samples are points with the values of the function there, whatever the
operations on numbers do. -/

namespace DefiniteIntegral

variable {α ε : Type}

/-- Sampling succeeds exactly with the list of the values at all points. -/
theorem sample_eq_ok_iff {f : α → Except ε α} {xs : List α}
    {found : { ys : List α // ys.length = xs.length }} :
    sample f xs = .ok found ↔ List.Forall₂ (fun x y => f x = .ok y) xs found.1 := by
  obtain ⟨ys, hlength⟩ := found
  induction xs generalizing ys with
  | nil =>
      obtain rfl : ys = [] := List.length_eq_zero_iff.mp hlength
      simp [sample]
  | cons x xs ih =>
      cases ys with
      | nil => simp at hlength
      | cons y ys =>
          simp only [sample, bind_eq_ok_iff, List.forall₂_cons]
          constructor
          · rintro ⟨y', hy, found, hfound, h⟩
            have hys := congrArg Subtype.val (pure_eq_ok_iff.mp h)
            simp only [List.cons.injEq] at hys
            obtain ⟨rfl, rfl⟩ := hys
            exact ⟨hy, (ih _ found.2).mp hfound⟩
          · rintro ⟨hy, hys⟩
            exact ⟨y, hy, ⟨ys, hys.length_eq.symm⟩, (ih ys _).mpr hys, rfl⟩

/-- A function that has a value everywhere is sampled without failure. -/
theorem sample_ok (g : α → α) (xs : List α) :
    sample (fun x => (.ok (g x) : Except ε α)) xs = .ok ⟨xs.map g, List.length_map g⟩ :=
  sample_eq_ok_iff.mpr (by simp [List.forall₂_map_right_iff, List.forall₂_same])

/-- A sampled value is the value of the function at one of the points. -/
theorem exists_of_mem_sample {f : α → Except ε α} {xs : List α}
    {found : { ys : List α // ys.length = xs.length }} (h : sample f xs = .ok found) {y : α}
    (hy : y ∈ found.1) : ∃ x ∈ xs, f x = .ok y := by
  have hpairs := sample_eq_ok_iff.mp h
  obtain ⟨i, hi, rfl⟩ := List.getElem_of_mem hy
  have hi' : i < xs.length := hpairs.length_eq ▸ hi
  exact ⟨xs[i], List.getElem_mem hi', hpairs.get hi' hi⟩

/-! ## Parts of the samples -/

theorem slice_sublist {ys : List α} {first stop : Nat} (h : first ≤ stop ∧ stop ≤ ys.length) :
    (slice ys first stop h).Sublist ys :=
  (List.drop_sublist first _).trans (List.take_sublist stop ys)

theorem everyOther_sublist (ys : List α) : (everyOther ys).Sublist ys := by
  induction ys using everyOther.induct with
  | case1 first second ys ih => exact .cons_cons first (.cons second ih)
  | case2 ys hshort =>
      rw [everyOther]
      exact hshort

namespace Quadrature

/-- Whether the samples of a rule are points with the values of a function there. -/
def IsSampled (q : Quadrature α) (f : α → Except ε α) : Prop :=
  List.Forall₂ (fun x y => f x = .ok y) q.xs q.ys

variable [Arithmetic α] {f : α → Except ε α} {a b : α} {n : Nat} {q : Quadrature α}

theorem trapezoidal_isSampled {hn : 2 ≤ n} (h : trapezoidal f a b n hn = .ok q) :
    q.IsSampled f := by
  obtain ⟨ys, hsample, h⟩ := bind_eq_ok_iff.mp h
  obtain rfl := pure_eq_ok_iff.mp h
  exact sample_eq_ok_iff.mp hsample

theorem simpson_isSampled {hn : 2 ≤ n} (h : simpson f a b n hn = .ok q) : q.IsSampled f := by
  obtain ⟨ys, hsample, h⟩ := bind_eq_ok_iff.mp h
  obtain rfl := pure_eq_ok_iff.mp h
  exact sample_eq_ok_iff.mp hsample

theorem midpoint_isSampled (h : midpoint f a b n = .ok q) : q.IsSampled f := by
  obtain ⟨middles, -, h⟩ := bind_eq_ok_iff.mp h
  obtain ⟨ys, hsample, h⟩ := bind_eq_ok_iff.mp h
  obtain rfl := pure_eq_ok_iff.mp h
  exact sample_eq_ok_iff.mp hsample

/-- Sorting permutes the samples, and keeps every point with its value. -/
theorem monteCarlo_isSampled {draws : List α} (h : monteCarlo f a b n draws = .ok q) :
    q.IsSampled f := by
  obtain ⟨values, hsample, h⟩ := bind_eq_ok_iff.mp h
  obtain rfl := pure_eq_ok_iff.mp h
  have hvalues := sample_eq_ok_iff.mp hsample
  simp only [IsSampled, List.forall₂_map_left_iff, List.forall₂_map_right_iff, List.forall₂_same]
  rintro ⟨x, y⟩ hmem
  exact List.forall₂_zip hvalues (List.mem_mergeSort.mp hmem)

end Quadrature

end DefiniteIntegral
