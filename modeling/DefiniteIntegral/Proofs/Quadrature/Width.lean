import DefiniteIntegral.Proofs.Number.Bounds
import DefiniteIntegral.Proofs.Quadrature.Composite
import DefiniteIntegral.Proofs.Quadrature.Nodes

/-! # Intervals without width

Where both bounds are the same, all points of a rule are, and its value is zero times a sum. The sum
and the differences that estimate the error stay finite if there is room for them above the
samples. -/

namespace DefiniteIntegral

open Binary64

variable {x y z a : Float} {v : ℝ} {e : ℤ} {n : ℕ}

/-! ## Points -/

/-- Adding zero changes no number but negative zero, which it makes zero. -/
theorem add_zero_cases (ha : Value a v) (hz : Value z 0) :
    a + z = a ∨ a + z = Arithmetic.zero ∧ Arithmetic.zero == a := by
  obtain ⟨s, hzero⟩ := exists_unpack_eq_zero hz
  have hsum : a + z = .ofModel (.pack (a.toModel.unpack.add .binary64 z.toModel.unpack)) := rfl
  rw [hsum, hzero]
  rcases Denotes.cases ha with ⟨t, ht, -⟩ | ⟨t, m, d, hm, -, ht, -⟩
  · by_cases hsign : t = s
    · refine .inl ((congrArg _ ?_).trans (ofModel_pack_unpack a))
      rw [ht, hsign]
      cases s <;> rfl
    · refine .inr ⟨?_, ?_⟩
      · rw [ht]
        cases s <;> cases t
        · exact absurd rfl hsign
        · rfl
        · rfl
        · exact absurd rfl hsign
      · change (Arithmetic.zero : Float).toModel.unpack.beq a.toModel.unpack = true
        rw [ht]
        cases t <;> rfl
  · refine .inl ((congrArg _ ?_).trans (ofModel_pack_unpack a))
    rw [ht]
    rfl

/-- A point is the only one of an interval without width, as far as it can be told: rounding can
make zero of negative zero. -/
def IsBound (a x : Float) : Prop :=
  x = a ∨ x = Arithmetic.zero ∧ Arithmetic.zero == a

theorem IsBound.beq (h : IsBound a x) (ha : Value a v) : x == a := by
  rcases h with rfl | ⟨rfl, h⟩
  · exact ha.beq_self
  · exact h

theorem isBound_add (ha : Value a v) (hz : Value z 0) : IsBound a (a + z) :=
  add_zero_cases ha hz

theorem isBound_of_mem_grid (ha : Value a v) (hn : n ≤ 2 ^ 52) (hx : x ∈ grid a a n) :
    IsBound a x := by
  match n with
  | 0 => cases hx
  | 1 =>
      obtain rfl := List.mem_singleton.mp hx
      exact .inl rfl
  | n + 2 =>
      rcases List.mem_append.mp hx with hx | hx
      · obtain ⟨i, hi, rfl⟩ := List.mem_map.mp hx
        have hi := List.mem_range.mp hi
        have hsteps : IsDivisor 52 ((n + 1 : ℕ) : Float) :=
          .natCast (by decide) (by omega) (by omega)
        obtain ⟨w, hw⟩ := (Between.natCast (n := i) (by omega)).value
        exact isBound_add ha
          (value_mul_zero hw (value_zero_div_of_isDivisor (value_sub_self ha) hsteps))
      · obtain rfl := List.mem_singleton.mp hx
        exact .inl rfl

theorem isBound_of_mem_midpoints (ha : Value a v) (hn : n ≤ 2 ^ 52)
    (hx : x ∈ midpoints a a n) : IsBound a x := by
  obtain ⟨i, hi, rfl⟩ := List.mem_map.mp hx
  have hi := List.mem_range.mp hi
  have hcells : IsDivisor 52 ((n : ℕ) : Float) := .natCast (by decide) (by omega) hn
  have hhalf : Between 0 1 0 (Arithmetic.half : Float) :=
    ⟨_, value_half, by norm_num, by norm_num⟩
  obtain ⟨w, hw⟩ := ((Between.natCast (n := i) (by omega)).add hhalf
    ⟨by decide, by decide, by decide⟩ ⟨by omega, by decide, by decide⟩).value
  exact isBound_add ha
    (value_mul_zero hw (value_zero_div_of_isDivisor (value_sub_self ha) hcells))

theorem isBound_drawnPoint {u : Float} {w : ℝ} (ha : Value a v) (hu : Value u w) :
    IsBound a (Quadrature.drawnPoint a a u) := by
  have hpoint : Quadrature.drawnPoint a a u = a + (a - a) * u := by
    rw [Quadrature.drawnPoint]
    split
    rename_i low high hpair
    obtain ⟨rfl, rfl⟩ := Prod.mk.inj ((ite_self _).symm.trans hpair)
    rfl
  rw [hpoint]
  exact isBound_add ha (value_zero_mul (value_sub_self ha) hu)

theorem isBound_of_mem_nodes {method : Method} {draws : List Float} (ha : Value a v)
    (hn : n < 2 ^ 52) (hdraws : ∀ u ∈ draws, ∃ w, Value u w)
    (hx : x ∈ method.nodes a a n draws) : IsBound a x := by
  cases method with
  | trapezoidal => exact isBound_of_mem_grid ha hn.le hx
  | simpson =>
      have hcount := Quadrature.oddCount_eq n
      exact isBound_of_mem_grid ha (by omega) hx
  | midpoint =>
      rcases List.mem_append.mp hx with hx | hx
      · exact isBound_of_mem_midpoints ha hn.le hx
      · exact isBound_of_mem_grid ha hn hx
  | monteCarlo =>
      obtain ⟨u, hu, rfl⟩ := List.mem_map.mp hx
      obtain ⟨w, hw⟩ := hdraws u hu
      exact isBound_drawnPoint ha hw

/-! ## Rules -/

namespace Quadrature

open Arithmetic

variable {ε : Type} {f : Float → Except ε Float} {q : Quadrature Float} {ys : List Float}
  {j k j' k' : ℤ}

/-- A value is zero times what the rule has summed up. -/
def IsMultipleOfZero (q : Quadrature Float) : Prop :=
  ∃ z s, Value z 0 ∧ q.value = z * s

/-- An estimate is zero, and so is its error, if there is one. -/
structure IsZero (q : Quadrature Float) : Prop where
  value : Value q.value 0
  errorEstimate : ∀ x ∈ q.errorEstimate, Value x 0

/-- Bounds of samples that leave room for the sums of a rule. -/
structure HasRoom (e : ℤ) : Prop where
  least_le : -1074 ≤ e
  le_most : e ≤ 971

theorem isDivisor_fourthPower (hx : IsDivisor n x) (hn : n + n + (n + n) ≤ 971) :
    IsDivisor (n + n + (n + n)) (fourthPower x) :=
  (hx.mul hx (by omega)).mul (hx.mul hx (by omega)) hn

theorem between_sample {xs : List Float} {found : { ys : List Float // ys.length = xs.length }}
    (h : sample f xs = .ok found) (hf : ∀ x ∈ xs, ∀ y, f x = .ok y → Between (-1) 1 e y) :
    ∀ y ∈ found.1, Between (-1) 1 e y := by
  intro y hy
  obtain ⟨x, hx, hxy⟩ := exists_of_mem_sample h hy
  exact hf x hx y hxy

section Factor

variable {hn : 2 ≤ n} (ha : Value a v)
include ha

theorem value_abs_sub_self : Value (abs (a - a)) 0 := by
  have hzero := (value_sub_self ha).abs
  rwa [abs_zero] at hzero

theorem trapezoidal_isMultipleOfZero (h : trapezoidal f a a n hn = .ok q) (hmost : n ≤ 10000) :
    q.IsMultipleOfZero := by
  obtain ⟨ys, -, hq⟩ := bind_eq_ok_iff.mp h
  obtain rfl := pure_eq_ok_iff.mp hq
  have hsteps : IsDivisor 14 ((n - 1 : ℕ) : Float) := .natCast (by decide) (by omega) (by omega)
  exact ⟨_, _, value_zero_div_of_isDivisor (value_sub_self ha) hsteps, rfl⟩

theorem simpson_isMultipleOfZero (h : simpson f a a n hn = .ok q) (hmost : n ≤ 10000) :
    q.IsMultipleOfZero := by
  obtain ⟨ys, -, hq⟩ := bind_eq_ok_iff.mp h
  obtain rfl := pure_eq_ok_iff.mp hq
  have hcount := oddCount_eq n
  have hsteps : IsDivisor 14 ((oddCount n - 1 : ℕ) : Float) :=
    .natCast (by decide) (by omega) (by omega)
  have hthree : IsDivisor 2 ((3 : ℕ) : Float) := .natCast (by decide) (by decide) (by decide)
  exact ⟨_, _, value_zero_div_of_isDivisor
    (value_zero_div_of_isDivisor (value_sub_self ha) hsteps) hthree, rfl⟩

theorem midpoint_isMultipleOfZero (h : midpoint f a a n = .ok q) (hleast : 1 ≤ n)
    (hmost : n ≤ 10000) : q.IsMultipleOfZero := by
  obtain ⟨middles, -, hq⟩ := bind_eq_ok_iff.mp h
  obtain ⟨ys, -, hq⟩ := bind_eq_ok_iff.mp hq
  obtain rfl := pure_eq_ok_iff.mp hq
  have hcells : IsDivisor 14 ((n : ℕ) : Float) := .natCast (by decide) hleast (by omega)
  exact ⟨_, _, value_zero_div_of_isDivisor (value_sub_self ha) hcells, rfl⟩

theorem monteCarlo_isMultipleOfZero {draws : List Float}
    (h : monteCarlo f a a n draws = .ok q) : q.IsMultipleOfZero := by
  obtain ⟨values, -, hq⟩ := bind_eq_ok_iff.mp h
  obtain rfl := pure_eq_ok_iff.mp hq
  exact ⟨_, _, value_sub_self ha, rfl⟩

end Factor

variable (he : HasRoom e)
include he

theorem HasRoom.inRange (hk : k.natAbs < 2 ^ 53) : InRange k e :=
  ⟨hk, he.least_le, he.le_most⟩

theorem HasRoom.add (hx : Between j k e x) (hy : Between j' k' e y)
    (hj : (j + j').natAbs < 2 ^ 53) (hk : (k + k').natAbs < 2 ^ 53) :
    Between (j + j') (k + k') e (x + y) :=
  hx.add hy (he.inRange hj) (he.inRange hk)

theorem HasRoom.sub (hx : Between j k e x) (hy : Between j' k' e y)
    (hj : (j - k').natAbs < 2 ^ 53) (hk : (k - j').natAbs < 2 ^ 53) :
    Between (j - k') (k - j') e (x - y) :=
  hx.sub hy (he.inRange hj) (he.inRange hk)

theorem between_natCast_mul (c : ℕ) (hx : Between (-k) k e x) (hc : c < 2 ^ 53)
    (hk : (c * k).natAbs < 2 ^ 53) : Between (-(c * k)) (c * k) e ((c : ℕ) * x) := by
  have hfactor : Between (-(c : ℤ)) c 0 ((c : ℕ) : Float) :=
    (Between.natCast hc).mono (by omega) le_rfl
  have hproduct := hfactor.mul hx (by rw [zero_add]; exact he.inRange hk)
  rwa [zero_add] at hproduct

theorem between_half_mul (hx : Between (-1) 1 e x) : Between (-1) 1 e (half * x) := by
  have hfactor : Between (-1) 1 0 (half : Float) := ⟨_, value_half, by norm_num, by norm_num⟩
  have hproduct := hfactor.mul hx (by rw [zero_add]; exact he.inRange (by decide))
  rwa [zero_add] at hproduct

/-- What is summed up is some of the samples. -/
theorem between_sum {zs : List Float} (hys : ∀ y ∈ ys, Between (-1) 1 e y) (hzs : zs.Sublist ys)
    (hlength : ys.length = n) (hn : n < 2 ^ 53) : Between (-n) n e (sum zs) := by
  have hle := hzs.length_le
  have hsum := Between.sum (fun z hz => hys z (hzs.subset hz)) (by decide) (by decide)
    (he.inRange (by omega)) (he.inRange (by omega))
  exact hsum.mono (by omega) (by omega)

/-- The squares of deviations have twice the exponent. -/
theorem between_sum_squares (hroom : HasRoom (e + e)) (hys : ∀ y ∈ ys, Between (-1) 1 e y)
    (hlength : ys.length = n) (hn : n ≤ 10000) (hx : Between (-n) n e x) :
    Between 0 (n * 2 ^ 28) (e + e) (sum (ys.map fun y => square (y - x))) := by
  have hsquares : ∀ z ∈ ys.map fun y => square (y - x), Between 0 (2 ^ 28) (e + e) z := by
    intro z hz
    obtain ⟨y, hy, rfl⟩ := List.mem_map.mp hz
    have hdeviation : Between (-2 ^ 14) (2 ^ 14) e (y - x) :=
      (he.sub (hys y hy) hx (by omega) (by omega)).mono (by omega) (by omega)
    exact hdeviation.mul_self (hroom.inRange (by decide))
  have hsum := Between.sum hsquares le_rfl (by decide)
    (hroom.inRange (by rw [List.length_map]; omega))
    (hroom.inRange (by rw [List.length_map]; omega))
  rwa [List.length_map, hlength, mul_zero] at hsum

theorem exists_value_secondDifference (hys : ∀ y ∈ ys, Between (-1) 1 e y) (h : 3 ≤ ys.length) :
    ∃ w, Value (secondDifference ys h) w := by
  have hy : ∀ (i : ℕ) (hi : i < ys.length), Between (-1) 1 e ys[i] := fun i hi =>
    hys _ (List.getElem_mem hi)
  have htwice := between_natCast_mul he 2 (hy 1 (by omega)) (by decide) (by decide)
  have hless := he.sub (hy 2 (by omega)) htwice (by decide) (by decide)
  have hsum := he.add hless (hy 0 (by omega)) (by decide) (by decide)
  obtain ⟨w, hw⟩ := hsum.value
  exact ⟨|w|, hw.abs⟩

theorem exists_value_fourthDifference (hys : ∀ y ∈ ys, Between (-1) 1 e y) (h : 5 ≤ ys.length) :
    ∃ w, Value (fourthDifference ys h) w := by
  have hy : ∀ (i : ℕ) (hi : i < ys.length), Between (-1) 1 e ys[i] := fun i hi =>
    hys _ (List.getElem_mem hi)
  have hthird := between_natCast_mul he 4 (hy 3 (by omega)) (by decide) (by decide)
  have hsecond := between_natCast_mul he 6 (hy 2 (by omega)) (by decide) (by decide)
  have hfirst := between_natCast_mul he 4 (hy 1 (by omega)) (by decide) (by decide)
  have htwo := he.sub (hy 4 (by omega)) hthird (by decide) (by decide)
  have hthree := he.add htwo hsecond (by decide) (by decide)
  have hfour := he.sub hthree hfirst (by decide) (by decide)
  have hsum := he.add hfour (hy 0 (by omega)) (by decide) (by decide)
  obtain ⟨w, hw⟩ := hsum.value
  exact ⟨|w|, hw.abs⟩

section Rules

variable {hn : 2 ≤ n} (ha : Value a v)
include ha

/-- Where there is room for the sums of a rule, its estimate and its error are zero. -/
theorem trapezoidal_isZero (h : trapezoidal f a a n hn = .ok q) (hmost : n ≤ 10000)
    (hf : ∀ x ∈ grid a a n, ∀ y, f x = .ok y → Between (-1) 1 e y) : q.IsZero := by
  obtain ⟨⟨ys, hlength⟩, hsample, hq⟩ := bind_eq_ok_iff.mp h
  obtain rfl := pure_eq_ok_iff.mp hq
  have hys : ∀ y ∈ ys, Between (-1) 1 e y := between_sample hsample hf
  have hlen : ys.length = n := hlength.trans (length_grid a a n)
  have hwidth := value_sub_self ha
  have hsteps : IsDivisor 14 ((n - 1 : ℕ) : Float) := .natCast (by decide) (by omega) (by omega)
  constructor
  · have hfirst := between_half_mul he (hys ys[0] (List.getElem_mem (by omega)))
    have hlast := between_half_mul he (hys ys[n - 1] (List.getElem_mem (by omega)))
    have hinterior := between_sum he hys
      (slice_sublist (show 1 ≤ n - 1 ∧ n - 1 ≤ ys.length by omega)) hlen (by omega)
    have hstart := he.add hfirst hinterior (by omega) (by omega)
    obtain ⟨s, hs⟩ := (he.add hstart hlast (by omega) (by omega)).value
    exact value_zero_mul (value_zero_div_of_isDivisor hwidth hsteps) hs
  · intro x hx
    obtain ⟨henough, heq⟩ := Option.dite_none_right_eq_some.mp hx
    obtain rfl := Option.some.inj heq
    obtain ⟨w, hw⟩ := hsteps.value
    obtain ⟨d, hd⟩ := exists_value_secondDifference he hys (by omega)
    have hcount : IsDivisor 14 ((n : ℕ) : Float) := .natCast (by decide) (by omega) (by omega)
    have htwelve : IsDivisor 4 ((12 : ℕ) : Float) := .natCast (by decide) (by decide) (by decide)
    exact value_zero_div_of_isDivisor
      (value_zero_mul (value_zero_mul (value_zero_mul (value_abs_sub_self ha) hw) hw) hd)
      ((htwelve.mul hcount (by decide)).mul hcount (by decide))

theorem simpson_isZero (h : simpson f a a n hn = .ok q) (hmost : n ≤ 10000)
    (hf : ∀ x ∈ grid a a (oddCount n), ∀ y, f x = .ok y → Between (-1) 1 e y) : q.IsZero := by
  obtain ⟨⟨ys, hlength⟩, hsample, hq⟩ := bind_eq_ok_iff.mp h
  obtain rfl := pure_eq_ok_iff.mp hq
  have hys : ∀ y ∈ ys, Between (-1) 1 e y := between_sample hsample hf
  have hlen : ys.length = oddCount n := hlength.trans (length_grid a a _)
  have hcount := oddCount_eq n
  have hwidth := value_sub_self ha
  have hsteps : IsDivisor 14 ((oddCount n - 1 : ℕ) : Float) :=
    .natCast (by decide) (by omega) (by omega)
  constructor
  · have hpart : ∀ (first : ℕ) (hfirst : first ≤ oddCount n - 1 ∧ oddCount n - 1 ≤ ys.length),
        Between (-(oddCount n)) (oddCount n) e
          (sum (everyOther (slice ys first (oddCount n - 1) hfirst))) := fun first hfirst =>
      between_sum he hys ((everyOther_sublist _).trans (slice_sublist hfirst)) hlen (by omega)
    have hends := he.add (hys ys[0] (List.getElem_mem (by omega)))
      (hys ys[oddCount n - 1] (List.getElem_mem (by omega))) (by decide) (by decide)
    have hfour := between_natCast_mul he 4 (hpart 1 ⟨by omega, by omega⟩) (by decide) (by omega)
    have htwo := between_natCast_mul he 2 (hpart 2 ⟨by omega, by omega⟩) (by decide) (by omega)
    have hstart := he.add hends hfour (by omega) (by omega)
    obtain ⟨s, hs⟩ := (he.add hstart htwo (by omega) (by omega)).value
    have hthree : IsDivisor 2 ((3 : ℕ) : Float) := .natCast (by decide) (by decide) (by decide)
    exact value_zero_mul (value_zero_div_of_isDivisor
      (value_zero_div_of_isDivisor hwidth hsteps) hthree) hs
  · intro x hx
    obtain ⟨henough, heq⟩ := Option.dite_none_right_eq_some.mp hx
    obtain rfl := Option.some.inj heq
    obtain ⟨w, hw⟩ := (isDivisor_fourthPower hsteps (by decide)).value
    obtain ⟨d, hd⟩ := exists_value_fourthDifference he hys (by omega)
    have hcount : IsDivisor 14 ((oddCount n : ℕ) : Float) :=
      .natCast (by decide) (by omega) (by omega)
    have hfactor : IsDivisor 8 ((180 : ℕ) : Float) := .natCast (by decide) (by decide) (by decide)
    exact value_zero_div_of_isDivisor
      (value_zero_mul (value_zero_mul (value_abs_sub_self ha) hw) hd)
      (hfactor.mul (isDivisor_fourthPower hcount (by decide)) (by decide))

theorem midpoint_isZero (h : midpoint f a a n = .ok q) (hleast : 1 ≤ n) (hmost : n ≤ 10000)
    (hf : ∀ x ∈ midpoints a a n ++ grid a a (n + 1), ∀ y, f x = .ok y → Between (-1) 1 e y) :
    q.IsZero := by
  obtain ⟨hmiddles, hboundaries⟩ := List.forall_mem_append.mp hf
  obtain ⟨⟨middles, hlength⟩, hsample, hq⟩ := bind_eq_ok_iff.mp h
  obtain ⟨⟨ys, hlength'⟩, hsample', hq⟩ := bind_eq_ok_iff.mp hq
  obtain rfl := pure_eq_ok_iff.mp hq
  have hys : ∀ y ∈ ys, Between (-1) 1 e y := between_sample hsample' hboundaries
  have hlen : ys.length = n + 1 := hlength'.trans (length_grid a a _)
  constructor
  · have hlen' : middles.length = n := by simpa [midpoints] using hlength
    have hcells : IsDivisor 14 ((n : ℕ) : Float) := .natCast (by decide) hleast (by omega)
    obtain ⟨s, hs⟩ :=
      (between_sum he (between_sample hsample hmiddles) (.refl middles) hlen' (by omega)).value
    exact value_zero_mul (value_zero_div_of_isDivisor (value_sub_self ha) hcells) hs
  · intro x hx
    obtain ⟨henough, heq⟩ := Option.dite_none_right_eq_some.mp hx
    obtain rfl := Option.some.inj heq
    obtain ⟨d, hd⟩ := exists_value_secondDifference he hys (by omega)
    have hfactor : IsDivisor 5 ((24 : ℕ) : Float) := .natCast (by decide) (by decide) (by decide)
    exact value_zero_div_of_isDivisor (value_zero_mul (value_abs_sub_self ha) hd) hfactor

/-- The variance sums up squares, which needs more room. -/
theorem monteCarlo_isZero {draws : List Float} (h : monteCarlo f a a n draws = .ok q)
    (hleast : 1 ≤ n) (hmost : n ≤ 10000) (hdraws : draws.length = n) (hroom : HasRoom (e + e))
    (hf : ∀ x ∈ draws.map (drawnPoint a a), ∀ y, f x = .ok y → Between (-1) 1 e y) :
    q.IsZero := by
  obtain ⟨⟨values, hlength⟩, hsample, hq⟩ := bind_eq_ok_iff.mp h
  obtain rfl := pure_eq_ok_iff.mp hq
  have hvalues : ∀ y ∈ values, Between (-1) 1 e y := between_sample hsample hf
  have hlen : values.length = n := by rw [hlength, List.length_map, hdraws]
  have hcount : IsDivisor 14 ((n : ℕ) : Float) := .natCast (by decide) hleast (by omega)
  have hmean := (between_sum he hvalues (.refl values) hlen (by omega)).div hcount (by omega)
    (by omega) (he.inRange (by omega)) (he.inRange (by omega))
  constructor
  · obtain ⟨w, hw⟩ := hmean.value
    exact value_zero_mul (value_sub_self ha) hw
  · intro x hx
    obtain rfl := Option.some.inj hx
    have hvariance := (between_sum_squares he hroom hvalues hlen hmost hmean).div hcount le_rfl
      (by omega) (hroom.inRange (by decide)) (hroom.inRange (by omega))
    obtain ⟨w, hw, hnonneg, -⟩ := hvariance
    obtain ⟨u, hu, -⟩ := hw.sqrt (le_trans (by simp) hnonneg)
    exact value_zero_div_of_isDivisor (value_zero_mul (value_abs_sub_self ha) hu)
      (hcount.sqrt (by decide))

end Rules

end Quadrature

end DefiniteIntegral
