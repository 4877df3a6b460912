import DefiniteIntegral.Arithmetic
import DefiniteIntegral.Proofs.Number.Values

/-! # Bounds of rounded results

Bounds that are whole numbers of units carry over from exact results to rounded ones, so that they
add up along a sum without an error. -/

namespace DefiniteIntegral.Binary64

variable {x y : Float} {v w r : ℝ} {j k j' k' e d : ℤ}

/-- A finite number lies between two whole numbers of units `2 ^ e`. -/
inductive Between (j k e : ℤ) (x : Float) : Prop
  | intro (v : ℝ) (hvalue : Value x v) (hlow : j * 2 ^ e ≤ v) (hhigh : v ≤ k * 2 ^ e)

/-- A whole number of units that is a finite number. -/
structure InRange (n e : ℤ) : Prop where
  natAbs_lt : n.natAbs < 2 ^ 53
  least_le : -1074 ≤ e
  le_most : e ≤ 971

theorem InRange.representable (h : InRange k e) : Representable (k * 2 ^ e) :=
  representable_int h.natAbs_lt h.least_le

theorem InRange.fits (h : InRange k e) : Fits (k * 2 ^ e) := by
  refine fits_of_abs_le h.natAbs_lt h.le_most ?_
  rw [abs_mul, abs_of_nonneg (show (0 : ℝ) ≤ 2 ^ e by positivity), Nat.cast_natAbs, Int.cast_abs]

/-- An operation that rounds keeps the bounds of its exact result. -/
theorem between_of_rounds (hj : InRange j e) (hk : InRange k e) (hlow : j * 2 ^ e ≤ r)
    (hhigh : r ≤ k * 2 ^ e) (h : Fits r → ∃ u, Value x u ∧ RoundsTo r u) : Between j k e x := by
  have hfits : Fits r := by
    have hleast := (abs_le.mp hj.fits.abs_le_largest).1
    have hmost := (abs_le.mp hk.fits.abs_le_largest).2
    exact ⟨abs_le.mpr ⟨hleast.trans hlow, hhigh.trans hmost⟩⟩
  obtain ⟨u, hu, hrounds⟩ := h hfits
  exact ⟨u, hu, hrounds.ge _ hj.representable hlow, hrounds.le _ hk.representable hhigh⟩

namespace Between

theorem value (h : Between j k e x) : ∃ v, Value x v := by
  obtain ⟨v, hv, -, -⟩ := h
  exact ⟨v, hv⟩

theorem mono (h : Between j k e x) (hj : j' ≤ j) (hk : k ≤ k') : Between j' k' e x := by
  obtain ⟨v, hv, hlow, hhigh⟩ := h
  refine ⟨v, hv, le_trans ?_ hlow, hhigh.trans ?_⟩ <;> gcongr

theorem add (hx : Between j k e x) (hy : Between j' k' e y) (hj : InRange (j + j') e)
    (hk : InRange (k + k') e) : Between (j + j') (k + k') e (x + y) := by
  obtain ⟨v, hv, hvlow, hvhigh⟩ := hx
  obtain ⟨w, hw, hwlow, hwhigh⟩ := hy
  refine between_of_rounds hj hk ?_ ?_ (hv.add hw)
  · rw [Int.cast_add, add_mul]
    exact add_le_add hvlow hwlow
  · rw [Int.cast_add, add_mul]
    exact add_le_add hvhigh hwhigh

theorem sub (hx : Between j k e x) (hy : Between j' k' e y) (hj : InRange (j - k') e)
    (hk : InRange (k - j') e) : Between (j - k') (k - j') e (x - y) := by
  obtain ⟨v, hv, hvlow, hvhigh⟩ := hx
  obtain ⟨w, hw, hwlow, hwhigh⟩ := hy
  refine between_of_rounds hj hk ?_ ?_ (hv.sub hw)
  · rw [Int.cast_sub, sub_mul]
    exact sub_le_sub hvlow hwhigh
  · rw [Int.cast_sub, sub_mul]
    exact sub_le_sub hvhigh hwlow

theorem exists_abs_le (h : Between (-k) k e x) : ∃ v, Value x v ∧ |v| ≤ k * 2 ^ e := by
  obtain ⟨v, hv, hlow, hhigh⟩ := h
  rw [Int.cast_neg, neg_mul] at hlow
  exact ⟨v, hv, abs_le.mpr ⟨hlow, hhigh⟩⟩

theorem mul (hx : Between (-j) j e x) (hy : Between (-k) k d y) (h : InRange (j * k) (e + d)) :
    Between (-(j * k)) (j * k) (e + d) (x * y) := by
  obtain ⟨v, hv, hvbound⟩ := hx.exists_abs_le
  obtain ⟨w, hw, hwbound⟩ := hy.exists_abs_le
  have hproduct : |v * w| ≤ (j * k : ℤ) * 2 ^ (e + d) := by
    calc
      |v * w| ≤ (j * 2 ^ e) * (k * 2 ^ d) := by
        rw [abs_mul]
        exact mul_le_mul hvbound hwbound (abs_nonneg w) ((abs_nonneg v).trans hvbound)
      _ = (j * k : ℤ) * 2 ^ (e + d) := by
        rw [zpow_add₀ (by norm_num), Int.cast_mul, mul_mul_mul_comm]
  obtain ⟨hlow, hhigh⟩ := abs_le.mp hproduct
  refine between_of_rounds ⟨?_, h.least_le, h.le_most⟩ h ?_ hhigh (hv.mul hw)
  · rw [Int.natAbs_neg]
    exact h.natAbs_lt
  · rwa [Int.cast_neg, neg_mul]

theorem mul_self (hx : Between (-k) k e x) (h : InRange (k * k) (e + e)) :
    Between 0 (k * k) (e + e) (x * x) := by
  obtain ⟨v, hv, hbound⟩ := hx.exists_abs_le
  refine between_of_rounds ⟨by decide, h.least_le, h.le_most⟩ h ?_ ?_ (hv.mul hv)
  · rw [Int.cast_zero, zero_mul]
    exact mul_self_nonneg v
  · calc
      v * v = |v| * |v| := (abs_mul_abs_self v).symm
      _ ≤ (k * 2 ^ e) * (k * 2 ^ e) :=
        mul_le_mul hbound hbound (abs_nonneg v) ((abs_nonneg v).trans hbound)
      _ = (k * k : ℤ) * 2 ^ (e + e) := by
        rw [zpow_add₀ (by norm_num), Int.cast_mul, mul_mul_mul_comm]

/-- The bounds of the elements of a list, taken so often, are bounds of its sum. -/
theorem foldl_add {l : List Float} (hl : ∀ y ∈ l, Between j k e y) (hx : Between j' k' e x)
    (hj : j ≤ 0) (hk : 0 ≤ k) (hj' : j' ≤ 0) (hk' : 0 ≤ k') (hlow : InRange (j' + l.length * j) e)
    (hhigh : InRange (k' + l.length * k) e) :
    Between (j' + l.length * j) (k' + l.length * k) e (l.foldl (· + ·) x) := by
  induction l generalizing x j' k' with
  | nil => simpa using hx
  | cons y l ih =>
      obtain ⟨hy, hl⟩ := List.forall_mem_cons.mp hl
      have hlength : ∀ i : ℤ, ((y :: l).length : ℤ) * i = i + l.length * i := by
        intro i
        rw [List.length_cons]
        push_cast
        ring
      rw [hlength, ← add_assoc] at hlow hhigh ⊢
      rw [hlength, ← add_assoc]
      have hless : (l.length : ℤ) * j ≤ 0 := mul_nonpos_of_nonneg_of_nonpos (by positivity) hj
      have hmore : 0 ≤ (l.length : ℤ) * k := by positivity
      have hlowest := hlow.natAbs_lt
      have hhighest := hhigh.natAbs_lt
      exact ih hl (hx.add hy ⟨by omega, hlow.least_le, hlow.le_most⟩
        ⟨by omega, hlow.least_le, hlow.le_most⟩) (by omega) (by omega) hlow hhigh

end Between

theorem value_zero : Value ((0 : ℕ) : Float) 0 :=
  ⟨.positive, 0, -1074, isCanonical_zero, rfl, by simp⟩

theorem Between.sum {l : List Float} (hl : ∀ y ∈ l, Between j k e y) (hj : j ≤ 0) (hk : 0 ≤ k)
    (hlow : InRange (l.length * j) e) (hhigh : InRange (l.length * k) e) :
    Between (l.length * j) (l.length * k) e (Arithmetic.sum l) := by
  have hstart : Between 0 0 e (-((0 : ℕ) : Float)) :=
    ⟨_, value_zero.neg, by simp, by simp⟩
  have hsum := Between.foldl_add hl hstart hj hk le_rfl le_rfl (by rwa [zero_add])
    (by rwa [zero_add])
  rwa [zero_add, zero_add] at hsum

/-! ## Divisors -/

/-- A number of at least one, and at most a power of two. -/
inductive IsDivisor (n : ℕ) (x : Float) : Prop
  | intro (v : ℝ) (hvalue : Value x v) (hone : 1 ≤ v) (hle : v ≤ 2 ^ n)

theorem representable_two_pow (n : ℕ) : Representable (2 ^ n) := by
  simpa using representable_int (n := 1) (e := n) (by decide) (by omega)

theorem fits_two_pow {n : ℕ} (hn : n ≤ 971) (hone : 1 ≤ r) (h : r ≤ 2 ^ n) : Fits r := by
  refine fits_of_abs_le (k := 1) (e := n) (by decide) (by omega) ?_
  rw [abs_of_nonneg (zero_le_one.trans hone), Nat.cast_one, one_mul, zpow_natCast]
  exact h

namespace IsDivisor

variable {n m : ℕ}

theorem value (h : IsDivisor n x) : ∃ v, Value x v := by
  obtain ⟨v, hv, -, -⟩ := h
  exact ⟨v, hv⟩

theorem of_rounds (hn : n ≤ 971) (hone : 1 ≤ r) (hr : r ≤ 2 ^ n)
    (h : Fits r → ∃ u, Value x u ∧ RoundsTo r u) : IsDivisor n x := by
  obtain ⟨u, hu, hrounds⟩ := h (fits_two_pow hn hone hr)
  exact ⟨u, hu, hrounds.ge _ representable_one hone, hrounds.le _ (representable_two_pow n) hr⟩

theorem natCast (hn : n ≤ 63) (hone : 1 ≤ m) (hm : m ≤ 2 ^ n) : IsDivisor n ((m : ℕ) : Float) := by
  have hword : m < 2 ^ 64 := hm.trans_lt (Nat.pow_lt_pow_right (by decide) (by omega))
  refine of_rounds (r := m) (by omega) (by exact_mod_cast hone) (by exact_mod_cast hm) fun _ => ?_
  have hvalue := exists_value_toFloat (UInt64.ofNat m)
  rwa [UInt64.toNat_ofNat_of_lt' hword] at hvalue

theorem mul (hx : IsDivisor n x) (hy : IsDivisor m y) (h : n + m ≤ 971) :
    IsDivisor (n + m) (x * y) := by
  obtain ⟨v, hv, hvone, hvle⟩ := hx
  obtain ⟨w, hw, hwone, hwle⟩ := hy
  refine of_rounds h (one_le_mul_of_one_le_of_one_le hvone hwone) ?_ (hv.mul hw)
  rw [pow_add]
  exact mul_le_mul hvle hwle (zero_le_one.trans hwone) (by positivity)

theorem sqrt (hx : IsDivisor n x) (h : n ≤ 971) : IsDivisor n x.sqrt := by
  obtain ⟨v, hv, hone, hle⟩ := hx
  have hroot : 1 ≤ √v := Real.one_le_sqrt.mpr hone
  refine of_rounds h hroot ?_ fun _ => hv.sqrt (zero_le_one.trans hone)
  calc
    √v ≤ v := Real.sqrt_le_iff.mpr ⟨zero_le_one.trans hone, le_self_pow₀ hone two_ne_zero⟩
    _ ≤ 2 ^ n := hle

end IsDivisor

theorem Between.natCast {n : ℕ} (hn : n < 2 ^ 53) : Between 0 n 0 ((n : ℕ) : Float) := by
  have hrange : InRange n 0 := ⟨by simpa using hn, by decide, by decide⟩
  refine between_of_rounds (r := n) ⟨by decide, by decide, by decide⟩ hrange (by simp) (by simp)
    fun _ => ?_
  have hvalue := exists_value_toFloat (UInt64.ofNat n)
  rwa [UInt64.toNat_ofNat_of_lt' (hn.trans (by decide))] at hvalue

theorem value_zero_div_of_isDivisor {n : ℕ} (hx : Value x 0) (hy : IsDivisor n y) :
    Value (x / y) 0 := by
  obtain ⟨w, hw, hone, -⟩ := hy
  exact value_zero_div hx hw (zero_lt_one.trans_le hone).ne'

/-- What is divided by a divisor gets no larger. -/
theorem Between.div {n : ℕ} (hx : Between j k e x) (hy : IsDivisor n y) (hj : j ≤ 0) (hk : 0 ≤ k)
    (hlow : InRange j e) (hhigh : InRange k e) : Between j k e (x / y) := by
  obtain ⟨v, hv, hvlow, hvhigh⟩ := hx
  obtain ⟨w, hw, hone, -⟩ := hy
  have hpos : 0 < w := zero_lt_one.trans_le hone
  refine between_of_rounds hlow hhigh ?_ ?_ (hv.div hw hpos.ne')
  · have hle : (j : ℝ) * 2 ^ e ≤ 0 :=
      mul_nonpos_of_nonpos_of_nonneg (by exact_mod_cast hj) (by positivity)
    rw [le_div_iff₀ hpos]
    exact (mul_le_of_one_le_right hle hone).trans hvlow
  · have hle : (0 : ℝ) ≤ k * 2 ^ e :=
      mul_nonneg (by exact_mod_cast hk) (by positivity)
    rw [div_le_iff₀ hpos]
    exact hvhigh.trans (le_mul_of_one_le_right hle hone)

theorem value_half : Value (Arithmetic.half : Float) (1 / 2) := by
  simpa using value_two_pow (x := Arithmetic.half) (e := -1) (by decide) rfl

end DefiniteIntegral.Binary64
