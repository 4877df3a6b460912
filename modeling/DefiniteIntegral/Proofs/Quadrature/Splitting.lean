import DefiniteIntegral.Proofs.Quadrature.Cells

/-! # Splitting the interval

In exact arithmetic, what a rule gives for the cells of a grid is what it gives for the cells before
and after one of the points. So the value of a method splits at a point between two of its cells. -/

namespace DefiniteIntegral

variable {σ : Type}

/-! ## Grids -/

section Grids

variable (a b : ℚ) {m k : ℕ}

/-- The points before a point of a grid are those of the grid that ends there. -/
theorem gridPoint_left (hm : 0 < m) (i : ℕ) :
    gridPoint a (gridPoint a b (m + k) m) m i = gridPoint a b (m + k) i := by
  have hne : (m : ℚ) ≠ 0 := Nat.cast_ne_zero.mpr hm.ne'
  simp only [gridPoint]
  field_simp
  ring

theorem gridPoint_right (hk : 0 < k) (i : ℕ) :
    gridPoint (gridPoint a b (m + k) m) b k i = gridPoint a b (m + k) (m + i) := by
  have hne : (k : ℚ) ≠ 0 := Nat.cast_ne_zero.mpr hk.ne'
  have hsum : (m : ℚ) + k ≠ 0 := by positivity
  simp only [gridPoint]
  push_cast
  field_simp
  ring

end Grids

namespace CellRule

/-- The cells after the point are counted from there. -/
theorem composite_split (rule : CellRule) (g : ℚ → ℚ) (a b : ℚ) {m k : ℕ} (hm : 0 < m)
    (hk : 0 < k) :
    rule.composite g a b (m + k) =
      rule.composite g a (gridPoint a b (m + k) m) m +
        rule.composite g (gridPoint a b (m + k) m) b k := by
  simp only [composite, gridPoint_left a b hm, gridPoint_right a b hk]
  exact Finset.sum_range_add _ m k

end CellRule

/-! ## Methods -/

namespace Method

variable (function : ElementaryFunction → ℚ → ℚ) (pow : ℚ → ℚ → ℚ) (pi e : ℚ)

/-- A method with as many cells as two others together, at the point where their cells meet. -/
theorem exists_integrate_split_of_cells (method : Method) {rule : CellRule}
    {n left right m k : ℕ} (hcells : method.cells? n = some (rule, m + k))
    (hleft : method.cells? left = some (rule, m)) (hright : method.cells? right = some (rule, k))
    (hn : method.minPoints ≤ n) (hleftEnough : method.minPoints ≤ left)
    (hrightEnough : method.minPoints ≤ right) (hm : 0 < m) (hk : 0 < k) (g : ℚ → ℚ) (a b : ℚ)
    (supply : Supplier σ ℚ) (s : σ) :
    letI := Elementary.exact function pow pi e
    let f : ℚ → Except (Error ℚ) ℚ := fun x => .ok (g x)
    let c := gridPoint a b (m + k) m
    ∃ whole before after,
      (method.integrate f a b n supply).run s = (.ok whole, s) ∧
      (method.integrate f a c left supply).run s = (.ok before, s) ∧
      (method.integrate f c b right supply).run s = (.ok after, s) ∧
      whole.value = before.value + after.value := by
  intro f c
  obtain ⟨whole, hwhole, -, -, hvalue⟩ :=
    exists_integrate_of_cells function pow pi e method n hcells hn g a b supply s
  obtain ⟨before, hbefore, -, -, hbeforeValue⟩ :=
    exists_integrate_of_cells function pow pi e method left hleft hleftEnough g a c supply s
  obtain ⟨after, hafter, -, -, hafterValue⟩ :=
    exists_integrate_of_cells function pow pi e method right hright hrightEnough g c b supply s
  refine ⟨whole, before, after, hwhole, hbefore, hafter, ?_⟩
  rw [hvalue, hbeforeValue, hafterValue, rule.composite_split g a b hm hk]

/-- In exact arithmetic the value over an interval is the sum of those over its two parts: for the
trapezoidal and the midpoint rule at every inner point of the grid, and for Simpson's rule at those
an even number of steps away from the bounds. -/
theorem integrate_split (g : ℚ → ℚ) (a b : ℚ) {m k : ℕ} (hm : 1 ≤ m) (hk : 1 ≤ k)
    (supply : Supplier σ ℚ) (s : σ) :
    letI := Elementary.exact function pow pi e
    let f : ℚ → Except (Error ℚ) ℚ := fun x => .ok (g x)
    let c := a + m * (b - a) / (m + k)
    (∃ whole before after,
      (trapezoidal.integrate f a b (m + k + 1) supply).run s = (.ok whole, s) ∧
      (trapezoidal.integrate f a c (m + 1) supply).run s = (.ok before, s) ∧
      (trapezoidal.integrate f c b (k + 1) supply).run s = (.ok after, s) ∧
      whole.value = before.value + after.value) ∧
    (∃ whole before after,
      (midpoint.integrate f a b (m + k) supply).run s = (.ok whole, s) ∧
      (midpoint.integrate f a c m supply).run s = (.ok before, s) ∧
      (midpoint.integrate f c b k supply).run s = (.ok after, s) ∧
      whole.value = before.value + after.value) ∧
    (Even m → Even k → ∃ whole before after,
      (simpson.integrate f a b (m + k + 1) supply).run s = (.ok whole, s) ∧
      (simpson.integrate f a c (m + 1) supply).run s = (.ok before, s) ∧
      (simpson.integrate f c b (k + 1) supply).run s = (.ok after, s) ∧
      whole.value = before.value + after.value) := by
  intro f c
  have hc : c = gridPoint a b (m + k) m := by
    simp only [c, gridPoint]
    push_cast
    ring
  rw [hc]
  refine ⟨?_, ?_, ?_⟩
  · have henough : 2 ≤ m + k + 1 := by omega
    exact exists_integrate_split_of_cells function pow pi e trapezoidal rfl rfl rfl henough
      (Nat.succ_le_succ hm) (Nat.succ_le_succ hk) hm hk g a b supply s
  · exact exists_integrate_split_of_cells function pow pi e midpoint rfl rfl rfl
      (Nat.le_add_right_of_le hm) hm hk hm hk g a b supply s
  · intro hmEven hkEven
    -- A cell of Simpson's rule takes two steps.
    obtain ⟨i, rfl⟩ := hmEven.two_dvd
    obtain ⟨j, rfl⟩ := hkEven.two_dvd
    have hcells : (2 * i + 2 * j + 1) / 2 = i + j := by omega
    have hleft : (2 * i + 1) / 2 = i := by omega
    have hright : (2 * j + 1) / 2 = j := by omega
    have henough : 2 ≤ 2 * i + 2 * j + 1 := by omega
    rw [← Nat.mul_add, gridPoint_double, Nat.mul_add]
    exact exists_integrate_split_of_cells function pow pi e simpson (by rw [cells?, hcells])
      (by rw [cells?, hleft]) (by rw [cells?, hright]) henough (Nat.succ_le_succ hm)
      (Nat.succ_le_succ hk) (by omega) (by omega) g a b supply s

/-- Simpson's rule for the fourth power on six steps from `3` down to `0`, split two steps after the
start: neither part has the integral for its value, nor has the whole. -/
theorem integrate_split_fourth_power :
    letI := Elementary.exact (fun _ x => x) (fun x _ => x) 3 3
    let f : ℚ → Except (Error ℚ) ℚ := fun x => .ok (x * x * x * x)
    let supply : Supplier Unit ℚ := fun _ => pure []
    ∃ whole before after,
      (simpson.integrate f 3 0 7 supply).run () = (.ok whole, ()) ∧
      (simpson.integrate f 3 2 3 supply).run () = (.ok before, ()) ∧
      (simpson.integrate f 2 0 5 supply).run () = (.ok after, ()) ∧
      before.value = -1013 / 24 ∧ after.value = -77 / 12 ∧ whole.value = -389 / 8 := by
  intro f supply
  obtain ⟨-, -, hsimpson⟩ := integrate_split (fun _ x => x) (fun x _ => x) 3 3
    (fun x => x * x * x * x) 3 0 (m := 2) (k := 4) (by decide) (by decide) supply ()
  obtain ⟨whole, before, after, hwhole, hbefore, hafter, hvalue⟩ :=
    hsimpson (by decide) (by decide)
  have hpoint : (3 : ℚ) + (2 : ℕ) * (0 - 3) / ((2 : ℕ) + (4 : ℕ)) = 2 := by norm_num
  rw [hpoint] at hbefore hafter
  have hbeforeRun :
      letI := Elementary.exact (fun _ x => x) (fun x _ => x) 3 3
      (simpson.integrate f 3 2 3 supply).run () =
        (.ok ⟨-1013 / 24, [3, 5 / 2, 2], [81, 625 / 16, 16], none⟩, ()) := by
    cbv
  have hafterRun :
      letI := Elementary.exact (fun _ x => x) (fun x _ => x) 3 3
      (simpson.integrate f 2 0 5 supply).run () =
        (.ok ⟨-77 / 12, [2, 3 / 2, 1, 1 / 2, 0], [16, 81 / 16, 1, 1 / 16, 0],
          some (64 / 9375)⟩, ()) := by
    cbv
  obtain rfl := Except.ok.inj (Prod.mk.inj (hbefore.symm.trans hbeforeRun)).1
  obtain rfl := Except.ok.inj (Prod.mk.inj (hafter.symm.trans hafterRun)).1
  refine ⟨whole, _, _, hwhole, hbefore, hafter, rfl, rfl, ?_⟩
  rw [hvalue]
  norm_num

end Method

end DefiniteIntegral
