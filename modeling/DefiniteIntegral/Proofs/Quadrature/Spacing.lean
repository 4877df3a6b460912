import DefiniteIntegral.Proofs.Quadrature.Reversal

/-! # Evenly spaced points

A grid has the number of points asked for and ends at its second bound, whatever the operations on
numbers do. In exact arithmetic its steps are equal and lead from one bound to the other, and every
step can be divided without moving a point. -/

namespace DefiniteIntegral

theorem getLast?_grid {α : Type} [Arithmetic α] (start stop : α) {n : ℕ} (hn : 2 ≤ n) :
    (grid start stop n).getLast? = some stop := by
  obtain ⟨m, rfl⟩ := Nat.exists_eq_add_of_le' hn
  rw [grid]
  exact List.getLast?_concat

/-! ## Steps -/

section Steps

variable {a b : ℚ} {m : ℕ}

theorem gridPoint_lt_succ (hab : a < b) (hm : 0 < m) (i : ℕ) :
    gridPoint a b m i < gridPoint a b m (i + 1) := by
  have hstep : 0 < (b - a) / m := div_pos (sub_pos.mpr hab) (Nat.cast_pos.mpr hm)
  rw [← gridPoint_succ_sub a b m i] at hstep
  exact sub_pos.mp hstep

theorem gridPoint_strictMono (hab : a < b) (hm : 0 < m) : StrictMono (gridPoint a b m) :=
  strictMono_nat_of_lt_succ (gridPoint_lt_succ hab hm)

theorem gridPoint_mem_Icc (hab : a ≤ b) (hm : 0 < m) {i : ℕ} (hi : i ≤ m) :
    gridPoint a b m i ∈ Set.Icc a b := by
  obtain rfl | hlt := hab.eq_or_lt
  · simp [gridPoint]
  · have hmono := (gridPoint_strictMono hlt hm).monotone
    constructor
    · calc
        a = gridPoint a b m 0 := (gridPoint_zero a b m).symm
        _ ≤ gridPoint a b m i := hmono (Nat.zero_le i)
    · calc
        gridPoint a b m i ≤ gridPoint a b m m := hmono hi
        _ = b := gridPoint_self a b hm

end Steps

/-! ## Grids in exact arithmetic -/

section Exact

variable (sqrt : ℚ → ℚ) {a b x : ℚ} {n : ℕ}

theorem pairwise_lt_grid (hab : a < b) (hn : 2 ≤ n) :
    (@grid ℚ (.exact sqrt) a b n).Pairwise (· < ·) := by
  obtain ⟨m, rfl⟩ := Nat.exists_eq_add_of_le' hn
  rw [grid_exact]
  exact List.pairwise_lt_range.map _ fun i j hij => gridPoint_strictMono hab m.succ_pos hij

theorem pairwise_gt_grid (hba : b < a) (hn : 2 ≤ n) :
    (@grid ℚ (.exact sqrt) a b n).Pairwise (· > ·) := by
  rw [grid_swap sqrt b a hn, List.pairwise_reverse]
  exact pairwise_lt_grid sqrt hba hn

theorem mem_Icc_of_mem_grid (hab : a ≤ b) (hn : 2 ≤ n)
    (hx : x ∈ @grid ℚ (.exact sqrt) a b n) : x ∈ Set.Icc a b := by
  obtain ⟨m, rfl⟩ := Nat.exists_eq_add_of_le' hn
  rw [grid_exact] at hx
  obtain ⟨i, hi, rfl⟩ := List.mem_map.mp hx
  exact gridPoint_mem_Icc hab m.succ_pos (Nat.le_of_lt_succ (List.mem_range.mp hi))

theorem mem_uIcc_of_mem_grid (hn : 2 ≤ n) (hx : x ∈ @grid ℚ (.exact sqrt) a b n) :
    x ∈ Set.uIcc a b := by
  rcases le_total a b with hab | hba
  · rw [Set.uIcc_of_le hab]
    exact mem_Icc_of_mem_grid sqrt hab hn hx
  · rw [grid_swap sqrt b a hn, List.mem_reverse] at hx
    rw [Set.uIcc_of_ge hba]
    exact mem_Icc_of_mem_grid sqrt hba hn hx

/-- Positions beyond the last point have no point on either grid. -/
theorem getElem?_grid_mul (a b : ℚ) {k : ℕ} (hk : 0 < k) (m i : ℕ) :
    (@grid ℚ (.exact sqrt) a b (k * m + 1))[k * i]? =
      (@grid ℚ (.exact sqrt) a b (m + 1))[i]? := by
  rcases Nat.lt_or_ge m i with hlt | hle
  · have hfine : k * m < k * i := Nat.mul_lt_mul_of_pos_left hlt hk
    rw [List.getElem?_eq_none, List.getElem?_eq_none]
    · simpa using hlt
    · simpa using hfine
  · have hfine : k * i ≤ k * m := Nat.mul_le_mul_left k hle
    rw [getElem?_grid sqrt a b hfine, getElem?_grid sqrt a b hle, gridPoint_mul a b hk]

end Exact

/-! ## Spacing -/

/-- A grid of two or more points has as many as asked for and ends at the second bound itself,
whatever the operations do. In exact arithmetic its points, the last one included, are equal steps
apart; they lead strictly from one bound to the other, in either direction, and stay between them.
Swapping the bounds reverses the grid, and dividing every step into `k` keeps its points. -/
theorem grid_evenly_spaced {n : ℕ} (hn : 2 ≤ n) :
    (∀ {α : Type} [Arithmetic α] (start stop : α),
      (grid start stop n).length = n ∧ (grid start stop n).getLast? = some stop) ∧
    ∀ (sqrt : ℚ → ℚ) (start stop : ℚ),
      let points := @grid ℚ (.exact sqrt) start stop n
      (∀ i < n, points[i]? = some (start + i * (stop - start) / (n - 1))) ∧
      (start < stop → points.Pairwise (· < ·)) ∧
      (stop < start → points.Pairwise (· > ·)) ∧
      (∀ x ∈ points, x ∈ Set.uIcc start stop) ∧
      @grid ℚ (.exact sqrt) stop start n = points.reverse ∧
      ∀ k ≥ 1, ∀ i, (@grid ℚ (.exact sqrt) start stop (k * (n - 1) + 1))[k * i]? = points[i]? := by
  obtain ⟨m, rfl⟩ := Nat.exists_eq_add_of_le' hn
  refine ⟨fun start stop => ⟨length_grid start stop _, getLast?_grid start stop hn⟩, ?_⟩
  intro sqrt start stop points
  refine ⟨?_, fun h => pairwise_lt_grid sqrt h hn, fun h => pairwise_gt_grid sqrt h hn,
    fun x hx => mem_uIcc_of_mem_grid sqrt hn hx, grid_swap sqrt start stop hn, ?_⟩
  · intro i hi
    rw [getElem?_grid sqrt start stop (Nat.le_of_lt_succ hi), gridPoint]
    congr 1
    push_cast
    ring
  · intro k hk i
    exact getElem?_grid_mul sqrt start stop hk (m + 1) i

/-- Four points fall from `2` to `1` with the last one on the closed form, turned around they rise,
and they are every other one of seven. A grid between numbers whose distance overflows ends at the
second one as well. -/
theorem grid_evenly_spaced_thirds :
    @grid ℚ (.exact id) 2 1 4 = [2, 5 / 3, 4 / 3, 1] ∧
    (@grid ℚ (.exact id) 2 1 4)[3]? = some (2 + 3 * (1 - 2) / 3) ∧
    (@grid ℚ (.exact id) 2 1 4).Pairwise (· > ·) ∧
    5 / 3 ∈ Set.uIcc (2 : ℚ) 1 ∧
    @grid ℚ (.exact id) 1 2 4 = [1, 4 / 3, 5 / 3, 2] ∧
    (@grid ℚ (.exact id) 1 2 4).Pairwise (· < ·) ∧
    (@grid ℚ (.exact id) 2 1 7)[4]? = some (4 / 3) ∧
    (grid (-1e308 : Float) 1e308 4).length = 4 ∧
    (grid (-1e308 : Float) 1e308 4).getLast? = some 1e308 := by
  have hpoints : @grid ℚ (.exact id) 2 1 4 = [2, 5 / 3, 4 / 3, 1] := by cbv
  obtain ⟨hany, hexact⟩ := grid_evenly_spaced (n := 4) (by decide)
  obtain ⟨hclosed, -, hfalling, hbetween, hreverse, hnested⟩ := hexact id 2 1
  obtain ⟨-, hrising, -⟩ := hexact id 1 2
  obtain ⟨hlength, hlast⟩ := hany (-1e308 : Float) 1e308
  refine ⟨hpoints, ?_, hfalling (by norm_num), hbetween _ ?_, ?_, hrising (by norm_num), ?_,
    hlength, hlast⟩
  · exact (hclosed 3 (by decide)).trans (by norm_num)
  · simp [hpoints]
  · rw [hreverse, hpoints]
    rfl
  · exact (hnested 2 (by decide) 2).trans (by rw [hpoints]; rfl)

end DefiniteIntegral
