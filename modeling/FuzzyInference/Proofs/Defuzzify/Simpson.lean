import FuzzyInference.Proofs.Implication.Sampling

/-!
# The centroid as a quotient of integrals

Area and moment are sums with the weights of Simpson's rule. Over an even number
of steps the samples fall into panels of two steps each, and the sum is the one
of the panels, in which the middle sample counts four times as much as the outer
ones. A panel has the integral of every cubic polynomial, and so has the whole
sum, up to a factor that the centroid divides out. For heights on a parabola the
area and the moment are therefore exact.

Results:

* `weighted_sampled`: weighted sums by the index of samples.
* `sum_simpson`: over an even number of steps they are sums of panels.
* `integral_panel` and `sum_simpson_eval`: these are exact for cubic polynomials.
* `reduce_centroid_parabola`: the centroid of heights on a parabola.
-/

namespace FuzzyInference.Method

open Polynomial Implication

/-! ## Positions of a grid -/

theorem position_zero (a b : ℝ) (count : ℕ) : position a b count 0 = a := by simp [position]

theorem position_add (a b : ℝ) (count k j : ℕ) :
    position a b count (k + j) = position a b count k + j * ((b - a) / count) := by
  simp only [position, Nat.cast_add]
  ring

theorem position_last (a b : ℝ) {count : ℕ} (hcount : count ≠ 0) :
    position a b count count = b := by
  rw [position, div_mul_cancel₀ _ (Nat.cast_ne_zero.2 hcount), add_sub_cancel]

/-! ## Sums by index -/

/-- Samples whose positions and heights are given by an index. -/
def sampled (n : ℕ) (x y : ℕ → ℝ) : List (ℝ × ℝ) := (List.range n).map fun i => (x i, y i)

theorem weighted_sampled (read : ℝ × ℝ → ℝ) (n : ℕ) (x y : ℕ → ℝ) :
    weighted read (sampled n x y) = ∑ i ∈ Finset.range n, simpson n i * read (x i, y i) := by
  have hindexed : (sampled n x y).zipIdx = (List.range n).map fun i => ((x i, y i), i) :=
    List.ext_getElem (by simp [sampled]) fun i _ _ => by simp [sampled]
  have hlength : (sampled n x y).length = n := by simp [sampled]
  rw [weighted, hindexed, hlength, List.map_map]
  rfl

theorem area_sampled (n : ℕ) (x y : ℕ → ℝ) :
    area (sampled n x y) = ∑ i ∈ Finset.range n, simpson n i * y i := weighted_sampled _ n x y

theorem moment_sampled (n : ℕ) (x y : ℕ → ℝ) :
    moment (sampled n x y) = ∑ i ∈ Finset.range n, simpson n i * (x i * y i) :=
  weighted_sampled _ n x y

/-- The centroid of samples on a grid. -/
theorem reduce_centroid_grid (a b : ℝ) {count : ℕ} (hcount : count ≠ 0) (y : ℕ → ℝ) :
    centroid.reduce (grid (a : Exact) b (count + 1))
      (((List.range (count + 1)).map y).map Exact.real) =
      .ok (centroidOf (exactly (sampled (count + 1) (position a b count) y))) := by
  rw [grid_real a b hcount, reduce_centroid, positions, List.zip_map']
  rfl

/-! ## Panels -/

/-- The weights of inner samples alternate; the outermost samples have one step on
    one side only. -/
theorem simpson_even_steps {m : ℕ} (hm : 0 < m) (i : ℕ) : simpson (2 * m + 1) i =
    (if i % 2 = 1 then 4 else 2) - (if i = 0 then 1 else 0) - (if i = 2 * m then 1 else 0) := by
  unfold simpson
  split_ifs <;> first | omega | norm_num

/-- Samples with inner weights only, as panels and the outermost samples. -/
theorem sum_inner (g : ℕ → ℝ) (m : ℕ) :
    ∑ i ∈ Finset.range (2 * m + 1), (if i % 2 = 1 then 4 else 2) * g i =
      ∑ k ∈ Finset.range m, (g (2 * k) + 4 * g (2 * k + 1) + g (2 * k + 2)) + g 0 + g (2 * m) := by
  induction m with
  | zero => simp [two_mul]
  | succ m ih =>
    have hodd : (2 * m + 1) % 2 = 1 := by omega
    have heven : ¬ (2 * m + 2) % 2 = 1 := by omega
    have hnext : 2 * (m + 1) = 2 * m + 2 := mul_add 2 m 1
    rw [hnext, Finset.sum_range_succ, Finset.sum_range_succ _ (2 * m + 1), ih,
      Finset.sum_range_succ _ m, if_pos hodd, if_neg heven]
    ring

/-- Over an even number of steps the sum is one of panels of two steps. -/
theorem sum_simpson (g : ℕ → ℝ) {m : ℕ} (hm : 0 < m) :
    ∑ i ∈ Finset.range (2 * m + 1), simpson (2 * m + 1) i * g i =
      ∑ k ∈ Finset.range m, (g (2 * k) + 4 * g (2 * k + 1) + g (2 * k + 2)) := by
  have hweight : ∀ i, simpson (2 * m + 1) i * g i = (if i % 2 = 1 then 4 else 2) * g i -
      (if i = 0 then g i else 0) - (if i = 2 * m then g i else 0) := by
    intro i
    rw [simpson_even_steps hm, sub_mul, sub_mul, ite_mul (i = 0), ite_mul (i = 2 * m),
      one_mul, zero_mul]
  simp only [hweight, Finset.sum_sub_distrib, sum_inner, Finset.sum_ite_eq', Finset.mem_range]
  rw [if_pos (by omega), if_pos (by omega)]
  ring

/-! ## Integrals -/

/-- Simpson's rule is exact for a cubic polynomial over one panel. -/
theorem integral_panel {p : ℝ[X]} (hp : p.natDegree ≤ 3) (c h : ℝ) :
    h * (p.eval c + 4 * p.eval (c + h) + p.eval (c + 2 * h)) = 3 * ∫ x in c..c + 2 * h,
      p.eval x := by
  simp only [p.eval_eq_sum_range' (Nat.lt_succ_of_le hp)]
  rw [intervalIntegral.integral_finsetSum fun i _ =>
    (by fun_prop : Continuous _).intervalIntegrable _ _]
  simp only [intervalIntegral.integral_const_mul, integral_pow, Finset.sum_range_succ,
    Finset.sum_range_zero]
  ring_nf

theorem intervalIntegrable_eval (p : ℝ[X]) (a b : ℝ) :
    IntervalIntegrable (fun x => p.eval x) MeasureTheory.volume a b :=
  p.continuous.intervalIntegrable a b

/-- Simpson's rule is exact for a cubic polynomial over any number of panels. -/
theorem sum_simpson_eval {p : ℝ[X]} (hp : p.natDegree ≤ 3) (a b : ℝ) {m : ℕ} (hm : 0 < m) :
    (b - a) / (2 * m : ℕ) *
        ∑ i ∈ Finset.range (2 * m + 1), simpson (2 * m + 1) i * p.eval (position a b (2 * m) i) =
      3 * ∫ x in a..b, p.eval x := by
  have hpanel : ∀ k, (b - a) / (2 * m : ℕ) * (p.eval (position a b (2 * m) (2 * k)) +
      4 * p.eval (position a b (2 * m) (2 * k + 1)) + p.eval (position a b (2 * m) (2 * k + 2))) =
        3 * ∫ x in position a b (2 * m) (2 * k)..position a b (2 * m) (2 * (k + 1)), p.eval x := by
    intro k
    rw [mul_add 2 k 1, mul_one, position_add, position_add, Nat.cast_one, one_mul, Nat.cast_ofNat,
      integral_panel hp]
  rw [sum_simpson _ hm, Finset.mul_sum, Finset.sum_congr rfl fun k _ => hpanel k, ← Finset.mul_sum,
    intervalIntegral.sum_integral_adjacent_intervals (a := fun k => position a b (2 * m) (2 * k))
      fun k _ => intervalIntegrable_eval p _ _, mul_zero, position_zero,
        position_last a b (by omega)]

/-! ## The centroid -/

/-- Over an even number of steps, heights on a parabola have the centroid of the
    area under it. -/
theorem reduce_centroid_parabola {count : ℕ} (heven : Even count) (hcount : 2 ≤ count) {a b : ℝ}
    (hab : a < b) {p : ℝ[X]} (hp : p.degree ≤ 2) (harea : (∫ x in a..b, p.eval x) ≠ 0) :
    centroid.reduce (grid (a : Exact) b (count + 1))
        ((grid (a : Exact) b (count + 1)).map (Exact.onReals fun x => p.eval x)) =
      .ok (some (((∫ x in a..b, x * p.eval x) / ∫ x in a..b, p.eval x : ℝ) : Exact)) := by
  obtain ⟨m, rfl⟩ := heven.two_dvd
  have hm : 0 < m := by omega
  have hdegree : p.natDegree ≤ 2 := natDegree_le_of_degree_le hp
  have hmoment : (X * p).natDegree ≤ 3 := natDegree_mul_le.trans (by rw [natDegree_X]; omega)
  have hheights : (grid (a : Exact) b (2 * m + 1)).map (Exact.onReals fun x => p.eval x) =
      ((List.range (2 * m + 1)).map fun i => p.eval (position a b (2 * m) i)).map Exact.real := by
    rw [grid_real a b (by omega), positions, List.map_map, List.map_map, List.map_map]
    rfl
  rw [hheights, reduce_centroid_grid a b (by omega), centroidOf_real]
  set samples := sampled (2 * m + 1) (position a b (2 * m)) fun i => p.eval (position a b (2 * m) i)
    with hsamples
  have hA : (b - a) / (2 * m : ℕ) * area samples = 3 * ∫ x in a..b, p.eval x := by
    rw [hsamples, area_sampled]
    exact sum_simpson_eval (hdegree.trans (by norm_num)) a b hm
  have hM : (b - a) / (2 * m : ℕ) * moment samples = 3 * ∫ x in a..b, x * p.eval x := by
    rw [hsamples, moment_sampled]
    simpa only [eval_mul, eval_X] using sum_simpson_eval hmoment a b hm
  have hne : area samples ≠ 0 := by
    intro hzero
    rw [hzero, mul_zero] at hA
    exact harea (by linarith)
  -- the width of a step and the factor of the rule cancel out
  have hstep : (b - a) / (2 * m : ℕ) ≠ 0 :=
    (div_pos (sub_pos.2 hab) (Nat.cast_pos.2 (by omega))).ne'
  have hmean : moment samples / area samples = (∫ x in a..b, x * p.eval x) / ∫ x in a..b,
      p.eval x := by
    rw [← mul_div_mul_left _ _ hstep, hA, hM, mul_div_mul_left _ _ three_ne_zero]
  rw [if_neg hne, hmean]

/-- The area under the square has its centroid at three quarters. -/
theorem reduce_centroid_square : Even 4 ∧ 2 ≤ 4 ∧ (0 : ℝ) < 1 ∧ (X ^ 2 : ℝ[X]).degree ≤ 2 ∧
    (∫ x in (0 : ℝ)..1, (X ^ 2 : ℝ[X]).eval x) ≠ 0 ∧
    centroid.reduce (grid ((0 : ℝ) : Exact) (1 : ℝ) (4 + 1))
        ((grid ((0 : ℝ) : Exact) (1 : ℝ) (4 + 1)).map
          (Exact.onReals fun x => (X ^ 2 : ℝ[X]).eval x)) =
      .ok (some ((3 / 4 : ℝ) : Exact)) := by
  have heven : Even 4 := by decide
  have hdegree : (X ^ 2 : ℝ[X]).degree ≤ 2 := degree_X_pow_le 2
  have harea : (∫ x in (0 : ℝ)..1, (X ^ 2 : ℝ[X]).eval x) = 1 / 3 := by
    norm_num [eval_pow, integral_pow]
  have hmoment : (∫ x in (0 : ℝ)..1, x * (X ^ 2 : ℝ[X]).eval x) = 1 / 4 := by
    have hcube : ∀ x : ℝ, x * x ^ 2 = x ^ 3 := fun x => by ring
    norm_num [eval_pow, hcube, integral_pow]
  have hne : (∫ x in (0 : ℝ)..1, (X ^ 2 : ℝ[X]).eval x) ≠ 0 := by norm_num [harea]
  have hquotient : (1 / 4 : ℝ) / (1 / 3) = 3 / 4 := by norm_num
  refine ⟨heven, by norm_num, zero_lt_one, hdegree, hne, ?_⟩
  rw [reduce_centroid_parabola heven (by norm_num) zero_lt_one hdegree hne, harea,
    hmoment, hquotient]

end FuzzyInference.Method
