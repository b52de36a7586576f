import FuzzyInference.Proofs.Defuzzify.Simpson

/-!
# The centroid of a mirrored region

Heights listed the other way round are the region mirrored at the middle of the
range. Its area and moment weigh every height from the far end of the samples.

Over an even number of steps Simpson's weights read the same from both ends, so
the centroid is mirrored with the region. Over an odd number they do not: the
inner weights four and two change places. The mirrored region then has another
mean, and a region of one height, which is its own mirror image, has a centroid
left of the middle.

Results:

* `simpson_reflect_even` and `simpson_reflect_odd`: the weights from the far end.
* `centroidOf_mirrored`: the centroid of a mirrored region, by these weights.
* `reduce_centroid_reverse`: both cases, and the distance from the middle.
* `reduce_centroid_lopsided`: three steps under one height.
-/

namespace FuzzyInference.Method

open Implication

/-! ## Weights from the far end -/

/-- Simpson's weights with the inner ones exchanged. -/
noncomputable def exchanged (n i : ℕ) : ℝ :=
  ((if i = 0 ∨ i + 1 = n then 1 else if i % 2 = 1 then 2 else 4 : ℕ) : ℝ)

theorem exchanged_pos (n i : ℕ) : 0 < exchanged n i := pos_of_ends (by decide) (by decide)

theorem simpson_reflect_even {count i : ℕ} (hcount : Even count) (hi : i ≤ count) :
    simpson (count + 1) (count - i) = simpson (count + 1) i := by
  obtain ⟨m, rfl⟩ := hcount.two_dvd
  unfold simpson
  congr 1
  split_ifs <;> omega

theorem simpson_reflect_odd {count i : ℕ} (hcount : Odd count) (hi : i ≤ count) :
    simpson (count + 1) (count - i) = exchanged (count + 1) i := by
  obtain ⟨m, rfl⟩ := hcount
  unfold simpson exchanged
  congr 1
  split_ifs <;> omega

/-! ## Mirrored regions -/

theorem position_reflect (a b : ℝ) {count i : ℕ} (hcount : count ≠ 0) (hi : i ≤ count) :
    position a b count (count - i) = a + b - position a b count i := by
  have hstep : (b - a) / count * count = b - a := div_mul_cancel₀ _ (Nat.cast_ne_zero.2 hcount)
  rw [position, position, Nat.cast_sub hi, mul_sub, hstep]
  ring

/-- A weighted sum over mirrored heights weighs the heights from the far end. -/
theorem sum_mirrored (count : ℕ) (x y : ℕ → ℝ) {w : ℕ → ℝ}
    (hw : ∀ i ≤ count, simpson (count + 1) (count - i) = w i) :
    ∑ i ∈ Finset.range (count + 1), simpson (count + 1) i * (x i * y (count - i)) =
      ∑ i ∈ Finset.range (count + 1), w i * (x (count - i) * y i) := by
  rw [← Finset.sum_range_reflect]
  refine Finset.sum_congr rfl fun i hi => ?_
  have hi : i ≤ count := Nat.lt_succ_iff.1 (Finset.mem_range.1 hi)
  rw [Nat.add_sub_cancel, hw i hi, Nat.sub_sub_self hi]

/-- The centroid of a mirrored region is the mirrored mean with the weights from the
    far end. -/
theorem centroidOf_mirrored (a b : ℝ) {count : ℕ} (hcount : count ≠ 0) (y : ℕ → ℝ) {w : ℕ → ℝ}
    (hw : ∀ i ≤ count, simpson (count + 1) (count - i) = w i)
    (harea : ∑ i ∈ Finset.range (count + 1), w i * y i ≠ 0) :
    centroidOf (exactly (sampled (count + 1) (position a b count) fun i => y (count - i))) =
      some ((a + b - (∑ i ∈ Finset.range (count + 1), w i * (position a b count i * y i)) /
        ∑ i ∈ Finset.range (count + 1), w i * y i : ℝ) : Exact) := by
  have hA : area (sampled (count + 1) (position a b count) fun i => y (count - i)) =
      ∑ i ∈ Finset.range (count + 1), w i * y i := by
    rw [area_sampled]
    simpa using sum_mirrored count (fun _ => 1) y hw
  have hM : moment (sampled (count + 1) (position a b count) fun i => y (count - i)) =
      (a + b) * (∑ i ∈ Finset.range (count + 1), w i * y i) -
        ∑ i ∈ Finset.range (count + 1), w i * (position a b count i * y i) := by
    rw [moment_sampled, sum_mirrored count _ y hw, Finset.mul_sum, ← Finset.sum_sub_distrib]
    refine Finset.sum_congr rfl fun i hi => ?_
    rw [position_reflect a b hcount (Nat.lt_succ_iff.1 (Finset.mem_range.1 hi))]
    ring
  rw [centroidOf_real, hA, hM, if_neg harea, sub_div, mul_div_cancel_right₀ _ harea]

/-! ## One height -/

/-- Over an odd number of steps the last one is no panel; its two ends count once
    for it. -/
theorem sum_simpson_odd (g : ℕ → ℝ) (k : ℕ) :
    ∑ i ∈ Finset.range (2 * k + 2), simpson (2 * k + 2) i * g i =
      ∑ j ∈ Finset.range k, (g (2 * j) + 4 * g (2 * j + 1) + g (2 * j + 2)) + g (2 * k) +
        g (2 * k + 1) := by
  have hweight : ∀ i ∈ Finset.range (2 * k + 1), simpson (2 * k + 2) i * g i =
      (if i % 2 = 1 then 4 else 2) * g i - (if i = 0 then g i else 0) := by
    intro i hi
    have hi : i < 2 * k + 1 := Finset.mem_range.1 hi
    unfold simpson
    split_ifs <;> first | omega | (push_cast; ring)
  have hlast : simpson (2 * k + 2) (2 * k + 1) = 1 := by simp [simpson]
  rw [Finset.sum_range_succ, Finset.sum_congr rfl hweight, Finset.sum_sub_distrib, sum_inner,
    Finset.sum_ite_eq', if_pos (by simp), hlast]
  ring

theorem sum_simpson_one (k : ℕ) :
    ∑ i ∈ Finset.range (2 * k + 2), simpson (2 * k + 2) i = 6 * k + 2 := by
  have h := sum_simpson_odd (fun _ => 1) k
  simp only [mul_one] at h
  rw [h, Finset.sum_const, Finset.card_range, nsmul_eq_mul]
  ring

theorem sum_simpson_index (k : ℕ) :
    ∑ i ∈ Finset.range (2 * k + 2), simpson (2 * k + 2) i * i = 6 * k ^ 2 + 4 * k + 1 := by
  have hpanels : ∑ j ∈ Finset.range k,
      (((2 * j : ℕ) : ℝ) + 4 * ((2 * j + 1 : ℕ) : ℝ) + ((2 * j + 2 : ℕ) : ℝ)) = 6 * k ^ 2 := by
    induction k with
    | zero => simp
    | succ k ih =>
      rw [Finset.sum_range_succ, ih]
      push_cast
      ring
  rw [sum_simpson_odd, hpanels]
  push_cast
  ring

/-- Under one height an odd number of steps has its centroid left of the middle. -/
theorem centroidOf_level (a b : ℝ) {count : ℕ} (hodd : Odd count) {height : ℝ}
    (hheight : height ≠ 0) :
    centroidOf (exactly (sampled (count + 1) (position a b count) fun _ => height)) =
      some (((a + b) / 2 - (b - a) * (count - 1) / (2 * count * (3 * count - 1)) : ℝ) : Exact) := by
  obtain ⟨k, rfl⟩ := hodd
  have hA : area (sampled (2 * k + 2) (position a b (2 * k + 1)) fun _ => height) =
      (6 * k + 2) * height := by
    rw [area_sampled, ← Finset.sum_mul, sum_simpson_one]
  have hM : moment (sampled (2 * k + 2) (position a b (2 * k + 1)) fun _ => height) =
      (a * (6 * k + 2) + (b - a) / (2 * k + 1) * (6 * k ^ 2 + 4 * k + 1)) * height := by
    have hterm : ∀ i, simpson (2 * k + 2) i * (position a b (2 * k + 1) i * height) =
        (a * simpson (2 * k + 2) i + (b - a) / (2 * k + 1) * (simpson (2 * k + 2) i * i)) *
          height := by
      intro i
      simp only [position]
      push_cast
      ring
    simp only [moment_sampled, hterm]
    rw [← Finset.sum_mul, Finset.sum_add_distrib, ← Finset.mul_sum, ← Finset.mul_sum,
      sum_simpson_one, sum_simpson_index]
  have hpositive : (0 : ℝ) < 6 * k + 2 := by positivity
  have hcount : (0 : ℝ) < 2 * k + 1 := by positivity
  have hthrice : 3 * (2 * k + 1 : ℝ) - 1 = 6 * k + 2 := by ring
  rw [centroidOf_real, hA, hM, if_neg (mul_ne_zero hpositive.ne' hheight),
    mul_div_mul_right _ _ hheight]
  push_cast
  rw [hthrice]
  congr 2
  field_simp
  ring

/-! ## The centroid of the mirrored heights -/

/-- The mean position of heights, with Simpson's inner weights exchanged. -/
noncomputable def exchangedMean (a b : ℝ) (count : ℕ) (ys : List ℝ) : ℝ :=
  (∑ i ∈ Finset.range (count + 1), exchanged (count + 1) i * (position a b count i * ys.getD i 0)) /
    ∑ i ∈ Finset.range (count + 1), exchanged (count + 1) i * ys.getD i 0

theorem map_getD_range (ys : List ℝ) : (List.range ys.length).map (fun i => ys.getD i 0) = ys := by
  refine List.ext_getElem (by simp) fun i _ hi => ?_
  rw [List.getElem_map, List.getElem_range, List.getD_eq_getElem _ _ hi]

theorem map_getD_reverse {ys : List ℝ} {count : ℕ} (hlength : ys.length = count + 1) :
    (List.range (count + 1)).map (fun i => ys.getD (count - i) 0) = ys.reverse := by
  refine List.ext_getElem (by simp [hlength]) fun i hi _ => ?_
  have hi : i < count + 1 := by simpa using hi
  simp [hlength]

/-- Positive weights give an area to heights that are not negative and not all
    zero. -/
theorem sum_weights_pos {w : ℕ → ℝ} (hw : ∀ i, 0 < w i) {ys : List ℝ} (hnonneg : ∀ y ∈ ys, 0 ≤ y)
    (hsome : ∃ y ∈ ys, y ≠ 0) : 0 < ∑ i ∈ Finset.range ys.length, w i * ys.getD i 0 := by
  obtain ⟨y, hy, hne⟩ := hsome
  obtain ⟨j, hj, rfl⟩ := List.mem_iff_getElem.1 hy
  refine Finset.sum_pos' (fun i hi => ?_) ⟨j, Finset.mem_range.2 hj, ?_⟩
  · rw [List.getD_eq_getElem _ _ (Finset.mem_range.1 hi)]
    exact mul_nonneg (hw i).le (hnonneg _ (List.getElem_mem _))
  · rw [List.getD_eq_getElem _ _ hj]
    exact mul_pos (hw j) ((hnonneg _ hy).lt_of_ne' hne)

/-- Heights over an even number of steps have a centroid that is mirrored with them.
    Over an odd number of steps the mirrored heights have the mirrored mean with
    exchanged weights, and heights that are all the same have their centroid left of
    the middle. -/
theorem reduce_centroid_reverse {count : ℕ} (hcount : 2 ≤ count) (a b : ℝ) {ys : List ℝ}
    (hlength : ys.length = count + 1) (hnonneg : ∀ y ∈ ys, 0 ≤ y) (hsome : ∃ y ∈ ys, y ≠ 0) :
    ∃ c : ℝ, centroid.reduce (grid (a : Exact) b (count + 1)) (ys.map Exact.real) =
      .ok (some (c : Exact)) ∧
      (Even count → centroid.reduce (grid (a : Exact) b (count + 1)) (ys.reverse.map Exact.real) =
        .ok (some ((a + b - c : ℝ) : Exact))) ∧
      (Odd count → centroid.reduce (grid (a : Exact) b (count + 1)) (ys.reverse.map Exact.real) =
        .ok (some ((a + b - exchangedMean a b count ys : ℝ) : Exact))) ∧
      (Odd count → ∀ height, (∀ y ∈ ys, y = height) →
        c = (a + b) / 2 - (b - a) * (count - 1) / (2 * count * (3 * count - 1))) := by
  have hsteps : count ≠ 0 := by omega
  have hmap : (List.range (count + 1)).map (fun i => ys.getD i 0) = ys := by
    rw [← hlength, map_getD_range]
  have hweights : ∀ {w : ℕ → ℝ}, (∀ i, 0 < w i) → ∑ i ∈ Finset.range (count + 1),
      w i * ys.getD i 0 ≠ 0 := by
    intro w hw
    rw [← hlength]
    exact (sum_weights_pos hw hnonneg hsome).ne'
  have hcentroid : centroid.reduce (grid (a : Exact) b (count + 1)) (ys.map Exact.real) = .ok
        (centroidOf (exactly (sampled (count + 1) (position a b count) fun i => ys.getD i 0))) := by
    rw [← reduce_centroid_grid a b hsteps, hmap]
  have hreverse : centroid.reduce (grid (a : Exact) b (count + 1)) (ys.reverse.map Exact.real) =
      .ok (centroidOf
          (exactly (sampled (count + 1) (position a b count) fun i => ys.getD (count - i) 0))) := by
    rw [← reduce_centroid_grid a b hsteps, map_getD_reverse hlength]
  set samples := sampled (count + 1) (position a b count) fun i => ys.getD i 0 with hsamples
  have hne : area samples ≠ 0 := by
    rw [hsamples, area_sampled]
    exact hweights (simpson_pos _)
  refine ⟨moment samples / area samples, ?_, ?_, ?_, ?_⟩
  · rw [hcentroid, centroidOf_real, if_neg hne]
  · intro heven
    rw [hreverse, centroidOf_mirrored a b hsteps _ (fun i hi => simpson_reflect_even heven hi)
      (hweights (simpson_pos _)), hsamples, area_sampled, moment_sampled]
  · intro hodd
    rw [hreverse, centroidOf_mirrored a b hsteps _ (fun i hi => simpson_reflect_odd hodd hi)
      (hweights (exchanged_pos _))]
    rfl
  · intro hodd height hall
    obtain ⟨y, hy, hy'⟩ := hsome
    have hheight : height ≠ 0 := hall y hy ▸ hy'
    have hsame : samples = sampled (count + 1) (position a b count) fun _ => height := by
      refine List.map_congr_left fun i hi => ?_
      have hi : i < ys.length := by rw [hlength]; exact List.mem_range.1 hi
      have hget : ys.getD i 0 = height := by
        rw [List.getD_eq_getElem _ _ hi, hall _ (List.getElem_mem _)]
      exact congrArg (Prod.mk (position a b count i)) hget
    have hlevel := centroidOf_level a b hodd hheight
    rw [← hsame, centroidOf_real, if_neg hne] at hlevel
    exact Exact.real.inj (Option.some.inj hlevel)

/-- Heights that read the same from both ends have their centroid in the middle of
    an even number of steps. -/
theorem reduce_centroid_tent : 2 ≤ 4 ∧ [(1 : ℝ), 3, 2, 3, 1].length = 4 + 1 ∧
    (∀ y ∈ [(1 : ℝ), 3, 2, 3, 1], 0 ≤ y) ∧ (∃ y ∈ [(1 : ℝ), 3, 2, 3, 1], y ≠ 0) ∧
    centroid.reduce (grid ((2 : ℝ) : Exact) (10 : ℝ) (4 + 1))
      ([(1 : ℝ), 3, 2, 3, 1].map Exact.real) =
      .ok (some ((6 : ℝ) : Exact)) := by
  have hlength : [(1 : ℝ), 3, 2, 3, 1].length = 4 + 1 := rfl
  have hnonneg : ∀ y ∈ [(1 : ℝ), 3, 2, 3, 1], 0 ≤ y := by norm_num
  have hsome : ∃ y ∈ [(1 : ℝ), 3, 2, 3, 1], y ≠ 0 := ⟨1, by simp, one_ne_zero⟩
  refine ⟨by norm_num, hlength, hnonneg, hsome, ?_⟩
  obtain ⟨c, hc, heven, -⟩ := reduce_centroid_reverse (by norm_num) 2 10 hlength hnonneg hsome
  have hmirrored := heven (by decide)
  rw [show [(1 : ℝ), 3, 2, 3, 1].reverse = [1, 3, 2, 3, 1] from rfl, hc] at hmirrored
  have hmiddle : c = 2 + 10 - c := Exact.real.inj (Option.some.inj (Except.ok.inj hmirrored))
  rw [hc, show c = 6 by linarith]

/-- Three steps under one height are their own mirror image, with the centroid left
    of the middle. -/
theorem reduce_centroid_lopsided : 2 ≤ 3 ∧ [(1 : ℝ), 1, 1, 1].length = 3 + 1 ∧
    (∀ y ∈ [(1 : ℝ), 1, 1, 1], 0 ≤ y) ∧ (∃ y ∈ [(1 : ℝ), 1, 1, 1], y ≠ 0) ∧
    centroid.reduce (grid ((0 : ℝ) : Exact) (3 : ℝ) (3 + 1)) ([(1 : ℝ), 1, 1, 1].map Exact.real) =
      .ok (some ((11 / 8 : ℝ) : Exact)) ∧
    centroid.reduce (grid ((0 : ℝ) : Exact) (3 : ℝ) (3 + 1))
      ([(1 : ℝ), 1, 1, 1].reverse.map Exact.real) ≠
      .ok (some ((0 + 3 - 11 / 8 : ℝ) : Exact)) := by
  have hlevel : centroid.reduce (grid ((0 : ℝ) : Exact) (3 : ℝ) (3 + 1))
      ([(1 : ℝ), 1, 1, 1].map Exact.real) =
      .ok (some ((11 / 8 : ℝ) : Exact)) := by
    change centroid.reduce _ (((List.range (3 + 1)).map fun _ => (1 : ℝ)).map Exact.real) = _
    rw [reduce_centroid_grid 0 3 three_ne_zero, centroidOf_level 0 3 (by decide) one_ne_zero]
    norm_num
  refine ⟨by norm_num, rfl, by norm_num, ⟨1, by simp, one_ne_zero⟩, hlevel, fun h => ?_⟩
  rw [show [(1 : ℝ), 1, 1, 1].reverse = [1, 1, 1, 1] from rfl, hlevel] at h
  have hmiddle : (11 / 8 : ℝ) = 0 + 3 - 11 / 8 := Exact.real.inj (Option.some.inj (Except.ok.inj h))
  norm_num at hmiddle

end FuzzyInference.Method
