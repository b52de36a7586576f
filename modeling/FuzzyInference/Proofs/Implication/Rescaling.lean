import FuzzyInference.Proofs.Implication.Sampling

/-!
# Defuzzification over another range

The range of a result does not decide what an implication is reduced to, but
only where that position lies. The bisector and the maxima are positions of
samples that are chosen by the heights, and the centroid is a mean of positions;
each of them goes along when all positions are moved by one affine map.

Results:

* `reduce_rescaled`: methods commute with an affine change of positions.
* `defuzzify_rescaled`: an implication over any range is reduced to the place of
  what it is reduced to over the unit interval.
-/

namespace FuzzyInference

namespace Method

/-! ## Methods -/

variable (a c : ℝ)

/-- Samples whose positions are moved by an affine map. -/
def rescaled (samples : List (ℝ × ℝ)) : List (ℝ × ℝ) := samples.map (Prod.map (a + c * ·) id)

theorem exactly_rescaled (samples : List (ℝ × ℝ)) :
    exactly (rescaled a c samples) =
      (exactly samples).map (Prod.map (fun x : Exact => a + c * x) id) := by
  simp [exactly, rescaled, Function.comp_def]

theorem area_rescaled (samples : List (ℝ × ℝ)) : area (rescaled a c samples) = area samples :=
  weighted_map _ _ samples

theorem moment_rescaled (samples : List (ℝ × ℝ)) :
    moment (rescaled a c samples) = a * area samples + c * moment samples := by
  have hread : (fun s : ℝ × ℝ => (a + c * s.1) * s.2) = fun s => a * s.2 + c * (s.1 * s.2) := by
    funext s
    ring
  calc moment (rescaled a c samples)
      = weighted (fun s => (a + c * s.1) * s.2) samples := weighted_map _ _ samples
    _ = a * area samples + c * moment samples := by
      rw [hread, weighted_add, weighted_mul, weighted_mul]
      rfl

/-- A weighted mean of positions goes along with them. -/
theorem centroidOf_rescaled (samples : List (ℝ × ℝ)) : centroidOf (exactly (rescaled a c samples)) =
    (centroidOf (exactly samples)).map fun x : Exact => a + c * x := by
  rw [centroidOf_real, centroidOf_real, area_rescaled, moment_rescaled]
  split
  · rfl
  · rename_i harea
    have hmean : (a * area samples + c * moment samples) / area samples =
        a + c * (moment samples / area samples) := by
      field_simp
    simp [hmean]

/-- The middle between two positions goes along with them. -/
theorem middle_rescaled (first last : ℝ) :
    ((a : Exact) + c * (first : Exact) + (a + c * (last : Exact))) / (1 + 1) =
      a + c * (((first : Exact) + (last : Exact)) / (1 + 1)) := by
  rw [Exact.real_mul, Exact.real_mul, Exact.real_add a, Exact.real_add a, middle_real, middle_real,
    Exact.real_mul, Exact.real_add]
  congr 1
  ring

/-- The maximal positions are real numbers. -/
theorem exists_maximal_real (samples : List (ℝ × ℝ)) :
    ∃ xs : List ℝ, maximal (exactly samples) = xs.map Exact.real := by
  rcases eq_or_ne samples [] with rfl | hne
  · exact ⟨[], rfl⟩
  · obtain ⟨top, hmaximal, -⟩ := maximal_real hne
    exact ⟨_, hmaximal⟩

/-- Every method commutes with an affine change of positions. -/
theorem reduce_rescaled (m : Method) (xs ys : List ℝ) :
    m.reduce ((xs.map (a + c * ·)).map Exact.real) (ys.map Exact.real) =
      (m.reduce (xs.map Exact.real) (ys.map Exact.real)).map
        (Option.map fun x : Exact => a + c * x) := by
  have hsamples : (xs.map (a + c * ·)).zip ys = rescaled a c (xs.zip ys) := List.zip_map_left ..
  cases m with
  | centroid =>
    rw [reduce_centroid, reduce_centroid, hsamples, centroidOf_rescaled]
    rfl
  | bisector =>
    rw [reduce_bisector, reduce_bisector, zip_exactly, zip_exactly, hsamples, exactly_rescaled,
    bisectorOf_map]
  | smallestOfMaximum =>
    rw [reduce_smallestOfMaximum, reduce_smallestOfMaximum, zip_exactly, zip_exactly, hsamples,
      exactly_rescaled, maximal_map, List.head?_map]
    rfl
  | largestOfMaximum =>
    rw [reduce_largestOfMaximum, reduce_largestOfMaximum, zip_exactly, zip_exactly, hsamples,
      exactly_rescaled, maximal_map, List.getLast?_map]
    rfl
  | meanOfMaximum =>
    obtain ⟨tops, htops⟩ := exists_maximal_real (xs.zip ys)
    rw [reduce_meanOfMaximum, reduce_meanOfMaximum, zip_exactly, zip_exactly, hsamples,
      exactly_rescaled, maximal_map, htops, List.head?_map, List.getLast?_map, List.head?_map,
      List.getLast?_map]
    cases tops.head? with
    | none => rfl
    | some first => cases tops.getLast? with
      | none => rfl
      | some last => exact congrArg (Except.ok ∘ some) (middle_rescaled a c first last)

end Method

namespace Implication

/-! ## Implications -/

/-- The diagonal has its own position as height. -/
theorem evaluate_ramp {x : ℝ} (hx : x ∈ Set.Icc (0 : ℝ) 1) :
    (Curve.ramp : Curve Exact).evaluate (x : Exact) = .ok (x : Exact) := by
  have hmem : (0 : Exact) ≤ x ∧ (x : Exact) ≤ 1 := by simpa using hx
  have hline : Curve.lineHeight ⟨(0 : Exact), 0⟩ ⟨1, 1⟩ (x : Exact) = x := by
    simp [Curve.lineHeight, Exact.real_div x one_ne_zero]
  rw [Curve.evaluate_of_mem _ hmem, Curve.ramp, Curve.height]
  dsimp only
  rw [hline]
  split
  · rename_i hlow
    rw [Exact.zero_eq, Exact.real_le] at hlow
    rw [Exact.zero_eq, le_antisymm hlow hx.1]
  · split
    · rename_i hhigh
      rw [Exact.one_eq, Exact.real_le] at hhigh
      rw [Exact.one_eq, le_antisymm hx.2 hhigh]
    · rfl

theorem heightFrom_ramp {x : ℝ} (hx : x ∈ Set.Icc (0 : ℝ) 1) (clip : ℝ) :
    heightFrom (x : Exact) 0 (clippedAt [(.ramp, clip)]) =
      .ok ((Max.max 0 (Min.min x clip) : ℝ) : Exact) := by
  refine bind_eq_ok.2 ⟨_, evaluate_ramp hx, ?_⟩
  simp [heightFrom]

/-- An implication fails over a range as it does over the unit interval, and is
    reduced to nothing or to the place in its range of what it is reduced to
    there. -/
theorem defuzzify_rescaled {a b : ℝ} (hab : a < b) (terms : List (Curve Exact × ℝ))
    (method : Method) (count : ℕ) : (exactly a b terms).defuzzify method count =
      ((exactly 0 1 terms).defuzzify method count).map
        (Option.map (Value.map fun d : Exact => a + (b - a) * d)) := by
  rcases Nat.eq_zero_or_pos count with rfl | hpositive
  · rfl
  · rw [defuzzify_exactly hab terms method hpositive.ne',
      defuzzify_exactly zero_lt_one terms method hpositive.ne', positions_rescaled a b]
    cases hheights : unitHeights terms count with
    | error e => rfl
    | ok ys =>
      obtain ⟨zs, rfl, -⟩ := unitHeights_eq_ok hheights
      dsimp only [bind, Except.bind]
      rw [Method.reduce_rescaled a (b - a) method (positions 0 1 count) zs, Exact.real_sub]
      cases method.reduce ((positions 0 1 count).map Exact.real) (zs.map Exact.real) with
      | error e => rfl
      | ok x => cases x <;> rfl

/-- Half a ramp is balanced at three fifths of every range. -/
theorem defuzzify_ramp : (100 : ℝ) < 200 ∧
    (exactly 100 200 [(.ramp, 1 / 2)]).defuzzify .centroid 2 =
      .ok (some (.number ((160 : ℝ) : Exact))) := by
  have hrange : (100 : ℝ) < 200 := by norm_num
  have hcentroid : Method.centroid.reduce ((positions 0 1 2).map Exact.real)
      ([0, 1 / 2, 1 / 2].map Exact.real) = .ok (some ((3 / 5 : ℝ) : Exact)) := by
    rw [Method.reduce_centroid, Method.centroidOf_real]
    norm_num [positions, position, List.range_succ, Method.area, Method.moment, Method.weighted,
      Method.simpson]
  have hheights : unitHeights [(.ramp, 1 / 2)] 2 = .ok ([0, 1 / 2, 1 / 2].map Exact.real) := by
    have hgrid : positions 0 1 2 = [0, 1 / 2, 1] := by
      norm_num [positions, position, List.range_succ]
    rw [unitHeights, hgrid]
    refine mapM_eq_ok.2 (.cons ?_ (.cons ?_ (.cons ?_ .nil))) <;>
      rw [heightFrom_ramp (by norm_num)] <;> norm_num
  have hunit : (exactly 0 1 [(.ramp, 1 / 2)]).defuzzify .centroid 2 =
      .ok (some (.number ((3 / 5 : ℝ) : Exact))) := by
    rw [defuzzify_exactly zero_lt_one _ _ two_ne_zero, hheights]
    exact bind_eq_ok.2 ⟨_, rfl, bind_eq_ok.2 ⟨_, hcentroid, rfl⟩⟩
  have hplace : (100 : ℝ) + (200 - 100) * (3 / 5) = 160 := by norm_num
  refine ⟨hrange, ?_⟩
  rw [defuzzify_rescaled hrange, hunit, ← hplace]
  simp only [Exact.real_sub]
  rfl

end Implication

end FuzzyInference
