import FuzzyInference.Proofs.Defuzzify.Exact
import FuzzyInference.Proofs.Implication.Rearrangement

/-!
# Sampling in exact arithmetic

An implication is sampled on an even grid over its range, and each position is
brought to the unit interval before the curves are evaluated. Without rounding
the position `k` of `count` is brought to `k / count` whatever the range is, so
the range has no influence on the heights.

A height is a real number that is not negative, whatever the curves give: zero
is among what the largest is taken of, and a clip bounds its curve from above.

Results:

* `heightFrom_real`: clipped curves over a real height have a real height.
* `samples_exactly`: the samples of an implication, with the heights over the
  unit interval.
* `defuzzify_exactly`: what an implication is reduced to, by the same heights.
* `unitHeights_eq_ok`: these are real and not negative.
-/

namespace FuzzyInference.Implication

open Scalar

/-- Curves with the real heights that they are clipped at. -/
def clippedAt (terms : List (Curve Exact × ℝ)) : List (Clipped Exact) :=
  terms.map fun (c, h) => ⟨c, h⟩

/-- The implication of clipped curves over a range of real numbers. -/
def exactly (a b : ℝ) (terms : List (Curve Exact × ℝ)) : Implication Exact :=
  ⟨a, b, clippedAt terms, none⟩

/-! ## Heights -/

/-- Whatever a curve gives, clipped at a real height it leaves the largest height
    real. -/
theorem maximum_minimum_real (height clip : ℝ) (y : Exact) :
    ∃ z : ℝ, maximum (height : Exact) (minimum y (clip : Exact)) = z ∧ height ≤ z := by
  cases y with
  | real y => exact ⟨Max.max height (Min.min y clip), by simp, le_max_left _ _⟩
  | undefined =>
    have hclip : minimum Exact.undefined (clip : Exact) = clip := rfl
    exact ⟨Max.max height clip, by simp [hclip], le_max_left _ _⟩
  | infinite negative =>
    cases negative with
    | false =>
      have hclip : minimum (Exact.infinite false) (clip : Exact) = clip := by simp [minimum]
      exact ⟨Max.max height clip, by simp [hclip], le_max_left _ _⟩
    | true =>
      have hclip : minimum (Exact.infinite true) (clip : Exact) = Exact.infinite true := by
        simp [minimum]
      exact ⟨height, by simp [hclip, maximum], le_rfl⟩

/-- Clipped curves over a real height have a real height, which is not below it. -/
theorem heightFrom_real {n y : Exact} {height : ℝ} {terms : List (Curve Exact × ℝ)}
    (h : heightFrom n height (clippedAt terms) = .ok y) : ∃ z : ℝ, y = z ∧ height ≤ z := by
  induction terms generalizing height with
  | nil =>
    cases h
    exact ⟨height, rfl, le_rfl⟩
  | cons t ts ih =>
    obtain ⟨d, -, h⟩ := bind_eq_ok.1 h
    obtain ⟨z, hz, hle⟩ := maximum_minimum_real height t.2 d
    rw [hz] at h
    obtain ⟨w, hw, hle'⟩ := ih h
    exact ⟨w, hw, hle.trans hle'⟩

/-- There is a height where every curve has one. -/
theorem exists_heightFrom {n : Exact} {height : Exact} {terms : List (Curve Exact × ℝ)}
    (h : ∀ t ∈ terms, ∃ y, t.1.evaluate n = .ok y) :
    ∃ y, heightFrom n height (clippedAt terms) = .ok y := by
  induction terms generalizing height with
  | nil => exact ⟨height, rfl⟩
  | cons t ts ih =>
    obtain ⟨d, hd⟩ := h t List.mem_cons_self
    obtain ⟨y, hy⟩ := ih fun u hu => h u (List.mem_cons_of_mem t hu)
    exact ⟨y, bind_eq_ok.2 ⟨d, hd, hy⟩⟩

/-! ## Positions -/

/-- Position `k` of `count` on the way over a range. -/
noncomputable def position (a b : ℝ) (count k : ℕ) : ℝ := a + (b - a) / count * k

/-- All positions of a grid over a range. -/
noncomputable def positions (a b : ℝ) (count : ℕ) : List ℝ :=
  (List.range (count + 1)).map (position a b count)

@[simp] theorem length_positions (a b : ℝ) (count : ℕ) :
    (positions a b count).length = count + 1 := by
  simp [positions]

theorem grid_real (a b : ℝ) {count : ℕ} (hcount : count ≠ 0) :
    grid (a : Exact) b (count + 1) = (positions a b count).map Exact.real := by
  have hstep : gridStep (a : Exact) b (count + 1) = ((b - a) / count : ℝ) := by
    rw [gridStep, if_pos (by omega), Nat.add_sub_cancel, Exact.real_sub, Exact.ofNat_eq,
      Exact.real_div _ (Nat.cast_ne_zero.2 hcount)]
  rw [grid, hstep, positions, List.map_map]
  rfl

/-- The positions over a range are those over the unit interval, rescaled. -/
theorem positions_rescaled (a b : ℝ) (count : ℕ) :
    positions a b count = (positions 0 1 count).map (a + (b - a) * ·) := by
  rw [positions, positions, List.map_map]
  refine List.map_congr_left fun k _ => ?_
  simp only [position, Function.comp_apply]
  ring

theorem mem_of_mem_positions {a b x : ℝ} (hab : a < b) {count : ℕ} (hcount : count ≠ 0)
    (hx : x ∈ positions a b count) : x ∈ Set.Icc a b := by
  obtain ⟨k, hk, rfl⟩ := List.mem_map.1 hx
  have hpositive : (0 : ℝ) < count := Nat.cast_pos.2 (Nat.pos_of_ne_zero hcount)
  have hfraction : (k : ℝ) / count ≤ 1 :=
    (div_le_one hpositive).2 (Nat.cast_le.2 (Nat.lt_succ_iff.1 (List.mem_range.1 hk)))
  have hlength : 0 ≤ b - a := (sub_pos.2 hab).le
  have hway : (b - a) / count * k = (b - a) * (k / count) := by ring
  unfold position
  rw [hway]
  constructor
  · have := mul_nonneg hlength (div_nonneg k.cast_nonneg hpositive.le)
    linarith
  · have := mul_le_mul_of_nonneg_left hfraction hlength
    linarith

/-- Positions are listed from left to right. -/
theorem pairwise_positions {a b : ℝ} (hab : a < b) {count : ℕ} (hcount : count ≠ 0) :
    (positions a b count).Pairwise (· < ·) := by
  refine List.pairwise_map.2 (List.pairwise_lt_range.imp fun {j k} hjk => ?_)
  have hstep : 0 < (b - a) / count :=
    div_pos (sub_pos.2 hab) (Nat.cast_pos.2 (Nat.pos_of_ne_zero hcount))
  have hcast : (j : ℝ) < k := Nat.cast_lt.2 hjk
  have := mul_lt_mul_of_pos_left hcast hstep
  unfold position
  linarith

/-! ## Samples -/

/-- The heights of clipped curves on the grid over the unit interval. -/
noncomputable def unitHeights (terms : List (Curve Exact × ℝ)) (count : ℕ) :
    Result Exact (List Exact) :=
  (positions 0 1 count).mapM fun x : ℝ => heightFrom (x : Exact) 0 (clippedAt terms)

/-- What is sampled at a place of the range is the height at this place of the unit
    interval. -/
theorem sampleAt_place {a b : ℝ} (hab : a < b) (terms : List (Curve Exact × ℝ)) (x : ℝ) :
    (exactly a b terms).sampleAt ((a + (b - a) * x : ℝ) : Exact) =
      heightFrom (x : Exact) 0 (clippedAt terms) := by
  have hlength : b - a ≠ 0 := (sub_pos.2 hab).ne'
  have hunit : (((a + (b - a) * x : ℝ) : Exact) - a) / (b - a) = (x : Exact) := by
    rw [Exact.real_sub, Exact.real_sub, Exact.real_div _ hlength, add_sub_cancel_left,
      mul_div_cancel_left₀ _ hlength]
  have hvalue : (exactly a b terms).valueAt ((a + (b - a) * x : ℝ) : Exact) =
      heightFrom ((((a + (b - a) * x : ℝ) : Exact) - a) / (b - a)) 0 (clippedAt terms) >>=
        fun h => .ok (.number h) := rfl
  unfold sampleAt
  rw [hvalue, hunit]
  cases heightFrom (x : Exact) 0 (clippedAt terms) <;> rfl

/-- An implication is sampled at the positions of its range with the heights over
    the unit interval. -/
theorem samples_exactly {a b : ℝ} (hab : a < b) (terms : List (Curve Exact × ℝ)) {count : ℕ}
    (hcount : count ≠ 0) : (exactly a b terms).samples count =
      unitHeights terms count >>= fun ys => .ok ((positions a b count).map Exact.real, ys) := by
  have hrun : (exactly a b terms).samples count = if count = 0 then .error (.argument .noSamples)
      else (grid (a : Exact) b (count + 1)).mapM (exactly a b terms).sampleAt >>= fun ys =>
        .ok (grid (a : Exact) b (count + 1), ys) := rfl
  have hheights : ((positions a b count).map Exact.real).mapM (exactly a b terms).sampleAt =
      unitHeights terms count := by
    rw [positions_rescaled, List.map_map, List.mapM_map]
    exact congrArg (List.mapM · _) (funext fun x => sampleAt_place hab terms x)
  rw [hrun, if_neg hcount, grid_real a b hcount, hheights]

/-- An implication is reduced from its positions and the heights over the unit
    interval. -/
theorem defuzzify_exactly {a b : ℝ} (hab : a < b) (terms : List (Curve Exact × ℝ)) (method : Method)
    {count : ℕ} (hcount : count ≠ 0) : (exactly a b terms).defuzzify method count =
      unitHeights terms count >>= fun ys =>
        method.reduce ((positions a b count).map Exact.real) ys >>= fun x =>
          .ok (x.map .number) := by
  have hrun : (exactly a b terms).defuzzify method count = (exactly a b terms).samples count >>=
      fun (xs, ys) => method.reduce xs ys >>= fun x => .ok (x.map .number) := rfl
  rw [hrun, samples_exactly hab terms hcount]
  cases unitHeights terms count <;> rfl

/-- The heights are real numbers that are not negative, as many as there are
    positions. -/
theorem unitHeights_eq_ok {terms : List (Curve Exact × ℝ)} {count : ℕ} {ys : List Exact}
    (h : unitHeights terms count = .ok ys) : ∃ zs : List ℝ, ys = zs.map Exact.real ∧
      zs.length = count + 1 ∧ ∀ z ∈ zs, 0 ≤ z := by
  have hreal : ∀ y ∈ ys, ∃ z : ℝ, y = z ∧ 0 ≤ z := by
    intro y hy
    obtain ⟨x, -, hx⟩ := mem_of_mapM_eq_ok h hy
    rw [Exact.zero_eq] at hx
    exact heightFrom_real hx
  have hrange : ys ∈ Set.range (List.map Exact.real) := by
    rw [Set.range_list_map]
    intro y hy
    obtain ⟨z, hz, -⟩ := hreal y hy
    exact ⟨z, hz.symm⟩
  obtain ⟨zs, rfl⟩ := hrange
  refine ⟨zs, rfl, by simpa using (mapM_eq_ok.1 h).length_eq.symm, fun z hz => ?_⟩
  obtain ⟨w, hw, hnonneg⟩ := hreal z (List.mem_map_of_mem hz)
  cases hw
  exact hnonneg

/-- Curves that are defined on the unit interval have heights on the grid. -/
theorem exists_unitHeights {terms : List (Curve Exact × ℝ)}
    (hcurves : ∀ t ∈ terms, ∀ x ∈ Set.Icc (0 : ℝ) 1, ∃ y, t.1.evaluate (x : Exact) = .ok y)
    {count : ℕ} (hcount : count ≠ 0) : ∃ ys, unitHeights terms count = .ok ys := by
  refine exists_mapM_eq_ok.2 fun x hx => exists_heightFrom fun t ht => hcurves t ht x ?_
  exact mem_of_mem_positions zero_lt_one hcount hx

end FuzzyInference.Implication
