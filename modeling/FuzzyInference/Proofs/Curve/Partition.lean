import FuzzyInference.Curve.Template
import FuzzyInference.Proofs.Curve.Polyline
import FuzzyInference.Proofs.Error.Result

/-!
# Triangles spread over the unit interval

The copies of a triangle stand at equal distances. In the middle of slices, or from
edge to edge, no position is further than half that distance from the nearest copy,
and no copy reaches less far than that to both sides.

From edge to edge with an overlap of one half a copy reaches to its neighbours. Counted
in distances, its height falls off by one from its middle to each of them, so that at
any position only the two copies around it have a height, and what one of them loses
on the way the other one gains.

Results:

* `spread_eq`: the copies of a triangle.
* `exists_near`: a copy near every position.
* `sum_hat`: the heights of the hats around a position.
* `spread_triangle`: the copies cover the unit interval, and neighbours that meet
  share it.
-/

namespace FuzzyInference.Curve

/-! ## Copies -/

/-- The distance between the middles of neighbours. -/
noncomputable def gap (count : ℕ) (toEdges : Bool) : ℝ :=
  if toEdges then 1 / ((count - 1 : ℕ) : ℝ) else 1 / count

/-- The middle of the first copy. -/
noncomputable def firstMiddle (count : ℕ) (toEdges : Bool) : ℝ :=
  if toEdges then 0 else gap count toEdges * 0.5

/-- The middle of a copy. -/
noncomputable def middleOf (count : ℕ) (toEdges : Bool) (i : ℕ) : ℝ :=
  firstMiddle count toEdges + gap count toEdges * i

/-- How far a copy reaches to both sides. -/
noncomputable def reach (count : ℕ) (toEdges : Bool) (overlap : ℝ) : ℝ :=
  gap count toEdges * (0.5 + overlap)

/-- The triangle with the heights of three points around a middle. -/
def triangleAround (l a r : Point ℝ) (middle reach : ℝ) : Polyline :=
  .triangle ⟨middle - reach, l.y⟩ ⟨middle, a.y⟩ ⟨middle + reach, r.y⟩

section

variable {count : ℕ} {toEdges : Bool} {overlap x : ℝ}

theorem spacing_exactly (hcount : 2 ≤ count) (toEdges : Bool) :
    spacing count toEdges = ((gap count toEdges : Exact), (firstMiddle count toEdges : Exact)) := by
  have hslices : (count : ℝ) ≠ 0 := Nat.cast_ne_zero.2 (by omega)
  have hgaps : ((count - 1 : ℕ) : ℝ) ≠ 0 := Nat.cast_ne_zero.2 (by omega)
  unfold spacing gap firstMiddle
  cases toEdges with
  | true => simp [Exact.ofNat_eq, Exact.real_div _ hgaps]
  | false =>
    have hhalf : (1 / count / 2 : ℝ) = 1 / count * 0.5 := by ring
    simp only [Bool.false_eq_true, if_false, gap, Exact.one_eq, Exact.two_eq, Exact.ofNat_eq,
      Exact.real_div _ hslices, Exact.real_div _ two_ne_zero, hhalf]

theorem copyAt?_triangle (l a r : Point ℝ) (count : ℕ) (overlap step middle : ℝ) :
    (triangle l.exactly a.exactly r.exactly).copyAt? count (overlap : Exact) step middle =
      some (triangleAround l a r middle (step * (0.5 + overlap))).exactly := by
  have hradius : (step + overlap * step * 2) / 2 = step * (0.5 + overlap) := by ring
  simp only [copyAt?, triangleAround, Polyline.exactly, Point.exactly, Exact.two_eq,
    Exact.real_mul, Exact.real_add, Exact.real_div _ two_ne_zero, Exact.real_sub, hradius]

/-- The copies of a triangle, from left to right. -/
theorem spread_eq (l a r : Point ℝ) (hcount : 2 ≤ count) (toEdges : Bool) (overlap : ℝ) :
    (triangle l.exactly a.exactly r.exactly).spread count (overlap : Exact) toEdges =
      .ok ((List.range count).map fun i =>
        (triangleAround l a r (middleOf count toEdges i)
          (reach count toEdges overlap)).exactly) := by
  have hcopies : ((List.range count).mapM fun i =>
        (triangle l.exactly a.exactly r.exactly).copyAt? count (overlap : Exact) (gap count toEdges)
          (firstMiddle count toEdges + gap count toEdges * Scalar.ofNat i)) =
      some ((List.range count).map fun i =>
        (triangleAround l a r (middleOf count toEdges i)
          (reach count toEdges overlap)).exactly) := by
    simp only [Exact.ofNat_eq, Exact.real_mul, Exact.real_add, copyAt?_triangle]
    exact List.mapM_pure
  rw [spread, if_neg hcount.not_gt, spacing_exactly hcount]
  dsimp only
  rw [hcopies]

/-! ## Middles near a position -/

theorem gap_pos (hcount : 2 ≤ count) (toEdges : Bool) : 0 < gap count toEdges := by
  have hgaps : (0 : ℝ) < ((count - 1 : ℕ) : ℝ) := Nat.cast_pos.2 (by omega)
  have hslices : (0 : ℝ) < count := Nat.cast_pos.2 (by omega)
  cases toEdges with
  | true => exact one_div_pos.2 hgaps
  | false => exact one_div_pos.2 hslices

/-- The slices around the middles start at zero or in front of it, and end at one or
    behind it. -/
theorem slices_cover (hcount : 2 ≤ count) (toEdges : Bool) :
    firstMiddle count toEdges - gap count toEdges / 2 ≤ 0 ∧
      1 ≤ firstMiddle count toEdges - gap count toEdges / 2 + gap count toEdges * count := by
  have hpositive := gap_pos hcount toEdges
  cases toEdges with
  | true =>
    have hgaps : ((count - 1 : ℕ) : ℝ) ≠ 0 := Nat.cast_ne_zero.2 (by omega)
    have hwhole : gap count true * ((count - 1 : ℕ) : ℝ) = 1 := one_div_mul_cancel hgaps
    rw [Nat.cast_pred (by omega)] at hwhole
    simp only [firstMiddle, if_true]
    constructor <;> linarith
  | false =>
    have hslices : (count : ℝ) ≠ 0 := Nat.cast_ne_zero.2 (by omega)
    have hwhole : gap count false * count = 1 := one_div_mul_cancel hslices
    simp only [firstMiddle, Bool.false_eq_true, if_false]
    constructor <;> linarith

theorem exists_cell {p : ℝ} {n : ℕ} (hn : n ≠ 0) (hstart : 0 ≤ p) (hend : p ≤ n) :
    ∃ k < n, (k : ℝ) ≤ p ∧ p ≤ k + 1 := by
  rcases hend.lt_or_eq with hinside | rfl
  · exact ⟨⌊p⌋₊, (Nat.floor_lt hstart).2 hinside, Nat.floor_le hstart, (Nat.lt_floor_add_one p).le⟩
  · -- The end of the last cell is the start of none.
    obtain ⟨last, rfl⟩ := Nat.exists_eq_add_one_of_ne_zero hn
    refine ⟨last, Nat.lt_succ_self last, ?_, ?_⟩ <;> push_cast <;> linarith

/-- Some copy has its middle at most half a distance away. -/
theorem exists_near (hcount : 2 ≤ count) (toEdges : Bool) (hx : x ∈ Set.Icc (0 : ℝ) 1) :
    ∃ i < count, |x - middleOf count toEdges i| ≤ gap count toEdges / 2 := by
  obtain ⟨hfirst, hlast⟩ := slices_cover hcount toEdges
  have hpositive := gap_pos hcount toEdges
  have hstart : 0 ≤ (x - (firstMiddle count toEdges - gap count toEdges / 2)) / gap count toEdges :=
    div_nonneg (by linarith [hx.1]) hpositive.le
  have hend : (x - (firstMiddle count toEdges - gap count toEdges / 2)) /
      gap count toEdges ≤ count := by
    rw [div_le_iff₀ hpositive]
    linarith [hx.2]
  obtain ⟨i, hi, hlow, hhigh⟩ := exists_cell (by omega) hstart hend
  rw [le_div_iff₀ hpositive] at hlow
  rw [div_le_iff₀ hpositive] at hhigh
  refine ⟨i, hi, abs_le.2 ⟨?_, ?_⟩⟩ <;> unfold middleOf <;> linarith

theorem gap_le_reach (hcount : 2 ≤ count) (toEdges : Bool) (hoverlap : 0 ≤ overlap) :
    gap count toEdges / 2 ≤ reach count toEdges overlap := by
  have hshare := mul_nonneg hoverlap (gap_pos hcount toEdges).le
  unfold reach
  linarith

/-! ## Hats -/

/-- The height of a triangle of height one, by the distance from its middle in
    reaches. -/
noncomputable def hat (u : ℝ) : ℝ := max 0 (1 - |u|)

theorem hat_nonneg (u : ℝ) : 0 ≤ hat u := le_max_left _ _

theorem hat_of_far {u : ℝ} (h : 1 ≤ |u|) : hat u = 0 := max_eq_left (by linarith)

theorem hat_of_near {u : ℝ} (h : |u| ≤ 1) : hat u = 1 - |u| := max_eq_right (by linarith)

/-- Two neighbours share what is between them, and the other hats are too far
    away. -/
theorem sum_hat {t : ℝ} {n k : ℕ} (hk : k < n) (hlow : k ≤ t) (hhigh : t ≤ k + 1) :
    ∑ i ∈ Finset.range (n + 1), hat (t - i) = 1 := by
  have hfar : ∀ i ∈ Finset.range (n + 1), i ≠ k ∧ i ≠ k + 1 → hat (t - i) = 0 := by
    rintro i - ⟨hleft, hright⟩
    refine hat_of_far ?_
    rcases Nat.lt_or_ge i k with h | h
    · have hcast : (i : ℝ) + 1 ≤ k := by exact_mod_cast h
      exact le_abs.2 (.inl (by linarith))
    · have hcast : (k : ℝ) + 2 ≤ i := by exact_mod_cast (show k + 2 ≤ i by omega)
      exact le_abs.2 (.inr (by linarith))
  have hsum := Finset.sum_eq_add k (k + 1) (Nat.succ_ne_self k).symm hfar
    (fun h => absurd (Finset.mem_range.2 (by omega)) h)
      (fun h => absurd (Finset.mem_range.2 (by omega)) h)
  have hleft : |t - k| = t - k := abs_of_nonneg (by linarith)
  have hright : |t - (k + 1)| = k + 1 - t := by rw [abs_of_nonpos (by linarith), neg_sub]
  rw [hsum, Nat.cast_succ, hat_of_near (by linarith), hat_of_near (by linarith), hleft, hright]
  ring

section

variable {l a r : Point ℝ} {middle radius : ℝ}

theorem height_rising (hradius : radius ≠ 0) :
    (Segment.linear ⟨middle - radius, 0⟩ ⟨middle, 1⟩).height x = 1 + (x - middle) / radius := by
  have hwidth : middle ≠ middle - radius := fun h => hradius (by linarith)
  rw [Segment.height, if_neg hwidth, sub_sub_cancel]
  field_simp
  ring

theorem height_falling (hradius : radius ≠ 0) :
    (Segment.linear ⟨middle, 1⟩ ⟨middle + radius, 0⟩).height x = 1 - (x - middle) / radius := by
  have hwidth : middle + radius ≠ middle := fun h => hradius (by linarith)
  rw [Segment.height, if_neg hwidth, add_sub_cancel_left]
  field_simp
  ring

/-- A triangle from zero up to one and down again has the height of a hat. -/
theorem height_triangleAround (hl : l.y = 0) (ha : a.y = 1) (hr : r.y = 0) (hradius : 0 < radius) :
    (triangleAround l a r middle radius).exactly.height (x : Exact) =
      .ok (hat ((x - middle) / radius) : Exact) := by
  simp only [triangleAround, Polyline.exactly, hl, ha, hr, height, lineHeight_exactly,
    Point.x_exactly, Point.y_exactly, Exact.real_le, height_rising hradius.ne',
    height_falling hradius.ne']
  split_ifs with hout hleft
  · have hfar : 1 ≤ |(x - middle) / radius| := by
      rw [abs_div, abs_of_pos hradius, one_le_div hradius, le_abs]
      rcases hout with h | h
      · exact .inr (by linarith)
      · exact .inl (by linarith)
    rw [hat_of_far hfar]
  · obtain ⟨hinside, -⟩ := not_or.1 hout
    have hnear : -1 ≤ (x - middle) / radius := by
      rw [le_div_iff₀ hradius]
      linarith
    have hsign : |(x - middle) / radius| = -((x - middle) / radius) :=
      abs_of_nonpos (div_nonpos_of_nonpos_of_nonneg (by linarith) hradius.le)
    rw [hat_of_near (by linarith), hsign, sub_neg_eq_add]
  · obtain ⟨-, hinside⟩ := not_or.1 hout
    have hnear : (x - middle) / radius ≤ 1 := by
      rw [div_le_one hradius]
      linarith
    have hsign : |(x - middle) / radius| = (x - middle) / radius :=
      abs_of_nonneg (div_nonneg (by linarith) hradius.le)
    rw [hat_of_near (by linarith), hsign]

end

/-- From edge to edge, the distances from the middles are counted in gaps. -/
theorem height_copy {l a r : Point ℝ} (hl : l.y = 0) (ha : a.y = 1) (hr : r.y = 0)
    {n : ℕ} (hn : n ≠ 0) (i : ℕ) :
    (triangleAround l a r (middleOf (n + 1) true i) (reach (n + 1) true (1 / 2))).exactly.height
      (x : Exact) =
      .ok (hat (x * n - i) : Exact) := by
  have hcount : (n : ℝ) ≠ 0 := Nat.cast_ne_zero.2 hn
  have hgap : gap (n + 1) true = 1 / n := rfl
  have hreach : reach (n + 1) true (1 / 2) = 1 / n := by
    rw [reach, hgap]
    ring
  have hdistance : (x - middleOf (n + 1) true i) / (1 / n) = x * n - i := by
    simp only [middleOf, firstMiddle, if_true, hgap]
    field_simp
    ring
  rw [hreach, height_triangleAround hl ha hr (by positivity), hdistance]

end

/-- The copies of a triangle cover the unit interval with their bases, wherever they
    stand and however much they overlap. From edge to edge and with an overlap of
    one half, the heights of copies of a triangle between zero and one add up to one
    at every position. -/
theorem spread_triangle (l a r : Point ℝ) {count : ℕ} (hcount : 2 ≤ count)
    (toEdges : Bool) {overlap : ℝ} (hoverlap : 0 ≤ overlap) :
    ∃ copies : List (Curve Exact),
      (triangle l.exactly a.exactly r.exactly).spread count (overlap : Exact) toEdges = .ok copies ∧
      copies.length = count ∧
      (∀ x ∈ Set.Icc (0 : ℝ) 1, ∃ l' a' r' : Point ℝ,
        triangle l'.exactly a'.exactly r'.exactly ∈ copies ∧ x ∈ Set.Icc l'.x r'.x) ∧
      (overlap = 1 / 2 → toEdges = true → l.y = 0 → r.y = 0 → a.y = 1 →
        ∀ x ∈ Set.Icc (0 : ℝ) 1, ∃ heights : List ℝ,
          copies.mapM (fun c => c.evaluate (x : Exact)) = .ok (heights.map Exact.real) ∧
          heights.sum = 1 ∧ ∀ y ∈ heights, 0 ≤ y) := by
  refine ⟨_, spread_eq l a r hcount toEdges overlap, by simp, fun x hx => ?_, ?_⟩
  · obtain ⟨i, hi, hnear⟩ := exists_near hcount toEdges hx
    obtain ⟨hleft, hright⟩ := abs_le.1 (hnear.trans (gap_le_reach hcount toEdges hoverlap))
    exact ⟨_, _, _, List.mem_map.2 ⟨i, List.mem_range.2 hi, rfl⟩, by linarith, by linarith⟩
  · rintro rfl rfl hl hr ha x hx
    obtain ⟨n, rfl⟩ : ∃ n, count = n + 1 := ⟨count - 1, by omega⟩
    have hn : n ≠ 0 := by omega
    have hcells : (0 : ℝ) ≤ n := n.cast_nonneg
    obtain ⟨k, hk, hlow, hhigh⟩ :=
      exists_cell hn (mul_nonneg hx.1 hcells) (mul_le_of_le_one_left hcells hx.2)
    refine ⟨(List.range (n + 1)).map fun i : ℕ => hat (x * n - i), ?_, sum_hat hk hlow hhigh, ?_⟩
    · rw [mapM_eq_ok, List.map_map, List.forall₂_map_left_iff, List.forall₂_map_right_iff,
        List.forall₂_same]
      intro i _
      rw [evaluate_unit hx, height_copy hl ha hr hn]
      rfl
    · intro y hy
      obtain ⟨i, -, rfl⟩ := List.mem_map.1 hy
      exact hat_nonneg _

/-- A triangle whose points are not in order. -/
def leaning : Polyline := .triangle ⟨1, 0⟩ ⟨0.5, 1⟩ ⟨0.5, 0⟩

/-- Three copies from edge to edge share a position between the first and the second
    one. -/
theorem spread_leaning : 2 ≤ 3 ∧ (0 : ℝ) ≤ 1 / 2 ∧
    ∃ copies : List (Curve Exact), ∃ heights : List ℝ,
    leaning.exactly.spread 3 (.real (1 / 2)) true = .ok copies ∧ copies.length = 3 ∧
    copies.mapM (fun c => c.evaluate (.real 0.2)) = .ok (heights.map Exact.real) ∧
    heights.sum = 1 := by
  have hoverlap : (0 : ℝ) ≤ 1 / 2 := by norm_num
  obtain ⟨copies, hcopies, hlength, -, hpartition⟩ :=
    spread_triangle ⟨1, 0⟩ ⟨0.5, 1⟩ ⟨0.5, 0⟩ (Nat.le_succ 2) true hoverlap
  obtain ⟨heights, hheights, hsum, -⟩ := hpartition rfl rfl rfl rfl rfl 0.2 (by norm_num)
  exact ⟨Nat.le_succ 2, hoverlap, copies, heights, hcopies, hlength, hheights, hsum⟩

end FuzzyInference.Curve
