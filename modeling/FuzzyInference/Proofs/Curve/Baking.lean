import FuzzyInference.Proofs.Implication.Rescaling

/-!
# Baked curves

A curve is baked by sampling it on an even grid over `[0, 1]`, and the table is read
by interpolation. Sampling steps from one position to the next, whereas reading
multiplies the position by the number of cells, rounds it down to a cell and takes
what is left as the way through it. In exact arithmetic the two agree: sample `k` of
`count + 1` is at `k / count`, where reading finds cell `k` and no way into it.

The end of a cell is the start of the next one, and both give the sample between
them. At the right end there is no next cell, and the last one is read to its end.

Results:

* `interpolate?_cell`: how a table is read within a cell.
* `bake_eq`: the table that a curve is baked into.
* `bake_faithful`: a baked curve goes through the samples and runs between them, an
  affine curve is baked into itself, and so is a baked one.
-/

namespace FuzzyInference

/-! ## Reading a table -/

/-- The cell that a position, counted in cells, falls into. -/
theorem interpolate?_eq {α : Type} [Scalar α] {x position low high : α} {ys : List α} {i : ℕ}
    (hys : 2 ≤ ys.length)
    (hposition : Scalar.minimum (Scalar.maximum x 0) 1 * Scalar.ofNat (ys.length - 1) = position)
    (hi : min (Scalar.toNat (Scalar.floor position)) (ys.length - 1 - 1) = i)
    (hlow : ys[i]? = some low) (hhigh : ys[i + 1]? = some high) :
    interpolate? x ys = some (onLine low high (position - Scalar.ofNat i)) := by
  match ys, hys with
  | _ :: _ :: _, _ =>
    simp only [interpolate?]
    rw [hposition, hi, hlow, hhigh]

/-- A table of real heights, by their places. -/
noncomputable def tableOf (heights : ℕ → ℝ) (count : ℕ) : List Exact :=
  (List.range (count + 1)).map fun k => (heights k : Exact)

/-- The height within a cell, at a position counted in cells. -/
def cellHeight (heights : ℕ → ℝ) (k : ℕ) (position : ℝ) : ℝ :=
  heights k + (heights (k + 1) - heights k) * (position - k)

section

variable {heights : ℕ → ℝ} {count k : ℕ} {x : ℝ}

theorem length_tableOf : (tableOf heights count).length = count + 1 := by simp [tableOf]

theorem getElem?_tableOf (hk : k ≤ count) :
    (tableOf heights count)[k]? = some (heights k : Exact) := by
  simp [tableOf, Nat.lt_succ_iff.2 hk]

theorem cellHeight_left : cellHeight heights k k = heights k := by simp [cellHeight]

theorem cellHeight_right : cellHeight heights k (k + 1) = heights (k + 1) := by simp [cellHeight]

/-- Between its ends a cell does not leave the heights that it joins. -/
theorem cellHeight_mem {position : ℝ} (hlow : k ≤ position) (hhigh : position ≤ k + 1) :
    cellHeight heights k position ∈ Set.uIcc (heights k) (heights (k + 1)) := by
  have hstart : 0 ≤ position - k := sub_nonneg.2 hlow
  have hend : position - k ≤ 1 := by linarith
  rw [cellHeight, Set.mem_uIcc]
  rcases le_total (heights k) (heights (k + 1)) with h | h
  · exact .inl ⟨by nlinarith, by nlinarith⟩
  · exact .inr ⟨by nlinarith, by nlinarith⟩

theorem toNat_floor_real {p : ℝ} (hp : 0 ≤ p) : Scalar.toNat (Scalar.floor (p : Exact)) = ⌊p⌋₊ := by
  change ⌊((⌊p⌋ : ℤ) : ℝ)⌋₊ = ⌊p⌋₊
  rw [← natCast_floor_eq_intCast_floor hp, Nat.floor_natCast]

/-- A table is read in the cell that a position falls into, and at the right end in
    the last one. -/
theorem interpolate?_tableOf (hcount : count ≠ 0) (hx : x ∈ Set.Icc (0 : ℝ) 1) :
    interpolate? (x : Exact) (tableOf heights count) =
      some (cellHeight heights (min ⌊x * count⌋₊ (count - 1)) (x * count) : ℝ) := by
  have hlength : 2 ≤ (tableOf heights count).length := by
    rw [length_tableOf]
    omega
  have hcells : (tableOf heights count).length - 1 = count := by
    rw [length_tableOf, Nat.add_sub_cancel]
  have hposition : Scalar.minimum (Scalar.maximum (x : Exact) 0) 1 *
      Scalar.ofNat ((tableOf heights count).length - 1) = ((x * count : ℝ) : Exact) := by
    rw [hcells, Exact.zero_eq, Exact.one_eq, Exact.maximum_real, Exact.minimum_real, Exact.ofNat_eq,
      Exact.real_mul, max_eq_left hx.1, min_eq_left hx.2]
  have hcell : min (Scalar.toNat (Scalar.floor ((x * count : ℝ) : Exact)))
      ((tableOf heights count).length - 1 - 1) = min ⌊x * count⌋₊ (count - 1) := by
    rw [hcells, toNat_floor_real (mul_nonneg hx.1 count.cast_nonneg)]
  have hinside : min ⌊x * count⌋₊ (count - 1) + 1 ≤ count := by omega
  rw [interpolate?_eq hlength hposition hcell (getElem?_tableOf (Nat.le_of_succ_le hinside))
    (getElem?_tableOf hinside)]
  simp only [onLine, Exact.ofNat_eq, Exact.real_sub, Exact.real_mul, Exact.real_add]
  rfl

/-- The cell that is read at the end of another one gives the same height as that
    one. -/
theorem cellHeight_floor {position : ℝ} (hk : k < count) (hlow : k ≤ position)
    (hhigh : position ≤ k + 1) :
    cellHeight heights (min ⌊position⌋₊ (count - 1)) position = cellHeight heights k position := by
  rcases hhigh.lt_or_eq with hinside | rfl
  · have hfloor : ⌊position⌋₊ = k := (Nat.floor_eq_iff (k.cast_nonneg.trans hlow)).2 ⟨hlow, hinside⟩
    rw [hfloor, min_eq_left (Nat.le_sub_one_of_lt hk)]
  · -- The end of the cell is read in the next one, if there is a next one.
    have hfloor : ⌊(k : ℝ) + 1⌋₊ = k + 1 := by exact_mod_cast Nat.floor_natCast (k + 1)
    rw [hfloor]
    rcases Nat.lt_or_ge (k + 1) count with hnext | hlast
    · rw [min_eq_left (Nat.le_sub_one_of_lt hnext), cellHeight_right, ← Nat.cast_succ,
        cellHeight_left]
    · rw [min_eq_right (by omega), show count - 1 = k by omega]

theorem mem_unit_of_cell (hk : k < count) (hlow : k ≤ x * count) (hhigh : x * count ≤ k + 1) :
    x ∈ Set.Icc (0 : ℝ) 1 := by
  have hpositive : (0 : ℝ) < count := Nat.cast_pos.2 (Nat.zero_lt_of_lt hk)
  have hlast : (k : ℝ) + 1 ≤ count := by exact_mod_cast hk
  refine ⟨nonneg_of_mul_nonneg_left (k.cast_nonneg.trans hlow) hpositive, ?_⟩
  exact le_of_mul_le_mul_right (by linarith) hpositive

theorem interpolate?_cell (hk : k < count) (hlow : k ≤ x * count) (hhigh : x * count ≤ k + 1) :
    interpolate? (x : Exact) (tableOf heights count) =
      some (cellHeight heights k (x * count) : ℝ) := by
  rw [interpolate?_tableOf (Nat.ne_zero_of_lt hk) (mem_unit_of_cell hk hlow hhigh),
    cellHeight_floor hk hlow hhigh]

end

/-! ## Tables as curves -/

namespace Curve

/-- The position of sample `i` of an even grid over `[0, 1]`. -/
noncomputable def gridPoint (samples i : ℕ) : ℝ := i / (samples - 1)

section

variable {c : Curve Exact} {heights : ℕ → ℝ} {count k : ℕ} {x : ℝ}

theorem gridPoint_succ (count k : ℕ) : gridPoint (count + 1) k = k / count := by
  rw [gridPoint, Nat.cast_succ, add_sub_cancel_right]

theorem gridPoint_mem (hcount : count ≠ 0) (hk : k ≤ count) :
    gridPoint (count + 1) k ∈ Set.Icc (0 : ℝ) 1 := by
  rw [gridPoint_succ]
  exact ⟨by positivity,
    (div_le_one (Nat.cast_pos.2 (Nat.pos_of_ne_zero hcount))).2 (Nat.cast_le.2 hk)⟩

theorem evaluate_lookup (hx : x ∈ Set.Icc (0 : ℝ) 1) {ys : List Exact} {y : Exact}
    (hy : interpolate? (x : Exact) ys = some y) : (lookup ys).evaluate (x : Exact) = .ok y := by
  have hunit : 0 ≤ (x : Exact) ∧ (x : Exact) ≤ 1 := by simpa using hx
  rw [evaluate_of_mem _ hunit, height]
  simp only [hy]

theorem evaluate_cell (hk : k < count) (hlow : k ≤ x * count) (hhigh : x * count ≤ k + 1) :
    (lookup (tableOf heights count)).evaluate (x : Exact) =
      .ok (cellHeight heights k (x * count) : ℝ) :=
  evaluate_lookup (mem_unit_of_cell hk hlow hhigh) (interpolate?_cell hk hlow hhigh)

/-- A table has its heights at the points of the grid; the last one is the end of
    the last cell. -/
theorem evaluate_gridPoint (hcount : count ≠ 0) (hk : k ≤ count) :
    (lookup (tableOf heights count)).evaluate (gridPoint (count + 1) k : Exact) =
      .ok (heights k : Exact) := by
  have hposition : gridPoint (count + 1) k * count = k := by
    rw [gridPoint_succ, div_mul_cancel₀ _ (Nat.cast_ne_zero.2 hcount)]
  rcases hk.lt_or_eq with hinside | rfl
  · rw [evaluate_cell hinside hposition.ge (by linarith), hposition, cellHeight_left]
  · obtain ⟨last, rfl⟩ := Nat.exists_eq_add_one_of_ne_zero hcount
    have hend : gridPoint (last + 1 + 1) (last + 1) * ((last + 1 : ℕ) : ℝ) = last + 1 := by
      rw [hposition, Nat.cast_succ]
    rw [evaluate_cell (Nat.lt_succ_self last) (by linarith) hend.le, hend, cellHeight_right]

/-- A curve is baked into the table of its heights on the grid. -/
theorem bake_eq (hcount : count ≠ 0)
    (h : ∀ k ≤ count, c.evaluate (gridPoint (count + 1) k : Exact) = .ok (heights k : Exact)) :
    c.bake (count + 1) = .ok (lookup (tableOf heights count)) := by
  have hgrid : grid (0 : Exact) 1 (count + 1) =
      (List.range (count + 1)).map fun k => (gridPoint (count + 1) k : Exact) := by
    rw [Exact.zero_eq, Exact.one_eq, Implication.grid_real 0 1 hcount,
      Implication.positions, List.map_map]
    refine List.map_congr_left fun k _ => ?_
    rw [Function.comp_apply, Implication.position, gridPoint_succ]
    congr 1
    ring
  have hsamples : (grid (0 : Exact) 1 (count + 1)).mapM c.evaluate =
      .ok (tableOf heights count) := by
    rw [mapM_eq_ok, hgrid, tableOf, List.forall₂_map_left_iff, List.forall₂_map_right_iff,
      List.forall₂_same]
    exact fun k hk => h k (Nat.lt_succ_iff.1 (List.mem_range.1 hk))
  have henough : ¬ count + 1 < 2 := by omega
  rw [bake, if_neg henough, hsamples]
  rfl

/-- The samples of an affine curve are on one line, which the cells between them
    continue. -/
theorem evaluate_affine {a b : ℝ} (hcount : count ≠ 0)
    (h : ∀ k ≤ count, heights k = a + b * gridPoint (count + 1) k) (hx : x ∈ Set.Icc (0 : ℝ) 1) :
    (lookup (tableOf heights count)).evaluate (x : Exact) = .ok ((a + b * x : ℝ) : Exact) := by
  have hcell : min ⌊x * count⌋₊ (count - 1) + 1 ≤ count := by omega
  have hline : cellHeight heights (min ⌊x * count⌋₊ (count - 1)) (x * count) = a + b * x := by
    generalize min ⌊x * count⌋₊ (count - 1) = k at hcell ⊢
    rw [cellHeight, h k (Nat.le_of_succ_le hcell), h (k + 1) hcell, gridPoint_succ, gridPoint_succ,
      Nat.cast_succ]
    field_simp
    ring
  rw [evaluate_lookup hx (interpolate?_tableOf hcount hx), hline]

end

/-- Over exact scalars a curve with real heights on a grid of at least two points is
    baked into a curve that has the same heights there. Between two neighbours it is
    between their heights, and all over `[0, 1]` it is the curve itself if that is
    affine. Baking it on the same grid changes nothing. -/
theorem bake_faithful (c : Curve Exact) {samples : ℕ} (hsamples : 2 ≤ samples) {heights : ℕ → ℝ}
    (h : ∀ i < samples, c.evaluate (gridPoint samples i : Exact) = .ok (heights i : Exact)) :
    ∃ baked, c.bake samples = .ok baked ∧
      (∀ i < samples, baked.evaluate (gridPoint samples i : Exact) =
        c.evaluate (gridPoint samples i : Exact)) ∧
      (∀ i, i + 1 < samples → ∀ x ∈ Set.Icc (gridPoint samples i) (gridPoint samples (i + 1)),
        ∃ y ∈ Set.uIcc (heights i) (heights (i + 1)),
          baked.evaluate (x : Exact) = .ok (y : Exact)) ∧
      (∀ a b : ℝ,
        (∀ x ∈ Set.Icc (0 : ℝ) 1, c.evaluate (x : Exact) = .ok ((a + b * x : ℝ) : Exact)) →
        ∀ x ∈ Set.Icc (0 : ℝ) 1, baked.evaluate (x : Exact) = c.evaluate (x : Exact)) ∧
      baked.bake samples = .ok baked := by
  obtain ⟨count, rfl⟩ : ∃ count, samples = count + 1 := ⟨samples - 1, by omega⟩
  have hcount : count ≠ 0 := by omega
  have hcount' : (0 : ℝ) < count := Nat.cast_pos.2 (Nat.pos_of_ne_zero hcount)
  have hheights : ∀ k ≤ count,
      c.evaluate (gridPoint (count + 1) k : Exact) = .ok (heights k : Exact) :=
    fun k hk => h k (Nat.lt_succ_iff.2 hk)
  refine ⟨_, bake_eq hcount hheights, fun i hi => ?_, fun i hi x hx => ?_,
    fun a b hc x hx => ?_, ?_⟩
  · rw [evaluate_gridPoint hcount (Nat.lt_succ_iff.1 hi), h i hi]
  · rw [gridPoint_succ, gridPoint_succ, Set.mem_Icc, div_le_iff₀ hcount', le_div_iff₀ hcount',
      Nat.cast_succ] at hx
    exact ⟨_, cellHeight_mem hx.1 hx.2, evaluate_cell (Nat.lt_of_succ_lt_succ hi) hx.1 hx.2⟩
  · have hline : ∀ k ≤ count, heights k = a + b * gridPoint (count + 1) k := fun k hk =>
      Exact.real.inj (Except.ok.inj ((hheights k hk).symm.trans (hc _ (gridPoint_mem hcount hk))))
    rw [evaluate_affine hcount hline hx, hc x hx]
  · exact bake_eq hcount fun k hk => evaluate_gridPoint hcount hk

/-- Three samples of the diagonal, which is read at its right end and in its second
    half. -/
theorem bake_ramp :
    2 ≤ 3 ∧ (∀ i < 3, ramp.evaluate (gridPoint 3 i : Exact) = .ok (gridPoint 3 i : Exact)) ∧
    ∃ baked : Curve Exact, ramp.bake 3 = .ok baked ∧
      baked.evaluate (gridPoint 3 2 : Exact) = .ok (gridPoint 3 2 : Exact) ∧
      baked.evaluate (.real 0.75) = .ok (.real 0.75) ∧ baked.bake 3 = .ok baked := by
  have hsamples : ∀ i < 3, ramp.evaluate (gridPoint 3 i : Exact) = .ok (gridPoint 3 i : Exact) :=
    fun i hi =>
    Implication.evaluate_ramp (gridPoint_mem two_ne_zero (Nat.lt_succ_iff.1 hi))
  have haffine : ∀ x ∈ Set.Icc (0 : ℝ) 1,
      ramp.evaluate (x : Exact) = .ok ((0 + 1 * x : ℝ) : Exact) := by
    intro x hx
    rw [Implication.evaluate_ramp hx, zero_add, one_mul]
  have hinside : (0.75 : ℝ) ∈ Set.Icc (0 : ℝ) 1 := by norm_num
  obtain ⟨baked, hbaked, hgrid, -, hline, hagain⟩ := bake_faithful ramp (Nat.le_succ 2) hsamples
  refine ⟨Nat.le_succ 2, hsamples, baked, hbaked, ?_, ?_, hagain⟩
  · rw [hgrid 2 (Nat.lt_succ_self 2), hsamples 2 (Nat.lt_succ_self 2)]
  · rw [hline 0 1 haffine 0.75 hinside, Implication.evaluate_ramp hinside]

end Curve

end FuzzyInference
