import FuzzyInference.Proofs.Defuzzify.SignedZero
import FuzzyInference.Proofs.Error.Result
import FuzzyInference.Proofs.Scalar.Exact

/-!
# Methods on exact samples

What the methods find among samples that are real numbers. The bisector and the
maxima only carry positions along, so the position they find is one of the
samples' and follows every change of positions. The centroid is a weighted mean,
which lies between the outermost positions and follows an affine change of them.

Results:

* `balancePoint_map`, `maximal_map`: positions are carried along.
* `centroidOf_real`: the centroid as moment over area.
* `maximal_real`: the positions of maximal height.
-/

namespace FuzzyInference.Method

open Scalar

/-! ## The methods one by one -/

section

variable {α : Type} [Scalar α] (positions heights : List α)

theorem reduce_bisector :
    bisector.reduce positions heights = bisectorOf (positions.zip heights) := by
  unfold reduce bisectorOf
  cases positions.zip heights with
  | nil => exact (ite_self _).symm
  | cons s rest => rfl

theorem reduce_smallestOfMaximum :
    smallestOfMaximum.reduce positions heights = .ok (maximal (positions.zip heights)).head? := by
  unfold reduce
  cases positions.zip heights <;> rfl

theorem reduce_largestOfMaximum :
    largestOfMaximum.reduce positions heights = .ok (maximal (positions.zip heights)).getLast? := by
  unfold reduce
  cases positions.zip heights <;> rfl

theorem reduce_meanOfMaximum :
    meanOfMaximum.reduce positions heights =
      .ok ((maximal (positions.zip heights)).head?.bind fun first =>
        (maximal (positions.zip heights)).getLast?.map fun last => (first + last) / (1 + 1)) := by
  unfold reduce
  cases positions.zip heights with
  | nil => rfl
  | cons s rest =>
    dsimp only [List.isEmpty_cons]
    cases (maximal (s :: rest)).head? with
    | none => rfl
    | some first => cases (maximal (s :: rest)).getLast? <;> rfl

end

/-! ## Positions are carried along -/

section

variable {α : Type} [Scalar α]

theorem balancePoint_map (f : α → α) (previous lastImbalance : α) (samples : List (α × α)) :
    balancePoint (f previous) lastImbalance (samples.map (Prod.map f id)) =
      (balancePoint previous lastImbalance samples).map f := by
  induction samples generalizing previous lastImbalance with
  | nil => rfl
  | cons s rest ih =>
    obtain ⟨x, d⟩ := s
    simp only [List.map_cons, Prod.map_apply, id_eq, balancePoint]
    split
    · rfl
    · split
      · rfl
      · exact ih x d

theorem mem_of_balancePoint {previous lastImbalance x : α} {samples : List (α × α)}
    (h : balancePoint previous lastImbalance samples = .ok x) :
    x = previous ∨ x ∈ samples.map (·.1) := by
  induction samples generalizing previous lastImbalance with
  | nil => cases h
  | cons s rest ih =>
    obtain ⟨x', d⟩ := s
    rw [balancePoint] at h
    split at h
    · cases h
      exact .inr (by simp)
    · split at h
      · cases h
        exact .inl rfl
      · right
        rcases ih h with rfl | hmem
        · simp
        · exact List.mem_cons_of_mem _ hmem

theorem bisectorOf_map (f : α → α) (samples : List (α × α)) :
    bisectorOf (samples.map (Prod.map f id)) = (bisectorOf samples).map (Option.map f) := by
  have hheights : (samples.map (Prod.map f id)).map (·.2) = samples.map (·.2) := by simp
  have hpositions : (samples.map (Prod.map f id)).map (·.1) = (samples.map (·.1)).map f := by simp
  unfold bisectorOf
  dsimp only
  rw [hheights, hpositions, List.zip_map_left]
  split
  · rfl
  · cases samples with
    | nil => rfl
    | cons s rest =>
      simp only [List.map_cons (f := Prod.map f id), Prod.map_fst, balancePoint_map]
      cases balancePoint s.1 _ _ <;> rfl

theorem mem_of_bisectorOf {samples : List (α × α)} {x : α} (h : bisectorOf samples = .ok (some x)) :
    x ∈ samples.map (·.1) := by
  unfold bisectorOf at h
  dsimp only at h
  split at h
  · cases h
  · cases samples with
    | nil => cases h
    | cons s rest =>
      obtain ⟨found, hfound, h⟩ := bind_eq_ok.1 h
      cases h
      rcases mem_of_balancePoint hfound with rfl | hmem
      · simp
      · obtain ⟨⟨y, d⟩, hpair, rfl⟩ := List.mem_map.1 hmem
        exact (List.of_mem_zip hpair).1

theorem bisectorOf_eq_none {samples : List (α × α)} (hne : samples ≠ []) :
    bisectorOf samples = .ok none ↔ ((samples.map (·.2)).foldl (· + ·) 0 == 0) = true := by
  unfold bisectorOf
  dsimp only
  split
  · rename_i htotal
    exact iff_of_true rfl htotal
  · rename_i htotal
    cases samples with
    | nil => exact absurd rfl hne
    | cons s rest =>
      refine iff_of_false (fun h => ?_) htotal
      obtain ⟨found, -, h⟩ := bind_eq_ok.1 h
      cases h

theorem maximal_map (f : α → α) (samples : List (α × α)) :
    maximal (samples.map (Prod.map f id)) = (maximal samples).map f := by
  unfold maximal
  dsimp only
  rw [List.foldl_map, List.filter_map, List.map_map, List.map_map]
  rfl

end

/-! ## Real samples -/

/-- Samples at real positions with real heights, as exact scalars. -/
def exactly (samples : List (ℝ × ℝ)) : List (Exact × Exact) :=
  samples.map (Prod.map Exact.real Exact.real)

theorem zip_exactly (xs ys : List ℝ) :
    (xs.map Exact.real).zip (ys.map Exact.real) = exactly (xs.zip ys) := List.zip_map ..

/-- Simpson's weight of sample `i` of `n`. -/
noncomputable def simpson (n i : ℕ) : ℝ :=
  ((if i = 0 ∨ i + 1 = n then 1 else if i % 2 = 1 then 4 else 2 : ℕ) : ℝ)

/-- The weighted sum of what a function reads off samples. -/
noncomputable def weighted (read : ℝ × ℝ → ℝ) (samples : List (ℝ × ℝ)) : ℝ :=
  (samples.zipIdx.map fun s => simpson samples.length s.2 * read s.1).sum

/-- The area under samples, up to the factor of Simpson's rule. -/
noncomputable def area (samples : List (ℝ × ℝ)) : ℝ := weighted (·.2) samples

/-- Their first moment, up to the same factor. -/
noncomputable def moment (samples : List (ℝ × ℝ)) : ℝ := weighted (fun s => s.1 * s.2) samples

theorem weight_eq (n i : ℕ) : (weight n i : Exact) = simpson n i := by
  unfold weight simpson
  split
  · simp
  · split <;> simp

theorem pos_of_ends {p q : Prop} [Decidable p] [Decidable q] {a b : ℕ} (ha : 0 < a) (hb : 0 < b) :
    (0 : ℝ) < (if p then 1 else if q then a else b : ℕ) := by
  refine Nat.cast_pos.2 ?_
  split
  · exact Nat.one_pos
  · split
    · exact ha
    · exact hb

theorem simpson_pos (n i : ℕ) : 0 < simpson n i := pos_of_ends (by decide) (by decide)

theorem foldl_addSample_real (n k : ℕ) (samples : List (ℝ × ℝ)) (area moment : ℝ) :
    ((exactly samples).zipIdx k).foldl (addSample n) (↑area, ↑moment) =
      (((area + ((samples.zipIdx k).map fun s => simpson n s.2 * s.1.2).sum : ℝ) : Exact),
        ((moment + ((samples.zipIdx k).map fun s => simpson n s.2 * (s.1.1 * s.1.2)).sum : ℝ) :
          Exact)) := by
  induction samples generalizing k area moment with
  | nil => simp [exactly]
  | cons s rest ih =>
    have hstep : addSample n (↑area, ↑moment) (Prod.map Exact.real Exact.real s, k) =
        (((area + simpson n k * s.2 : ℝ) : Exact),
          ((moment + simpson n k * (s.1 * s.2) : ℝ) : Exact)) := by
      simp [addSample, weight_eq, mul_assoc]
    have hrest := ih (k + 1) (area + simpson n k * s.2) (moment + simpson n k * (s.1 * s.2))
    rw [exactly] at hrest
    rw [exactly, List.map_cons, List.zipIdx_cons, List.foldl_cons, hstep, hrest]
    simp [add_assoc]

theorem momentum_real (samples : List (ℝ × ℝ)) :
    momentum (exactly samples).length (exactly samples).zipIdx =
      ((area samples : Exact), (moment samples : Exact)) := by
  have hfold := foldl_addSample_real samples.length 0 samples 0 0
  rw [momentum_eq_foldl, Exact.zero_eq, exactly, List.length_map]
  rw [exactly] at hfold
  simpa [area, moment, weighted] using hfold

/-- The centroid of real samples is their moment over their area. -/
theorem centroidOf_real (samples : List (ℝ × ℝ)) :
    centroidOf (exactly samples) =
      if area samples = 0 then none else some ((moment samples / area samples : ℝ) : Exact) := by
  unfold centroidOf
  rw [momentum_real]
  simp only [Exact.zero_eq, Exact.real_beq]
  split
  · rfl
  · rename_i harea
    rw [Exact.real_div _ harea]

theorem reduce_centroid (xs ys : List ℝ) : centroid.reduce (xs.map Exact.real) (ys.map Exact.real) =
    .ok (centroidOf (exactly (xs.zip ys))) := by
  unfold reduce
  dsimp only
  rw [zip_exactly]
  cases xs.zip ys with
  | nil =>
    rw [centroidOf_real]
    simp [area, weighted, exactly]
  | cons s rest => rfl

/-! ## Weighted sums -/

theorem weighted_mul (c : ℝ) (read : ℝ × ℝ → ℝ) (samples : List (ℝ × ℝ)) :
    weighted (fun s => c * read s) samples = c * weighted read samples := by
  unfold weighted
  rw [← List.sum_map_mul_left]
  simp only [mul_left_comm]

theorem weighted_add (read read' : ℝ × ℝ → ℝ) (samples : List (ℝ × ℝ)) :
    weighted (fun s => read s + read' s) samples =
      weighted read samples + weighted read' samples := by
  unfold weighted
  rw [← List.sum_map_add]
  simp only [mul_add]

theorem weighted_le_weighted {read read' : ℝ × ℝ → ℝ} {samples : List (ℝ × ℝ)}
    (h : ∀ s ∈ samples, read s ≤ read' s) : weighted read samples ≤ weighted read' samples := by
  unfold weighted
  refine List.sum_le_sum fun s hs => ?_
  exact mul_le_mul_of_nonneg_left (h s.1 (List.fst_mem_of_mem_zipIdx hs)) (simpson_pos _ _).le

theorem weighted_map (read : ℝ × ℝ → ℝ) (f : ℝ × ℝ → ℝ × ℝ) (samples : List (ℝ × ℝ)) :
    weighted read (samples.map f) = weighted (fun s => read (f s)) samples := by
  unfold weighted
  rw [List.zipIdx_map, List.map_map, List.length_map]
  rfl

/-- Heights that are not negative have no area only if they are all zero. -/
theorem area_eq_zero_iff {samples : List (ℝ × ℝ)} (h : ∀ s ∈ samples, 0 ≤ s.2) :
    area samples = 0 ↔ ∀ s ∈ samples, s.2 = 0 := by
  unfold area weighted
  constructor
  · intro harea s hs
    obtain ⟨i, hi⟩ := List.mem_iff_getElem?.1 hs
    have hnonneg : ∀ w ∈ samples.zipIdx.map fun s => simpson samples.length s.2 * s.1.2, 0 ≤ w := by
      intro w hw
      obtain ⟨u, hu, rfl⟩ := List.mem_map.1 hw
      exact mul_nonneg (simpson_pos _ _).le (h u.1 (List.fst_mem_of_mem_zipIdx hu))
    have hterm := List.all_zero_of_le_zero_le_of_sum_eq_zero hnonneg harea
      (List.mem_map_of_mem (List.mk_mem_zipIdx_iff_getElem?.2 hi))
    exact (mul_eq_zero.1 hterm).resolve_left (simpson_pos _ _).ne'
  · intro hzero
    refine List.sum_eq_zero fun w hw => ?_
    obtain ⟨u, hu, rfl⟩ := List.mem_map.1 hw
    have hheight : u.1.2 = 0 := hzero u.1 (List.fst_mem_of_mem_zipIdx hu)
    exact mul_eq_zero_of_right _ hheight

theorem area_nonneg {samples : List (ℝ × ℝ)} (h : ∀ s ∈ samples, 0 ≤ s.2) : 0 ≤ area samples := by
  have hzero : weighted (fun s => 0 * s.2) samples ≤ area samples :=
    weighted_le_weighted fun s hs => by simpa using h s hs
  rwa [weighted_mul, zero_mul] at hzero

/-- The centroid lies between the positions of its samples. -/
theorem moment_div_area_mem {samples : List (ℝ × ℝ)} {a b : ℝ}
    (hpos : ∀ s ∈ samples, s.1 ∈ Set.Icc a b) (h : ∀ s ∈ samples, 0 ≤ s.2)
    (harea : area samples ≠ 0) :
    moment samples / area samples ∈ Set.Icc a b := by
  have hpositive : 0 < area samples := (area_nonneg h).lt_of_ne' harea
  have hlow : a * area samples ≤ moment samples := by
    rw [area, ← weighted_mul]
    exact weighted_le_weighted fun s hs => mul_le_mul_of_nonneg_right (hpos s hs).1 (h s hs)
  have hhigh : moment samples ≤ b * area samples := by
    rw [area, ← weighted_mul]
    exact weighted_le_weighted fun s hs => mul_le_mul_of_nonneg_right (hpos s hs).2 (h s hs)
  exact ⟨(le_div_iff₀ hpositive).2 hlow, (div_le_iff₀ hpositive).2 hhigh⟩

/-! ## Totals -/

theorem foldl_add_real (ys : List ℝ) (acc : ℝ) :
    (ys.map Exact.real).foldl (· + ·) (acc : Exact) = ((acc + ys.sum : ℝ) : Exact) := by
  induction ys generalizing acc with
  | nil => simp
  | cons y ys ih =>
    rw [List.map_cons, List.foldl_cons, Exact.real_add, ih, List.sum_cons, add_assoc]

theorem sum_heights_eq_zero_iff {samples : List (ℝ × ℝ)} (h : ∀ s ∈ samples, 0 ≤ s.2) :
    (samples.map (·.2)).sum = 0 ↔ ∀ s ∈ samples, s.2 = 0 := by
  constructor
  · intro hsum s hs
    exact List.all_zero_of_le_zero_le_of_sum_eq_zero (List.forall_mem_map.2 h) hsum
      (List.mem_map_of_mem hs)
  · exact fun hzero => List.sum_eq_zero (List.forall_mem_map.2 hzero)

/-- There is no bisector only if all heights are zero. -/
theorem bisectorOf_real_eq_none {samples : List (ℝ × ℝ)} (hne : samples ≠ [])
    (h : ∀ s ∈ samples, 0 ≤ s.2) :
    bisectorOf (exactly samples) = .ok none ↔ ∀ s ∈ samples, s.2 = 0 := by
  have hheights : (exactly samples).map (·.2) = (samples.map (·.2)).map Exact.real := by
    simp [exactly]
  have hsome : exactly samples ≠ [] := by simpa [exactly] using hne
  rw [bisectorOf_eq_none hsome, hheights, Exact.zero_eq, foldl_add_real, zero_add, Exact.real_beq,
    sum_heights_eq_zero_iff h]

/-! ## Maxima -/

/-- The middle between two positions. -/
theorem middle_real (first last : ℝ) :
    ((first : Exact) + (last : Exact)) / (1 + 1) = (((first + last) / 2 : ℝ) : Exact) := by
  have htwo : (1 : ℝ) + 1 ≠ 0 := by norm_num
  rw [Exact.one_eq, Exact.real_add, Exact.real_add, Exact.real_div _ htwo, one_add_one_eq_two]

/-- The positions of the samples that have a height. -/
noncomputable def positionsAt (height : ℝ) (samples : List (ℝ × ℝ)) : List ℝ :=
  (samples.filter fun s => s.2 = height).map (·.1)

theorem mem_positionsAt {height x : ℝ} {samples : List (ℝ × ℝ)} :
    x ∈ positionsAt height samples ↔ (x, height) ∈ samples := by
  simp [positionsAt]

theorem foldl_maximum_real {samples : List (ℝ × ℝ)} (hne : samples ≠ []) :
    ∃ top : ℝ, (exactly samples).foldl (fun m s => maximum m s.2) (-infinity) = (top : Exact) ∧
      (∃ x, (x, top) ∈ samples) ∧ ∀ s ∈ samples, s.2 ≤ top := by
  have hheights : (exactly samples).foldl (fun m s => maximum m s.2) (-infinity) =
      (samples.map fun s => (s.2 : Exact)).foldl maximum (-infinity) := by
    rw [exactly, List.foldl_map, List.foldl_map]
    rfl
  have hstart : isNaN (-infinity : Exact) = false := Exact.isNaN_negInfinity
  have hbound : ∀ s ∈ samples, (s.2 : Exact) ≤
      (samples.map fun s => (s.2 : Exact)).foldl maximum (-infinity) :=
    fun s hs => le_foldl_maximum_of_mem hstart (List.mem_map_of_mem hs) (Exact.isNaN_real s.2)
  rw [hheights]
  -- The greatest is one of the heights, since what the search starts from lies below them.
  rcases List.mem_cons.1
    (foldl_maximum_mem (-infinity : Exact) (samples.map fun s => (s.2 : Exact)))
    with htop | htop
  · obtain ⟨s, hs⟩ := List.exists_mem_of_ne_nil samples hne
    have hlow := hbound s hs
    rw [htop] at hlow
    have hfinite : (-infinity : Exact) < (s.2 : Exact) :=
      OrderedNumbers.negInfinity_lt (Exact.isFinite_iff.2 ⟨_, rfl⟩)
    exact absurd hlow (OrderedNumbers.lt_iff.1 hfinite).2
  · obtain ⟨s, hs, htop⟩ := List.mem_map.1 htop
    refine ⟨s.2, htop.symm, ⟨s.1, hs⟩, fun u hu => ?_⟩
    have hle := hbound u hu
    rw [← htop] at hle
    exact Exact.real_le.1 hle

/-- The maximal positions of real samples are those at the greatest height. -/
theorem maximal_real {samples : List (ℝ × ℝ)} (hne : samples ≠ []) :
    ∃ top : ℝ, maximal (exactly samples) = (positionsAt top samples).map Exact.real ∧
      (∃ x, (x, top) ∈ samples) ∧ ∀ s ∈ samples, s.2 ≤ top := by
  obtain ⟨top, htop, hmem, hbound⟩ := foldl_maximum_real hne
  refine ⟨top, ?_, hmem, hbound⟩
  have hfilter : samples.filter ((fun s => s.2 == (top : Exact)) ∘ Prod.map Exact.real Exact.real) =
      samples.filter fun s => decide (s.2 = top) := by
    refine List.filter_congr fun s _ => ?_
    rw [Bool.eq_iff_iff, decide_eq_true_iff]
    exact Exact.real_beq
  unfold maximal
  dsimp only
  rw [htop, exactly, List.filter_map, hfilter, positionsAt, List.map_map, List.map_map]
  rfl

end FuzzyInference.Method
