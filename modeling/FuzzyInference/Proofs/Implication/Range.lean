import FuzzyInference.Proofs.Implication.Sampling

/-!
# Where defuzzification ends

What an implication is reduced to lies in its range. The centroid is a mean of
sampled positions with weights that are not negative, and every other method
picks positions of samples. The maxima always exist, because there are samples;
the centroid and the bisector are missing only where there is no height at all.

The bisector is the one method that can fail: it looks for the position where
the sums of heights on both sides stop coming nearer to each other, and they can
do so up to the last sample without being equal there.

Results:

* `exists_peak`: the outermost samples of maximal height.
* `mem_of_reduce`: every position that a method finds lies between samples.
* `eq_bisector_of_error`: no other method than the bisector fails.
* `defuzzify_located`: what the methods find in an implication.
-/

namespace FuzzyInference

open Scalar

namespace Method

/-! ## Maxima -/

/-- The first and the last of the samples of maximal height; what lies outside of
    them is lower. -/
structure Peak (samples : List (ℝ × ℝ)) (first last top : ℝ) : Prop where
  first_mem : (first, top) ∈ samples
  last_mem : (last, top) ∈ samples
  le : first ≤ last
  le_top : ∀ s ∈ samples, s.2 ≤ top
  lt_top : ∀ s ∈ samples, s.1 ∉ Set.Icc first last → s.2 < top

theorem Peak.middle_mem {samples : List (ℝ × ℝ)} {first last top : ℝ}
    (h : Peak samples first last top) : (first + last) / 2 ∈ Set.Icc first last := by
  have := h.le
  constructor <;> linarith

theorem pairwise_positionsAt {samples : List (ℝ × ℝ)} (h : (samples.map (·.1)).Pairwise (· < ·))
    (height : ℝ) : (positionsAt height samples).Pairwise (· ≤ ·) :=
  (h.imp le_of_lt).sublist (List.filter_sublist.map _)

/-- Samples from left to right have a peak, between the first and the last maximal
    position. -/
theorem exists_peak {samples : List (ℝ × ℝ)} (hne : samples ≠ [])
    (hsorted : (samples.map (·.1)).Pairwise (· < ·)) : ∃ first last top : ℝ,
      Peak samples first last top ∧ (maximal (exactly samples)).head? = some (first : Exact) ∧
        (maximal (exactly samples)).getLast? = some (last : Exact) := by
  obtain ⟨top, hmaximal, ⟨x, hx⟩, hbound⟩ := maximal_real hne
  have hmem : x ∈ positionsAt top samples := mem_positionsAt.2 hx
  have hsome : positionsAt top samples ≠ [] := List.ne_nil_of_mem hmem
  have hpairwise := pairwise_positionsAt hsorted top
  refine ⟨(positionsAt top samples).head hsome, (positionsAt top samples).getLast hsome,
    top, ?_, ?_, ?_⟩
  · refine ⟨mem_positionsAt.1 (List.head_mem hsome), mem_positionsAt.1 (List.getLast_mem hsome),
      hpairwise.rel_head (List.getLast_mem hsome), hbound, fun s hs hout => ?_⟩
    refine (hbound s hs).lt_of_ne fun htop => hout ?_
    have hat : s.1 ∈ positionsAt top samples := mem_positionsAt.2 (htop ▸ hs)
    exact ⟨hpairwise.rel_head hat, hpairwise.rel_getLast hat⟩
  · rw [hmaximal, List.head?_map, List.head?_eq_some_head hsome]
    rfl
  · rw [hmaximal, List.getLast?_map, List.getLast?_eq_some_getLast hsome]
    rfl

/-! ## Methods -/

section

variable {α : Type} [Scalar α]

theorem eq_notFound_of_balancePoint {previous lastImbalance : α} {samples : List (α × α)}
    {e : Error α} (h : balancePoint previous lastImbalance samples = .error e) :
    e = .computation .bisectorNotFound := by
  induction samples generalizing previous lastImbalance with
  | nil =>
    cases h
    rfl
  | cons s rest ih =>
    rw [balancePoint] at h
    split at h
    · cases h
    · split at h
      · cases h
      · exact ih h

theorem eq_notFound_of_bisectorOf {samples : List (α × α)} {e : Error α}
    (h : bisectorOf samples = .error e) : e = .computation .bisectorNotFound := by
  unfold bisectorOf at h
  dsimp only at h
  split at h
  · cases h
  · cases samples with
    | nil => cases h
    | cons s rest =>
      rcases bind_eq_error.1 h with h | ⟨found, -, h⟩
      · exact eq_notFound_of_balancePoint h
      · cases h

/-- Only the bisector fails, where it is not found. -/
theorem eq_bisector_of_error {m : Method} {positions heights : List α} {e : Error α}
    (h : m.reduce positions heights = .error e) :
    m = .bisector ∧ e = .computation .bisectorNotFound := by
  cases m with
  | bisector =>
    rw [reduce_bisector] at h
    exact ⟨rfl, eq_notFound_of_bisectorOf h⟩
  | _ =>
    unfold reduce at h
    dsimp only at h
    split at h <;> cases h

end

/-- It does fail, between two samples of which the second one is not lower. -/
theorem bisectorOf_rising (x₀ x₁ : ℝ) {y₀ y₁ : ℝ} (h₀ : 0 < y₀) (h : y₀ ≤ y₁) :
    bisectorOf (exactly [(x₀, y₀), (x₁, y₁)]) = .error (.computation .bisectorNotFound) := by
  have h₁ : 0 < y₁ := h₀.trans_le h
  have htotal : y₀ + y₁ ≠ 0 := (add_pos h₀ h₁).ne'
  -- The sums differ by the second height at first, and by the first one then, so they never rise.
  have hrise : ¬ y₀ + y₁ + (y₀ + y₁) < y₁ := by linarith
  simp [bisectorOf, exactly, imbalances, prefixSums, balancePoint, htotal, hrise, h.not_gt, h₀.ne',
    h₁.ne', abs_of_pos h₀, abs_of_pos h₁]

/-! ## Positions -/

/-- Samples from left to right over `[a, b]`, with heights that are not negative. -/
structure Spread (a b : ℝ) (samples : List (ℝ × ℝ)) : Prop where
  ne_nil : samples ≠ []
  sorted : (samples.map (·.1)).Pairwise (· < ·)
  position_mem : ∀ s ∈ samples, s.1 ∈ Set.Icc a b
  height_nonneg : ∀ s ∈ samples, 0 ≤ s.2

namespace Spread

variable {a b : ℝ} {samples : List (ℝ × ℝ)}

theorem mem_of_centroidOf (h : Spread a b samples) {x : Exact}
    (hx : centroidOf (exactly samples) = some x) : ∃ r ∈ Set.Icc a b, x = (r : ℝ) := by
  rw [centroidOf_real] at hx
  split at hx
  · cases hx
  · rename_i harea
    cases hx
    exact ⟨_, moment_div_area_mem h.position_mem h.height_nonneg harea, rfl⟩

theorem centroidOf_eq_none (h : Spread a b samples) :
    centroidOf (exactly samples) = none ↔ ∀ s ∈ samples, s.2 = 0 := by
  rw [← area_eq_zero_iff h.height_nonneg, centroidOf_real]
  simp

theorem mem_of_bisectorOf (h : Spread a b samples) {x : Exact}
    (hx : bisectorOf (exactly samples) = .ok (some x)) : ∃ r ∈ Set.Icc a b, x = (r : ℝ) := by
  obtain ⟨p, hp, rfl⟩ := List.mem_map.1 (Method.mem_of_bisectorOf hx)
  obtain ⟨s, hs, rfl⟩ := List.mem_map.1 hp
  exact ⟨s.1, h.position_mem s hs, rfl⟩

variable {xs ys : List ℝ}

/-- The maximum methods find the ends of the peak, and the middle of it. -/
theorem reduce_maxima (h : Spread a b (xs.zip ys)) : ∃ first last top : ℝ,
    Peak (xs.zip ys) first last top ∧
      smallestOfMaximum.reduce (xs.map Exact.real) (ys.map Exact.real) =
        .ok (some (first : Exact)) ∧
      largestOfMaximum.reduce (xs.map Exact.real) (ys.map Exact.real) = .ok (some (last : Exact)) ∧
      meanOfMaximum.reduce (xs.map Exact.real) (ys.map Exact.real) =
        .ok (some (((first + last) / 2 : ℝ) : Exact)) := by
  obtain ⟨first, last, top, hpeak, hfirst, hlast⟩ := exists_peak h.ne_nil h.sorted
  refine ⟨first, last, top, hpeak, ?_, ?_, ?_⟩
  · rw [reduce_smallestOfMaximum, zip_exactly, hfirst]
  · rw [reduce_largestOfMaximum, zip_exactly, hlast]
  · rw [reduce_meanOfMaximum, zip_exactly, hfirst, hlast, ← middle_real]
    rfl

/-- Every position that a method finds lies in the range of the samples. -/
theorem mem_of_reduce (h : Spread a b (xs.zip ys)) {m : Method} {x : Exact}
    (hx : m.reduce (xs.map Exact.real) (ys.map Exact.real) = .ok (some x)) :
    ∃ r ∈ Set.Icc a b, x = (r : ℝ) := by
  obtain ⟨first, last, top, hpeak, hsmallest, hlargest, hmean⟩ := h.reduce_maxima
  have hfirst : first ∈ Set.Icc a b := h.position_mem _ hpeak.first_mem
  have hlast : last ∈ Set.Icc a b := h.position_mem _ hpeak.last_mem
  cases m with
  | centroid =>
    rw [reduce_centroid] at hx
    exact h.mem_of_centroidOf (Except.ok.inj hx)
  | bisector =>
    rw [reduce_bisector, zip_exactly] at hx
    exact h.mem_of_bisectorOf hx
  | smallestOfMaximum =>
    cases hsmallest.symm.trans hx
    exact ⟨first, hfirst, rfl⟩
  | largestOfMaximum =>
    cases hlargest.symm.trans hx
    exact ⟨last, hlast, rfl⟩
  | meanOfMaximum =>
    cases hmean.symm.trans hx
    have hmiddle := hpeak.middle_mem
    exact ⟨_, ⟨hfirst.1.trans hmiddle.1, hmiddle.2.trans hlast.2⟩, rfl⟩

end Spread

end Method

namespace Implication

/-! ## Implications -/

open Method

/-- Where the methods end in an implication over `[a, b]` with the given samples. -/
structure Located (a b : ℝ) (count : ℕ) (i : Implication Exact)
    (samples : List (ℝ × ℝ)) : Prop where
  sampled : i.samples count =
    .ok ((samples.map (·.1)).map Exact.real, (samples.map (·.2)).map Exact.real)
  in_range : ∀ {method : Method} {v : Value Exact}, i.defuzzify method count = .ok (some v) →
    ∃ x ∈ Set.Icc a b, v = .number (x : ℝ)
  maxima : ∃ first last top mean : ℝ, Peak samples first last top ∧ mean ∈ Set.Icc first last ∧
    i.defuzzify .smallestOfMaximum count = .ok (some (.number first)) ∧
    i.defuzzify .largestOfMaximum count = .ok (some (.number last)) ∧
    i.defuzzify .meanOfMaximum count = .ok (some (.number mean))
  no_centroid : i.defuzzify .centroid count = .ok none ↔ ∀ s ∈ samples, s.2 = 0
  no_bisector : i.defuzzify .bisector count = .ok none ↔ ∀ s ∈ samples, s.2 = 0
  error : ∀ {method : Method} {e : Error Exact}, i.defuzzify method count = .error e →
    method = .bisector ∧ e = .computation .bisectorNotFound

theorem spread_positions {a b : ℝ} (hab : a < b) {count : ℕ} (hcount : count ≠ 0) {zs : List ℝ}
    (hlength : zs.length = count + 1) (hnonneg : ∀ z ∈ zs, 0 ≤ z) :
    Spread a b ((positions a b count).zip zs) where
  ne_nil := by
    intro hnil
    have := congrArg List.length hnil
    simp [hlength] at this
  sorted := by
    rw [List.map_fst_zip (by simp [hlength])]
    exact pairwise_positions hab hcount
  position_mem := fun s hs => mem_of_mem_positions hab hcount (List.of_mem_zip hs).1
  height_nonneg := fun s hs => hnonneg s.2 (List.of_mem_zip hs).2

theorem map_number_eq_none {r : Result Exact (Option Exact)} :
    (r >>= fun x => .ok (x.map Value.number)) = (.ok none : Result Exact (Option (Value Exact))) ↔
      r = .ok none := by
  rw [bind_eq_ok]
  constructor
  · rintro ⟨x, rfl, hx⟩
    rw [Option.map_eq_none_iff.1 (Except.ok.inj hx)]
  · rintro rfl
    exact ⟨none, rfl, rfl⟩

/-- A rising line and a falling one, with their clips. -/
noncomputable def slopes (rising falling : ℝ) : List (Curve Exact × ℝ) :=
  [(.ramp, rising), (.linear ⟨0, 1⟩ ⟨1, 0⟩, falling)]

theorem evaluate_slopes (rising falling : ℝ) :
    ∀ t ∈ slopes rising falling, ∀ x ∈ Set.Icc (0 : ℝ) 1, ∃ y,
      t.1.evaluate (x : Exact) = .ok y := by
  intro t ht x hx
  have hmem : (0 : Exact) ≤ x ∧ (x : Exact) ≤ 1 := by simpa using hx
  rw [Curve.evaluate_of_mem _ hmem]
  rcases List.mem_pair.1 ht with rfl | rfl <;> exact ⟨_, rfl⟩

/-- At the ends of the interval, one of the lines has the height of its clip and the
    other one none. -/
theorem unitHeights_slopes {rising falling : ℝ} (hrising : rising ∈ Set.Icc (0 : ℝ) 1)
    (hfalling : falling ∈ Set.Icc (0 : ℝ) 1) :
    unitHeights (slopes rising falling) 1 = .ok ([falling, rising].map Exact.real) := by
  have hstart : heightFrom ((position 0 1 1 0 : ℝ) : Exact) 0 (clippedAt (slopes rising falling)) =
      .ok (falling : Exact) := by
    simp [position, clippedAt, slopes, heightFrom, Curve.evaluate_of_mem, Curve.height, Curve.ramp,
      bind, Except.bind, hrising.1, hfalling.1, hfalling.2]
  have hend : heightFrom ((position 0 1 1 1 : ℝ) : Exact) 0 (clippedAt (slopes rising falling)) =
      .ok (rising : Exact) := by
    simp [position, clippedAt, slopes, heightFrom, Curve.evaluate_of_mem, Curve.height, Curve.ramp,
      bind, Except.bind, not_le.2 (zero_lt_one' ℝ), hrising.1, hrising.2, hfalling.1]
  exact mapM_eq_ok.2 (.cons hstart (.cons hend .nil))

/-- What every method finds in an implication over a range: a position of the range,
    if any; at the maxima the outermost samples of maximal height and one between
    them; no centroid and no bisector only where there is no height; and an error
    only of the bisector. -/
theorem defuzzify_located {a b : ℝ} (hab : a < b) {terms : List (Curve Exact × ℝ)}
    (hcurves : ∀ t ∈ terms, ∀ x ∈ Set.Icc (0 : ℝ) 1, ∃ y, t.1.evaluate (x : Exact) = .ok y)
    {count : ℕ} (hcount : 1 ≤ count) :
    ∃ samples, Located a b count (exactly a b terms) samples := by
  have hcount' : count ≠ 0 := Nat.one_le_iff_ne_zero.1 hcount
  obtain ⟨ys, hys⟩ := exists_unitHeights hcurves hcount'
  obtain ⟨zs, rfl, hlength, hnonneg⟩ := unitHeights_eq_ok hys
  have hspread := spread_positions hab hcount' hlength hnonneg
  have hlengths : (positions a b count).length = zs.length := by simp [hlength]
  have hrun (method : Method) : (exactly a b terms).defuzzify method count =
      method.reduce ((positions a b count).map Exact.real) (zs.map Exact.real) >>=
        fun x => .ok (x.map .number) := by
    rw [defuzzify_exactly hab terms method hcount', hys]
    rfl
  refine ⟨(positions a b count).zip zs, ?_, ?_, ?_, ?_, ?_, ?_⟩
  · have hpositions : ((positions a b count).zip zs).map (·.1) = positions a b count :=
      List.map_fst_zip hlengths.le
    have hheights : ((positions a b count).zip zs).map (·.2) = zs := List.map_snd_zip hlengths.ge
    rw [samples_exactly hab terms hcount', hys, hpositions, hheights]
    rfl
  · intro method v hv
    rw [hrun] at hv
    obtain ⟨x, hx, hv⟩ := bind_eq_ok.1 hv
    cases x with
    | none => cases hv
    | some x =>
      cases hv
      obtain ⟨r, hr, rfl⟩ := hspread.mem_of_reduce hx
      exact ⟨r, hr, rfl⟩
  · obtain ⟨first, last, top, hpeak, hsmallest, hlargest, hmean⟩ := hspread.reduce_maxima
    refine ⟨first, last, top, (first + last) / 2, hpeak, hpeak.middle_mem, ?_, ?_, ?_⟩
    · rw [hrun, hsmallest]
      rfl
    · rw [hrun, hlargest]
      rfl
    · rw [hrun, hmean]
      rfl
  · rw [hrun, map_number_eq_none, reduce_centroid, Except.ok.injEq, hspread.centroidOf_eq_none]
  · rw [hrun, map_number_eq_none, reduce_bisector, zip_exactly,
      bisectorOf_real_eq_none hspread.ne_nil hspread.height_nonneg]
  · intro method e he
    rw [hrun] at he
    rcases bind_eq_error.1 he with he | ⟨x, -, he⟩
    · exact eq_bisector_of_error he
    · cases he

/-- Sampled at the ends of `[100, 200]` alone, the two lines rise, and the bisector
    is not found. -/
theorem located_slopes : (100 : ℝ) < 200 ∧
    (∀ t ∈ slopes (7 / 10) (3 / 10), ∀ x ∈ Set.Icc (0 : ℝ) 1,
      ∃ y, t.1.evaluate (x : Exact) = .ok y) ∧ 1 ≤ 1 ∧
    (∃ samples, Located 100 200 1 (exactly 100 200 (slopes (7 / 10) (3 / 10))) samples) ∧
    (exactly 100 200 (slopes (7 / 10) (3 / 10))).defuzzify .bisector 1 =
      .error (.computation .bisectorNotFound) := by
  have hrange : (100 : ℝ) < 200 := by norm_num
  have hcurves := evaluate_slopes (7 / 10) (3 / 10)
  have hheights : unitHeights (slopes (7 / 10) (3 / 10)) 1 =
      .ok ([3 / 10, 7 / 10].map Exact.real) :=
    unitHeights_slopes (by norm_num) (by norm_num)
  have hreduce : Method.bisector.reduce ((positions 100 200 1).map Exact.real)
      ([3 / 10, 7 / 10].map Exact.real) = .error (.computation .bisectorNotFound) := by
    rw [reduce_bisector, zip_exactly]
    exact bisectorOf_rising _ _ (by norm_num) (by norm_num)
  refine ⟨hrange, hcurves, le_rfl, defuzzify_located hrange hcurves le_rfl, ?_⟩
  rw [defuzzify_exactly hrange _ .bisector one_ne_zero, hheights]
  exact bind_eq_error.2 (.inr ⟨_, rfl, bind_eq_error.2 (.inl hreduce)⟩)

end Implication

end FuzzyInference
