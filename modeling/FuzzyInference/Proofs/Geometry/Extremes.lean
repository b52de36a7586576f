import FuzzyInference.Proofs.Geometry.Exact

/-!
# Highest and lowest points of segments

The extremes of a line are at its ends, and a step has one height. Of a Bezier
arc only the ends and the point half way in `x` are looked at. An arc whose
control value is between the heights of its ends has no others; any other arc
turns somewhere, and where it turns on its way from one end to the other is
seen only half way.

Results:

* `exists_maxPoint` and `exists_minPoint`: the heights that are found.
* `extremes_bound`: which segments stay between their extreme points.
-/

namespace FuzzyInference.Segment

open Arc

variable {l r c : Point ℝ} {x : ℝ}

/-! ## Points that are found -/

/-- The position half way between the ends of a segment. -/
noncomputable def middle (s : Segment ℝ) : ℝ := (s.left.x + s.right.x) * 0.5

theorem middle_eq (s : Segment ℝ) : s.middle = (s.left.x + s.right.x) / 2 := by
  rw [middle, half_eq, mul_one_div]

theorem midpoint_exactly (s : Segment ℝ) :
    s.exactly.midpoint = Point.exactly ⟨s.middle, s.height s.middle⟩ := by
  have hmiddle : (s.exactly.left.x + s.exactly.right.x) / 2 = (s.middle : Exact) := by
    rw [left_exactly, right_exactly, Point.x_exactly, Point.x_exactly, Exact.real_add, Exact.two_eq,
      Exact.real_div _ two_ne_zero, middle_eq]
  unfold midpoint
  dsimp only
  rw [hmiddle, evaluate_exactly]
  rfl

/-- The greatest height that is looked at. -/
noncomputable def highest (s : Segment ℝ) : ℝ :=
  match s with
  | .linear l r => max l.y r.y
  | .step _ _ h => h
  | .bezier l r _ => max (max l.y r.y) (s.height s.middle)

/-- The least height that is looked at. -/
noncomputable def lowest (s : Segment ℝ) : ℝ :=
  match s with
  | .linear l r => min l.y r.y
  | .step _ _ h => h
  | .bezier l r _ => min (min l.y r.y) (s.height s.middle)

theorem higher_exactly (l r : Point ℝ) :
    ∃ p, (if r.exactly.y < l.exactly.y then l.exactly else r.exactly) = p.exactly ∧
      (p = l ∨ p = r) ∧
      p.y = max l.y r.y := by
  by_cases h : r.y < l.y
  · exact ⟨l, if_pos (Exact.real_lt.2 h), .inl rfl, (max_eq_left h.le).symm⟩
  · exact ⟨r, if_neg (Exact.real_lt.not.2 h), .inr rfl, (max_eq_right (not_lt.1 h)).symm⟩

theorem lower_exactly (l r : Point ℝ) :
    ∃ p, (if l.exactly.y ≤ r.exactly.y then l.exactly else r.exactly) = p.exactly ∧
      (p = l ∨ p = r) ∧
      p.y = min l.y r.y := by
  by_cases h : l.y ≤ r.y
  · exact ⟨l, if_pos (Exact.real_le.2 h), .inl rfl, (min_eq_left h).symm⟩
  · exact ⟨r, if_neg (Exact.real_le.not.2 h), .inr rfl, (min_eq_right (not_le.1 h).le).symm⟩

theorem middle_mem (s : Segment ℝ) (h : s.left.x ≤ s.right.x) :
    s.left.x ≤ s.middle ∧ s.middle ≤ s.right.x := by
  rw [middle_eq]
  constructor <;> linarith

/-- One of two ends is between them. -/
theorem mem_of_end {p : Point ℝ} (hp : p = l ∨ p = r) (h : l.x ≤ r.x) : l.x ≤ p.x ∧ p.x ≤ r.x := by
  rcases hp with rfl | rfl
  · exact ⟨le_rfl, h⟩
  · exact ⟨h, le_rfl⟩

/-- The highest point has the greatest height that is looked at, between the
    ends. -/
theorem exists_maxPoint (s : Segment ℝ) (h : s.left.x ≤ s.right.x) :
    ∃ p : Point ℝ, s.exactly.maxPoint = p.exactly ∧ (s.left.x ≤ p.x ∧ p.x ≤ s.right.x) ∧
      p.y = s.highest := by
  cases s with
  | linear l r =>
    obtain ⟨p, hp, hend, hy⟩ := higher_exactly l r
    exact ⟨p, hp, mem_of_end hend h, hy⟩
  | step l r height => exact ⟨⟨r.x, height⟩, rfl, ⟨h, le_rfl⟩, rfl⟩
  | bezier l r c =>
    obtain ⟨p, hp, hend, hy⟩ := higher_exactly l r
    have hmidpoint := midpoint_exactly (bezier l r c)
    simp only [exactly, highest, maxPoint, hp, ← hy] at hmidpoint ⊢
    simp only [hmidpoint, Point.x_exactly, Point.y_exactly, Bool.or_eq_true, Bool.and_eq_true,
      decide_eq_true_eq, Exact.real_lt, Exact.real_beq]
    split_ifs with hchosen
    · refine ⟨p, rfl, mem_of_end hend h, (max_eq_left ?_).symm⟩
      rcases hchosen with hlt | ⟨heq, -⟩
      · exact hlt.le
      · exact heq.ge
    · refine ⟨_, rfl, middle_mem (bezier l r c) h, (max_eq_right ?_).symm⟩
      exact not_lt.1 fun hlt => hchosen (.inl hlt)

/-- The lowest point has the least height that is looked at, between the ends. -/
theorem exists_minPoint (s : Segment ℝ) (h : s.left.x ≤ s.right.x) :
    ∃ p : Point ℝ, s.exactly.minPoint = p.exactly ∧ (s.left.x ≤ p.x ∧ p.x ≤ s.right.x) ∧
      p.y = s.lowest := by
  cases s with
  | linear l r =>
    obtain ⟨p, hp, hend, hy⟩ := lower_exactly l r
    exact ⟨p, hp, mem_of_end hend h, hy⟩
  | step l r height => exact ⟨⟨l.x, height⟩, rfl, ⟨le_rfl, h⟩, rfl⟩
  | bezier l r c =>
    obtain ⟨p, hp, hend, hy⟩ := lower_exactly l r
    have hmidpoint := midpoint_exactly (bezier l r c)
    simp only [exactly, lowest, minPoint, hp, ← hy] at hmidpoint ⊢
    simp only [hmidpoint, Point.y_exactly, Exact.real_le]
    split_ifs with hchosen
    · exact ⟨p, rfl, mem_of_end hend h, (min_eq_left hchosen).symm⟩
    · exact ⟨_, rfl, middle_mem (bezier l r c) h, (min_eq_right (not_le.1 hchosen).le).symm⟩

/-! ## Heights between them -/

theorem height_line_mem (hl : l.x ≤ x) (hr : x ≤ r.x) :
    min l.y r.y ≤ (linear l r).height x ∧ (linear l r).height x ≤ max l.y r.y := by
  rw [height]
  split_ifs with hflat
  · exact ⟨min_le_right _ _, le_max_right _ _⟩
  · have hwidth : 0 < r.x - l.x := (sub_nonneg.2 (hl.trans hr)).lt_of_ne' (sub_ne_zero.2 hflat)
    have hstraight : l.y + (r.y - l.y) / (r.x - l.x) * (x - l.x) =
        bend l.y ((l.y + r.y) / 2) r.y ((x - l.x) / (r.x - l.x)) := by
      rw [bend_straight]
      ring
    have hstart : 0 ≤ (x - l.x) / (r.x - l.x) := div_nonneg (sub_nonneg.2 hl) hwidth.le
    have hend : (x - l.x) / (r.x - l.x) ≤ 1 := (div_le_one hwidth).2 (by linarith)
    have hlow : min l.y r.y ≤ (l.y + r.y) / 2 := by
      linarith [min_le_left l.y r.y, min_le_right l.y r.y]
    have hhigh : (l.y + r.y) / 2 ≤ max l.y r.y := by
      linarith [le_max_left l.y r.y, le_max_right l.y r.y]
    rw [hstraight]
    exact ⟨le_bend (min_le_left _ _) hlow (min_le_right _ _) hstart hend,
      bend_le (le_max_left _ _) hhigh (le_max_right _ _) hstart hend⟩

/-- An arc turns half way, or its positions keep so far away from the turn that they
    do not get past the height of an end. Nothing is asked of an arc with one
    position, or with its control value between its ends. -/
def ShowsTurn (l r c : Point ℝ) : Prop :=
  l.x = r.x ∨ c.y ∈ Set.uIcc l.y r.y ∨ turn l.y c.y r.y = share l.x c.x r.x (bezier l r c).middle ∨
    turn l.y c.y r.y ≤ share l.x c.x r.x l.x - turn l.y c.y r.y ∨
    1 - turn l.y c.y r.y ≤ turn l.y c.y r.y - share l.x c.x r.x r.x

/-- What holds at all positions of an arc holds at the parameters between those of
    its ends. -/
theorem forall_share_iff {P : ℝ → Prop} (hlr : l.x < r.x) :
    (∀ x, l.x ≤ x → x ≤ r.x → P (share l.x c.x r.x x)) ↔
      ∀ t, share l.x c.x r.x l.x ≤ t → t ≤ share l.x c.x r.x r.x → P t := by
  constructor
  · intro h t hl hr
    obtain ⟨x, hx₁, hx₂, rfl⟩ := exists_share_eq hlr hl hr
    exact h x hx₁ hx₂
  · intro h x hl hr
    exact h _ (share_mono le_rfl hl hr) (share_mono hl hr le_rfl)

/-- The three cases of a control value: above both ends, below both, or between
    them. -/
theorem bend_bounds_iff {a b c s m u : ℝ} (hs : 0 ≤ s) (hsm : s < m) (hmu : m < u) (hu : u ≤ 1) :
    (∀ t, s ≤ t → t ≤ u → min (min a c) (bend a b c m) ≤ bend a b c t ∧
      bend a b c t ≤ max (max a c) (bend a b c m)) ↔
      b ∈ Set.uIcc a c ∨ turn a b c = m ∨ turn a b c ≤ s - turn a b c ∨
      1 - turn a b c ≤ turn a b c - u := by
  rcases lt_or_ge (max a c) b with habove | habove
  · obtain ⟨ha, hc⟩ := max_lt_iff.1 habove
    have hout : b ∉ Set.uIcc a c := fun h => h.2.not_gt habove
    rw [or_iff_right hout, ← forall_bend_le_iff ha hc hs hsm hmu hu]
    refine forall₃_congr fun t hst htu => and_iff_right ((min_le_left _ _).trans ?_)
    exact le_bend (min_le_left _ _) ((min_le_left _ _).trans ha.le) (min_le_right _ _)
      (hs.trans hst)
      (htu.trans hu)
  · rcases lt_or_ge b (min a c) with hbelow | hbelow
    · obtain ⟨ha, hc⟩ := lt_min_iff.1 hbelow
      have hout : b ∉ Set.uIcc a c := fun h => h.1.not_gt hbelow
      -- upside down the control value is above both ends
      have hmirror := forall_bend_le_iff (neg_lt_neg ha) (neg_lt_neg hc) hs hsm hmu hu
      simp only [turn_neg, bend_neg, max_neg_neg, neg_le_neg_iff] at hmirror
      rw [or_iff_right hout, ← hmirror]
      refine forall₃_congr fun t hst htu => and_iff_left (le_trans ?_ (le_max_left _ _))
      exact bend_le (le_max_left _ _) (ha.le.trans (le_max_left _ _)) (le_max_right _ _)
        (hs.trans hst)
        (htu.trans hu)
    · refine iff_of_true (fun t hst htu => ?_) (.inl ⟨hbelow, habove⟩)
      exact ⟨(min_le_left _ _).trans
        (le_bend (min_le_left _ _) hbelow (min_le_right _ _) (hs.trans hst)
          (htu.trans hu)),
        (bend_le (le_max_left _ _) habove (le_max_right _ _) (hs.trans hst) (htu.trans hu)).trans
          (le_max_left _ _)⟩

theorem height_arc_mem_iff (h : l.x ≤ r.x) :
    (∀ x, l.x ≤ x → x ≤ r.x → (bezier l r c).lowest ≤ (bezier l r c).height x ∧
      (bezier l r c).height x ≤ (bezier l r c).highest) ↔ ShowsTurn l r c := by
  rcases h.eq_or_lt with hflat | hlt
  · have hmiddle : ∀ x, l.x ≤ x → x ≤ r.x → x = (bezier l r c).middle := by
      intro x hl hr
      rw [middle_eq]
      change x = (l.x + r.x) / 2
      linarith
    refine iff_of_true (fun x hl hr => ?_) (.inl hflat)
    rw [hmiddle x hl hr]
    exact ⟨min_le_right _ _, le_max_right _ _⟩
  · have hmiddle : l.x < (bezier l r c).middle ∧ (bezier l r c).middle < r.x := by
      rw [middle_eq]
      change l.x < (l.x + r.x) / 2 ∧ (l.x + r.x) / 2 < r.x
      constructor <;> linarith
    obtain ⟨hstart, -⟩ := share_mem (c := c.x) le_rfl hlt.le
    obtain ⟨-, hend⟩ := share_mem (c := c.x) hlt.le le_rfl
    rw [ShowsTurn, or_iff_right hlt.ne]
    exact (forall_share_iff (c := c) hlt).trans (bend_bounds_iff hstart
      (share_strictMono le_rfl hmiddle.1 hmiddle.2.le)
        (share_strictMono hmiddle.1.le hmiddle.2 le_rfl) hend)

/-- The lowest and the highest point of a segment are between its ends. The segment
    is between their heights exactly if it is a line, a step, or an arc that shows
    its turn. -/
theorem extremes_bound {s : Segment Exact} (hs : Constructed s) :
    (s.covers s.minPoint.x = true ∧ s.covers s.maxPoint.x = true) ∧
      ((∀ x : ℝ, s.covers x = true → s.minPoint.y ≤ s.evaluate x ∧ s.evaluate x ≤ s.maxPoint.y) ↔
        ∀ l r c : Point ℝ, s = .bezier l.exactly r.exactly c.exactly → ShowsTurn l r c) := by
  obtain ⟨s, rfl, hends⟩ := hs.exists_real
  obtain ⟨low, hlow, hlowIn, hlowY⟩ := s.exists_minPoint hends
  obtain ⟨high, hhigh, hhighIn, hhighY⟩ := s.exists_maxPoint hends
  rw [hlow, hhigh]
  refine ⟨⟨covers_exactly.2 hlowIn, covers_exactly.2 hhighIn⟩, ?_⟩
  simp only [covers_exactly, evaluate_exactly, Point.y_exactly, Exact.real_le, hlowY,
    hhighY, and_imp]
  cases s with
  | linear l r =>
    refine iff_of_true (fun x hl hr => height_line_mem hl hr) fun l' r' c' heq => ?_
    cases heq
  | step l r height =>
    refine iff_of_true (fun x _ _ => ⟨le_rfl, le_rfl⟩) fun l' r' c' heq => ?_
    cases heq
  | bezier l r c => exact (height_arc_mem_iff hends).trans forall_bezier_iff.symm

/-- The arc from `(0, 0)` to height `y` at one, with its control point at height `h`
    half way. -/
noncomputable def ridge (h y : ℝ) : Segment ℝ := .bezier ⟨0, 0⟩ ⟨1, y⟩ ⟨0.5, h⟩

theorem constructed_ridge (h y : ℝ) : Constructed (ridge h y).exactly :=
  constructed_bezier (l := ⟨0, 0⟩) (r := ⟨1, y⟩) ⟨0.5, h⟩ (by norm_num) (by norm_num)

theorem share_ridge {x : ℝ} (hl : 0 ≤ x) (hr : x ≤ 1) : share 0 0.5 1 x = x := by
  rw [share_of_middle zero_lt_one hl hr (by norm_num), sub_zero, sub_zero, div_one]

theorem height_ridge {h y x : ℝ} (hl : 0 ≤ x) (hr : x ≤ 1) : (ridge h y).height x = bend 0 h y x :=
  congrArg (bend 0 h y) (share_ridge hl hr)

theorem middle_ridge (h y : ℝ) : (ridge h y).middle = 1 / 2 := by
  rw [middle_eq]
  norm_num [ridge, left, right]

/-- An even arc is below its point half way. -/
theorem extremes_bound_ridge :
    Constructed (ridge 3 0).exactly ∧ ∀ x : ℝ, (ridge 3 0).exactly.covers x = true →
      (ridge 3 0).exactly.minPoint.y ≤ (ridge 3 0).exactly.evaluate x ∧
        (ridge 3 0).exactly.evaluate x ≤ (ridge 3 0).exactly.maxPoint.y := by
  have hturn : turn 0 3 0 = share 0 0.5 1 (ridge 3 0).middle := by
    rw [middle_ridge, share_ridge (by norm_num) (by norm_num)]
    norm_num [turn]
  refine ⟨constructed_ridge 3 0,
    (extremes_bound (constructed_ridge 3 0)).2.2 (forall_bezier_iff.2 ?_)⟩
  exact .inr (.inr (.inl hturn))

/-- An arc that ends higher than it starts is higher on its way than at its end and
    half way. -/
theorem ridge_above_maxPoint :
    Constructed (ridge 3 2).exactly ∧ (ridge 3 2).exactly.covers (3 / 4 : ℝ) = true ∧
      (ridge 3 2).exactly.evaluate (3 / 4 : ℝ) = (9 / 4 : ℝ) ∧
      (ridge 3 2).exactly.maxPoint.y = (2 : ℝ) ∧
      ¬ (ridge 3 2).exactly.evaluate (3 / 4 : ℝ) ≤ (ridge 3 2).exactly.maxPoint.y := by
  have hheight : (ridge 3 2).height (3 / 4) = 9 / 4 := by
    rw [height_ridge (by norm_num) (by norm_num)]
    norm_num [bend]
  have hmiddle : (ridge 3 2).height (ridge 3 2).middle = 2 := by
    rw [middle_ridge, height_ridge (by norm_num) (by norm_num)]
    norm_num [bend]
  have hhighest : (ridge 3 2).highest = 2 := by
    change max (max 0 2) ((ridge 3 2).height (ridge 3 2).middle) = 2
    rw [hmiddle]
    norm_num
  obtain ⟨p, hp, -, hy⟩ := (ridge 3 2).exists_maxPoint zero_le_one
  rw [evaluate_exactly, hheight, hp, Point.y_exactly, hy, hhighest]
  refine ⟨constructed_ridge 3 2, covers_exactly.2 ?_, rfl, rfl, ?_⟩
  · norm_num [ridge, left, right]
  · rw [Exact.real_le]
    norm_num

end FuzzyInference.Segment
