import Mathlib

/-!
# Quadratic arcs over the real numbers

One coordinate of a Bezier arc is a quadratic polynomial of the arc's parameter,
given by its values at both ends and by a control value. The part of an arc
between two parameters is an arc again, and its control value is the polar form
of the polynomial there.

The parameter of a position runs linearly up to the control point and linearly
behind it. That it leads to the same position on the arc is true of all
positions only if the control point is half way between the ends.

Results:

* `bend_part`: the part of a bend between two parameters.
* `forall_bend_le_iff`: when a bend with a crest is nowhere higher than at its
  ends and at one parameter in between.
* `share_mem`, `share_mono`, `share_strictMono`, `exists_share_eq`: the parameters of the
  positions between two ends.
* `bend_share_eq_iff`: which positions the arc has at their own parameter.
-/

namespace FuzzyInference.Arc

/-! ## Bends -/

/-- A coordinate of a Bezier arc at a parameter, between points between its three
    points. -/
def bend (a b c t : ℝ) : ℝ := (a * (1 - t) + b * t) * (1 - t) + (b * (1 - t) + c * t) * t

/-- The polar form of a bend: at twice the same parameter it is the bend. -/
def polar (a b c s t : ℝ) : ℝ := a * (1 - s) * (1 - t) + b * (s * (1 - t) + t * (1 - s)) + c * s * t

@[simp] theorem bend_zero (a b c : ℝ) : bend a b c 0 = a := by simp [bend]

@[simp] theorem bend_one (a b c : ℝ) : bend a b c 1 = c := by simp [bend]

/-- The bend between two parameters has the ends and the polar form there. -/
theorem bend_part (a b c s t u : ℝ) :
    bend (bend a b c s) (polar a b c s t) (bend a b c t) u = bend a b c (s + u * (t - s)) := by
  unfold bend polar
  ring

theorem polar_part (a b c s t u v : ℝ) :
    polar (bend a b c s) (polar a b c s t) (bend a b c t) u v =
      polar a b c (s + u * (t - s)) (s + v * (t - s)) := by
  unfold bend polar
  ring

/-- Half way between the ends, the control value bends nothing. -/
theorem two_mul_polar {a b c : ℝ} (h : 2 * b = a + c) (s t : ℝ) :
    2 * polar a b c s t = bend a b c s + bend a b c t := by
  unfold bend polar
  linear_combination (s - t) ^ 2 * h

/-- A bend and the line that it follows at its start. -/
theorem bend_eq_start (a b c t : ℝ) :
    bend a b c t = a + 2 * t * (b - a) + t ^ 2 * (a + c - 2 * b) := by
  unfold bend
  ring

/-- A bend and the line that it follows at its end. -/
theorem bend_eq_end (a b c t : ℝ) :
    bend a b c t = c - 2 * (1 - t) * (c - b) + (1 - t) ^ 2 * (a + c - 2 * b) := by
  unfold bend
  ring

/-- A bend that is not bent. -/
theorem bend_straight (a c t : ℝ) : bend a ((a + c) / 2) c t = a + (c - a) * t := by
  unfold bend
  ring

theorem bend_neg (a b c t : ℝ) : bend (-a) (-b) (-c) t = -bend a b c t := by
  unfold bend
  ring

/-- A bend stays below what is above its ends and its control value. -/
theorem bend_le {a b c M t : ℝ} (ha : a ≤ M) (hb : b ≤ M) (hc : c ≤ M) (h₀ : 0 ≤ t) (h₁ : t ≤ 1) :
    bend a b c t ≤ M := by
  have hstart : 0 ≤ (M - a) * (1 - t) ^ 2 := mul_nonneg (sub_nonneg.2 ha) (sq_nonneg _)
  have hmiddle : 0 ≤ (M - b) * (2 * t * (1 - t)) :=
    mul_nonneg (sub_nonneg.2 hb) (mul_nonneg (by linarith) (by linarith))
  have hend : 0 ≤ (M - c) * t ^ 2 := mul_nonneg (sub_nonneg.2 hc) (sq_nonneg _)
  unfold bend
  linarith

/-- A bend stays above what is below its ends and its control value. -/
theorem le_bend {a b c M t : ℝ} (ha : M ≤ a) (hb : M ≤ b) (hc : M ≤ c) (h₀ : 0 ≤ t) (h₁ : t ≤ 1) :
    M ≤ bend a b c t := by
  have h := bend_le (neg_le_neg ha) (neg_le_neg hb) (neg_le_neg hc) h₀ h₁
  rwa [bend_neg, neg_le_neg_iff] at h

/-! ## Turns -/

/-- The parameter where a bend turns. -/
noncomputable def turn (a b c : ℝ) : ℝ := (b - a) / (b - a + (b - c))

theorem turn_neg (a b c : ℝ) : turn (-a) (-b) (-c) = turn a b c := by
  have hnum : -b - -a = -(b - a) := by ring
  have hden : -b - -a + (-b - -c) = -(b - a + (b - c)) := by ring
  rw [turn, hden, hnum, neg_div_neg_eq, turn]

section

variable {a b c m s t u : ℝ}

theorem turn_mem (ha : a < b) (hc : c < b) : 0 < turn a b c ∧ turn a b c < 1 := by
  have hpos : 0 < b - a + (b - c) := by linarith
  exact ⟨div_pos (sub_pos.2 ha) hpos, (div_lt_one hpos).2 (by linarith)⟩

/-- Of two parameters, the one that is nearer to the crest is the higher one. -/
theorem bend_le_bend_iff (ha : a < b) (hc : c < b) :
    bend a b c s ≤ bend a b c t ↔ |t - turn a b c| ≤ |s - turn a b c| := by
  have hpos : 0 < b - a + (b - c) := by linarith
  have hturn : turn a b c * (b - a + (b - c)) = b - a := div_mul_cancel₀ _ hpos.ne'
  have hcrest : bend a b c t - bend a b c s =
      (b - a + (b - c)) * ((s - turn a b c) ^ 2 - (t - turn a b c) ^ 2) := by
    unfold bend
    linear_combination (2 * s - 2 * t) * hturn
  rw [← sub_nonneg, hcrest, mul_nonneg_iff_of_pos_left hpos, sub_nonneg, sq_le_sq]

/-- From one parameter to another, a bend with a crest is nowhere higher than at its
    ends and at a third parameter exactly if the crest is there, or if one of its
    ends is at least as near to the crest. -/
theorem forall_bend_le_iff (ha : a < b) (hc : c < b) (hs : 0 ≤ s) (hsm : s < m) (hmu : m < u)
    (hu : u ≤ 1) :
    (∀ t, s ≤ t → t ≤ u → bend a b c t ≤ max (max a c) (bend a b c m)) ↔
      turn a b c = m ∨ turn a b c ≤ s - turn a b c ∨ 1 - turn a b c ≤ turn a b c - u := by
  obtain ⟨hstart, hend⟩ := turn_mem ha hc
  have hbelow : ∀ t, bend a b c t ≤ max (max a c) (bend a b c m) ↔
      turn a b c ≤ |t - turn a b c| ∨ 1 - turn a b c ≤ |t - turn a b c| ∨
        |m - turn a b c| ≤ |t - turn a b c| := by
    intro t
    have hleft : bend a b c t ≤ a ↔ turn a b c ≤ |t - turn a b c| := by
      have h := bend_le_bend_iff (s := t) (t := 0) ha hc
      rwa [bend_zero, zero_sub, abs_neg, abs_of_pos hstart] at h
    have hright : bend a b c t ≤ c ↔ 1 - turn a b c ≤ |t - turn a b c| := by
      have h := bend_le_bend_iff (s := t) (t := 1) ha hc
      rwa [bend_one, abs_of_pos (sub_pos.2 hend)] at h
    rw [le_max_iff, le_max_iff, hleft, hright, bend_le_bend_iff ha hc, or_assoc]
  simp only [hbelow]
  generalize turn a b c = crest at *
  constructor
  · intro h
    rcases lt_or_ge crest s with hbefore | hbefore
    · -- the start is the nearest one to the crest
      have hnear := h s le_rfl (hsm.trans hmu).le
      rw [abs_of_pos (sub_pos.2 hbefore), abs_of_pos (sub_pos.2 (hbefore.trans hsm))] at hnear
      rcases hnear with h | h | h
      · exact .inr (.inl (by linarith))
      · linarith
      · linarith
    · rcases lt_or_ge u crest with hbehind | hbehind
      · have hnear := h u (hsm.trans hmu).le le_rfl
        rw [abs_of_neg (sub_neg.2 hbehind), abs_of_neg (sub_neg.2 (hmu.trans hbehind))] at hnear
        rcases hnear with h | h | h
        · linarith
        · exact .inr (.inr (by linarith))
        · linarith
      · have hnear := h crest hbefore hbehind
        rw [sub_self, abs_zero, abs_nonpos_iff] at hnear
        rcases hnear with h | h | h
        · linarith
        · linarith
        · exact .inl (by linarith)
  · intro h t hst htu
    rcases h with rfl | h | h
    · exact .inr (.inr (by rw [sub_self, abs_zero]; exact abs_nonneg _))
    · exact .inl (le_abs.2 (.inl (by linarith)))
    · exact .inr (.inl (le_abs.2 (.inr (by linarith))))

end

/-! ## Parameters -/

/-- The parameter of a position: half of the way up to the control point, and half
    of it behind. -/
noncomputable def share (l c r x : ℝ) : ℝ :=
  if x < c ∧ l < c then 0.5 - 0.5 * (c - x) / (c - l)
  else if c < x ∧ c < r then 0.5 + 0.5 * (x - c) / (r - c)
  else 0.5

variable {l c r x y : ℝ}

theorem half_eq : (0.5 : ℝ) = 1 / 2 := by norm_num

theorem share_before (hl : l < c) (hx : x ≤ c) : share l c r x = (x - l) / (2 * (c - l)) := by
  have hne : c - l ≠ 0 := (sub_pos.2 hl).ne'
  rw [share, half_eq]
  rcases hx.lt_or_eq with hlt | rfl
  · rw [if_pos ⟨hlt, hl⟩]
    field_simp
    ring
  · rw [if_neg fun h => h.1.false, if_neg fun h => h.1.false]
    field_simp

theorem share_behind (hr : c < r) (hx : c ≤ x) : share l c r x = 1 - (r - x) / (2 * (r - c)) := by
  have hne : r - c ≠ 0 := (sub_pos.2 hr).ne'
  rw [share, half_eq, if_neg fun h => h.1.not_ge hx]
  rcases hx.lt_or_eq with hlt | rfl
  · rw [if_pos ⟨hlt, hr⟩]
    field_simp
    ring
  · rw [if_neg fun h => h.1.false]
    field_simp
    ring

/-- A position is in front of the control point or behind it. -/
theorem before_or_behind (c : ℝ) (hlr : l < r) (hl : l ≤ x) (hr : x ≤ r) :
    (l < c ∧ x ≤ c) ∨ (c < r ∧ c ≤ x) := by
  rcases le_or_gt c x with hx | hx
  · rcases hx.lt_or_eq with hlt | rfl
    · exact .inr ⟨hlt.trans_le hr, hx⟩
    · rcases hr.lt_or_eq with hlt | rfl
      · exact .inr ⟨hlt, le_rfl⟩
      · exact .inl ⟨hlr, le_rfl⟩
  · exact .inl ⟨hl.trans_lt hx, hx.le⟩

/-- Wherever the control point is, the positions between the ends have parameters of
    the arc. -/
theorem share_mem (hl : l ≤ x) (hr : x ≤ r) : 0 ≤ share l c r x ∧ share l c r x ≤ 1 := by
  rw [share, half_eq]
  split_ifs with hbefore hbehind
  · have hwidth : 0 < c - l := sub_pos.2 hbefore.2
    have hnonneg : 0 ≤ 1 / 2 * (c - x) / (c - l) :=
      div_nonneg (mul_nonneg one_half_pos.le (sub_pos.2 hbefore.1).le) hwidth.le
    have hle : 1 / 2 * (c - x) / (c - l) ≤ 1 / 2 := (div_le_iff₀ hwidth).2 (by linarith)
    constructor <;> linarith
  · have hwidth : 0 < r - c := sub_pos.2 hbehind.2
    have hnonneg : 0 ≤ 1 / 2 * (x - c) / (r - c) :=
      div_nonneg (mul_nonneg one_half_pos.le (sub_pos.2 hbehind.1).le) hwidth.le
    have hle : 1 / 2 * (x - c) / (r - c) ≤ 1 / 2 := (div_le_iff₀ hwidth).2 (by linarith)
    constructor <;> linarith
  · constructor <;> linarith

theorem share_before_le (hl : l < c) (hx : x ≤ c) : share l c r x ≤ 1 / 2 := by
  rw [share_before hl hx, div_le_iff₀ (by linarith)]
  linarith

theorem le_share_behind (hr : c < r) (hx : c ≤ x) : 1 / 2 ≤ share l c r x := by
  have hle : (r - x) / (2 * (r - c)) ≤ 1 / 2 := by
    rw [div_le_iff₀ (by linarith)]
    linarith
  rw [share_behind hr hx]
  linarith

theorem share_strictMono (hl : l ≤ x) (hxy : x < y) (hr : y ≤ r) :
    share l c r x < share l c r y := by
  have hlr : l < r := (hl.trans_lt hxy).trans_le hr
  rcases before_or_behind c hlr hl (hxy.le.trans hr) with ⟨hc, hx⟩ | ⟨hc, hx⟩
  · rcases le_or_gt y c with hy | hy
    · rw [share_before hc hx, share_before hc hy]
      exact div_lt_div_of_pos_right (by linarith) (by linarith)
    · -- the control point stands between the two positions
      have hhalf : 1 / 2 < share l c r y := by
        have hlt : (r - y) / (2 * (r - c)) < 1 / 2 := by
          rw [div_lt_iff₀ (by linarith)]
          linarith
        rw [share_behind (hy.trans_le hr) hy.le]
        linarith
      exact (share_before_le hc hx).trans_lt hhalf
  · have hlt : (r - y) / (2 * (r - c)) < (r - x) / (2 * (r - c)) :=
      div_lt_div_of_pos_right (by linarith) (by linarith)
    rw [share_behind hc hx, share_behind hc (hx.trans hxy.le)]
    linarith

theorem share_mono (hl : l ≤ x) (hxy : x ≤ y) (hr : y ≤ r) : share l c r x ≤ share l c r y := by
  rcases hxy.eq_or_lt with rfl | hlt
  · exact le_rfl
  · exact (share_strictMono hl hlt hr).le

theorem share_left (hl : l < c) : share l c r l = 0 := by
  rw [share_before hl hl.le, sub_self, zero_div]

theorem share_right (hr : c < r) : share l c r r = 1 := by
  rw [share_behind hr hr.le, sub_self, zero_div, sub_zero]

/-- Half way between the ends, the control point divides the parameters evenly. -/
theorem share_of_middle (hlr : l < r) (hl : l ≤ x) (hr : x ≤ r) (hmiddle : 2 * c = l + r) :
    share l c r x = (x - l) / (r - l) := by
  have hne : r - l ≠ 0 := (sub_pos.2 hlr).ne'
  rcases before_or_behind c hlr hl hr with ⟨hc, hx⟩ | ⟨hc, hx⟩
  · have hwidth : 2 * (c - l) = r - l := by linarith
    rw [share_before hc hx, hwidth]
  · have hwidth : 2 * (r - c) = r - l := by linarith
    rw [share_behind hc hx, hwidth]
    field_simp
    ring

/-- Every parameter between the ones of both ends is that of a position. -/
theorem exists_share_eq (hlr : l < r) {t : ℝ} (hl : share l c r l ≤ t) (hr : t ≤ share l c r r) :
    ∃ x, l ≤ x ∧ x ≤ r ∧ share l c r x = t := by
  rcases le_or_gt t (1 / 2) with ht | ht
  · rcases le_or_gt c l with hc | hc
    · -- no position is in front of the control point, so the parameters start at a half
      have hhalf : 1 / 2 ≤ share l c r l := le_share_behind (hc.trans_lt hlr) hc
      exact ⟨l, le_rfl, hlr.le, by linarith⟩
    · have hwidth : 0 < c - l := sub_pos.2 hc
      rw [share_left hc] at hl
      have hx : l + 2 * t * (c - l) ≤ c := by nlinarith
      refine ⟨l + 2 * t * (c - l), by nlinarith, ?_, ?_⟩
      · rcases le_or_gt c r with hr' | hr'
        · exact hx.trans hr'
        · rw [share_before hc hr'.le, le_div_iff₀ (by linarith)] at hr
          linarith
      · rw [share_before hc hx]
        field_simp
        ring
  · rcases le_or_gt r c with hc | hc
    · have hhalf : share l c r r ≤ 1 / 2 := share_before_le (hlr.trans_le hc) hc
      linarith
    · have hwidth : 0 < r - c := sub_pos.2 hc
      rw [share_right hc] at hr
      have hx : c ≤ r - 2 * (1 - t) * (r - c) := by nlinarith
      refine ⟨r - 2 * (1 - t) * (r - c), ?_, by nlinarith, ?_⟩
      · rcases le_or_gt l c with hl' | hl'
        · exact hl'.trans hx
        · rw [share_behind hc hl'.le, sub_le_comm, le_div_iff₀ (by linarith)] at hl
          linarith
      · rw [share_behind hc hx]
        field_simp
        ring

/-! ## Positions on the arc -/

theorem bend_share_before (hl : l < c) (hx : x ≤ c) :
    bend l c r (share l c r x) = x + share l c r x ^ 2 * (l + r - 2 * c) := by
  have hwidth : c - l ≠ 0 := (sub_pos.2 hl).ne'
  have hline : l + 2 * share l c r x * (c - l) = x := by
    rw [share_before hl hx]
    field_simp
    ring
  rw [bend_eq_start, hline]

theorem bend_share_behind (hr : c < r) (hx : c ≤ x) :
    bend l c r (share l c r x) = x + (1 - share l c r x) ^ 2 * (l + r - 2 * c) := by
  have hwidth : r - c ≠ 0 := (sub_pos.2 hr).ne'
  have hline : r - 2 * (1 - share l c r x) * (r - c) = x := by
    rw [share_behind hr hx]
    field_simp
    ring
  rw [bend_eq_end, hline]

theorem share_eq_zero_iff (hl : l < c) (hx : x ≤ c) : share l c r x = 0 ↔ x = l := by
  have hwidth : 2 * (c - l) ≠ 0 := by linarith [sub_pos.2 hl]
  rw [share_before hl hx, div_eq_zero_iff, or_iff_left hwidth, sub_eq_zero]

theorem share_eq_one_iff (hr : c < r) (hx : c ≤ x) : 1 - share l c r x = 0 ↔ x = r := by
  have hwidth : 2 * (r - c) ≠ 0 := by linarith [sub_pos.2 hr]
  rw [share_behind hr hx, sub_sub_cancel, div_eq_zero_iff, or_iff_left hwidth, sub_eq_zero, eq_comm]

/-- The arc has a position at its own parameter if the control point is half way
    between the ends, and otherwise only an end that the control point is not
    beyond. -/
theorem bend_share_eq_iff (hlr : l < r) (hl : l ≤ x) (hr : x ≤ r) :
    bend l c r (share l c r x) = x ↔ 2 * c = l + r ∨ (x = l ∧ l < c) ∨ (x = r ∧ c < r) := by
  have hmiddle : l + r - 2 * c = 0 ↔ 2 * c = l + r := by rw [sub_eq_zero, eq_comm]
  rcases before_or_behind c hlr hl hr with ⟨hc, hx⟩ | ⟨hc, hx⟩
  · have hend : ¬ (x = r ∧ c < r) := fun h => h.2.not_ge (h.1 ▸ hx)
    rw [bend_share_before hc hx, add_eq_left, mul_eq_zero, sq_eq_zero_iff,
      share_eq_zero_iff hc hx, hmiddle, or_iff_left hend, and_iff_left hc, or_comm]
  · have hend : ¬ (x = l ∧ l < c) := fun h => h.2.not_ge (h.1 ▸ hx)
    rw [bend_share_behind hc hx, add_eq_left, mul_eq_zero, sq_eq_zero_iff,
      share_eq_one_iff hc hx, hmiddle, or_iff_right hend, and_iff_left hc, or_comm]

end FuzzyInference.Arc
