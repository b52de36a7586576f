import FuzzyInference.Proofs.Curve.Exact
import FuzzyInference.Proofs.Geometry.Extremes

/-!
# Curves of straight lines

Lines, triangles and trapezoids are given by points that nothing keeps in order.
Their heights are found by comparing a position with one point after the other, so
that a line is only read where its left point is not behind the position and its
right point not in front of it. There it runs between the heights of both points,
however the others lie.

Results:

* `height_cases`: the points that a height is read from.
* `evaluate_within_points`: the heights stay between those of the points.
-/

namespace FuzzyInference.Curve

open Exact (NoZeroDivision dividing)

/-- A curve of straight lines between real points. -/
inductive Polyline where
  | linear (left right : Point ℝ)
  | triangle (left apex right : Point ℝ)
  | trapezoid (lowLeft highLeft highRight lowRight : Point ℝ)

namespace Polyline

/-- The curve over exact scalars. -/
def exactly : Polyline → Curve Exact
  | linear l r => .linear l.exactly r.exactly
  | triangle l a r => .triangle l.exactly a.exactly r.exactly
  | trapezoid p q r s => .trapezoid p.exactly q.exactly r.exactly s.exactly

/-- The points that the lines join. -/
def points : Polyline → List (Point ℝ)
  | linear l r => [l, r]
  | triangle l a r => [l, a, r]
  | trapezoid p q r s => [p, q, r, s]

variable {x : ℝ}

/-- Heights are compared and looked up, and the lines between points do not divide
    by zero. -/
theorem noZeroDivision_evaluate (c : Polyline) (hx : x ∈ Set.Icc (0 : ℝ) 1) :
    NoZeroDivision fun s => @evaluate Exact s c.exactly (x : Exact) := by
  intro byZero
  have hheight : @height Exact (dividing byZero) c.exactly (x : Exact) =
      c.exactly.height (x : Exact) := by
    cases c <;> simp only [exactly, height, lineHeight_dividing, lineHeight_exactly]
  exact (evaluate_dividing hx byZero).trans (hheight.trans (evaluate_unit hx).symm)

/-- A height is the height of a point, or of a line whose points are on both sides
    of the position. -/
theorem height_cases (c : Polyline) (x : ℝ) :
    (∃ p ∈ c.points, c.exactly.height (x : Exact) = .ok (p.y : Exact)) ∨
      ∃ p ∈ c.points, ∃ q ∈ c.points, p.x ≤ x ∧ x ≤ q.x ∧
        c.exactly.height (x : Exact) = .ok ((Segment.linear p q).height x : Exact) := by
  cases c with
  | linear l r =>
    simp only [exactly, points, height, lineHeight_exactly, Point.x_exactly, Point.y_exactly,
      Exact.real_le]
    split_ifs with hl hr
    · exact .inl ⟨l, by simp, rfl⟩
    · exact .inl ⟨r, by simp, rfl⟩
    · exact .inr ⟨l, by simp, r, by simp, (not_le.1 hl).le, (not_le.1 hr).le, rfl⟩
  | triangle l a r =>
    simp only [exactly, points, height, lineHeight_exactly, Point.x_exactly, Point.y_exactly,
      Exact.real_le]
    split_ifs with hout ha
    · exact .inl ⟨l, by simp, rfl⟩
    · obtain ⟨hl, -⟩ := not_or.1 hout
      exact .inr ⟨l, by simp, a, by simp, (not_le.1 hl).le, ha, rfl⟩
    · obtain ⟨-, hr⟩ := not_or.1 hout
      exact .inr ⟨a, by simp, r, by simp, (not_le.1 ha).le, (not_le.1 hr).le, rfl⟩
  | trapezoid p q r s =>
    simp only [exactly, points, height, lineHeight_exactly, Point.x_exactly, Point.y_exactly,
      Exact.real_le]
    split_ifs with hout hq hr
    · exact .inl ⟨p, by simp, rfl⟩
    · obtain ⟨hp, -⟩ := not_or.1 hout
      exact .inr ⟨p, by simp, q, by simp, (not_le.1 hp).le, hq, rfl⟩
    · exact .inr ⟨q, by simp, r, by simp, (not_le.1 hq).le, hr, rfl⟩
    · obtain ⟨-, hs⟩ := not_or.1 hout
      exact .inr ⟨r, by simp, s, by simp, (not_le.1 hr).le, (not_le.1 hs).le, rfl⟩

/-- Between two points a line has no height outside of theirs. -/
theorem exists_points_around {points : List (Point ℝ)} {p q : Point ℝ} (hp : p ∈ points)
    (hq : q ∈ points) (hleft : p.x ≤ x) (hright : x ≤ q.x) :
    (∃ low ∈ points, low.y ≤ (Segment.linear p q).height x) ∧
      ∃ high ∈ points, (Segment.linear p q).height x ≤ high.y := by
  obtain ⟨hlow, hhigh⟩ := Segment.height_line_mem hleft hright
  constructor
  · rcases min_le_iff.1 hlow with h | h
    · exact ⟨p, hp, h⟩
    · exact ⟨q, hq, h⟩
  · rcases le_max_iff.1 hhigh with h | h
    · exact ⟨p, hp, h⟩
    · exact ⟨q, hq, h⟩

/-- A curve of straight lines between any real points has a height at every position
    of the unit interval. It is found without dividing by zero, and is between the
    heights of two of the points. -/
theorem evaluate_within_points (c : Polyline) {x : ℝ} (hx : x ∈ Set.Icc (0 : ℝ) 1) :
    ∃ y : ℝ, c.exactly.evaluate (x : Exact) = .ok (y : Exact) ∧
      (NoZeroDivision fun s => @evaluate Exact s c.exactly (x : Exact)) ∧
      (∃ low ∈ c.points, low.y ≤ y) ∧ ∃ high ∈ c.points, y ≤ high.y := by
  have hsafe := c.noZeroDivision_evaluate hx
  rw [evaluate_unit hx]
  rcases c.height_cases x with ⟨p, hp, hheight⟩ | ⟨p, hp, q, hq, hleft, hright, hheight⟩
  · exact ⟨p.y, hheight, hsafe, ⟨p, hp, le_rfl⟩, p, hp, le_rfl⟩
  · exact ⟨_, hheight, hsafe, exists_points_around hp hq hleft hright⟩

/-- A trapezoid whose upper points have changed sides, the right one above its lower
    left point. -/
def folded : Polyline := .trapezoid ⟨0.25, 0⟩ ⟨0.75, 0.5⟩ ⟨0.25, 1⟩ ⟨1, -1⟩

theorem evaluate_folded : (0.5 : ℝ) ∈ Set.Icc (0 : ℝ) 1 ∧
    ∃ y : ℝ, folded.exactly.evaluate (.real 0.5) = .ok (y : Exact) ∧
      (NoZeroDivision fun s => @evaluate Exact s folded.exactly (.real 0.5)) ∧ -1 ≤ y ∧ y ≤ 1 := by
  have hx : (0.5 : ℝ) ∈ Set.Icc (0 : ℝ) 1 := by norm_num
  obtain ⟨y, hy, hsafe, ⟨low, hlow, hbelow⟩, high, hhigh, habove⟩ :=
    evaluate_within_points folded hx
  have hends : ∀ p ∈ folded.points, -1 ≤ p.y ∧ p.y ≤ 1 := by
    simp only [folded, points, List.forall_mem_cons, List.not_mem_nil, false_implies, implies_true]
    norm_num
  exact ⟨hx, y, hy, hsafe, (hends low hlow).1.trans hbelow, habove.trans (hends high hhigh).2⟩

end Polyline

end FuzzyInference.Curve
