import FuzzyInference.Curve.Basic
import FuzzyInference.Proofs.Geometry.Exact
import FuzzyInference.Proofs.Scalar.Exact

/-!
# Heights over real numbers

A position in the unit interval of real numbers is taken as it is, so that a curve is
evaluated there to the height of its shape. The straight line through two points has
the heights of the linear segment between them.

Results:

* `evaluate_unit`: inside the unit interval the height is the shape's own.
* `evaluate_of_forall_dividing`: a height that is found without dividing by zero.
* `lineHeight_exactly`: the line through two points.
-/

namespace FuzzyInference.Curve

open Exact (NoZeroDivision dividing)

/-! ## Positions -/

section

variable {c : Curve Exact} {x : ℝ}

theorem unit_exactly (hx : x ∈ Set.Icc (0 : ℝ) 1) : 0 ≤ (x : Exact) ∧ (x : Exact) ≤ 1 := by
  simpa using hx

theorem evaluate_unit (hx : x ∈ Set.Icc (0 : ℝ) 1) :
    c.evaluate (x : Exact) = c.height (x : Exact) :=
  evaluate_of_mem c (unit_exactly hx)

theorem evaluate_dividing (hx : x ∈ Set.Icc (0 : ℝ) 1) (byZero : Exact → Exact) :
    @evaluate Exact (dividing byZero) c x = @height Exact (dividing byZero) c x :=
  @evaluate_of_mem Exact (dividing byZero) c x (unit_exactly hx)

end

/-! ## Lines -/

section

variable (p q : Point ℝ) (x : ℝ)

/-- The line through two points has the heights of the segment between them. Points
    above each other are told apart before their distance is divided by. -/
theorem lineHeight_dividing (byZero : Exact → Exact) :
    @lineHeight Exact (dividing byZero) p.exactly q.exactly (x : Exact) =
      ((Segment.linear p q).height x : ℝ) := by
  unfold lineHeight Segment.height
  simp only [Point.x_exactly, Point.y_exactly, Exact.real_beq]
  split_ifs with h
  · rfl
  · simp only [Exact.real_sub, Exact.real_mul, Exact.real_div_dividing _ _ (sub_ne_zero.2 h),
      Exact.real_add]
    congr 1
    ring

theorem lineHeight_exactly :
    lineHeight p.exactly q.exactly (x : Exact) = ((Segment.linear p q).height x : ℝ) :=
  Exact.eq_of_forall_dividing (fun s => @lineHeight Exact s p.exactly q.exactly x)
    (lineHeight_dividing p q x)

end

end FuzzyInference.Curve
