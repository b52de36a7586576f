import FuzzyInference.Curve.Basic

/-!
# Anchor points

The points that fix a curve's shape, for display and editing. A shape with no
points of its own shows the curve at its characteristic positions; a position
where the curve has no height shows an undefined one. The helpers are branches
of the engine's `Curve.anchor_points`.
-/

namespace FuzzyInference.Curve

variable {α : Type} [Scalar α]

/-- The point of a curve at a position. -/
def pointAt (c : Curve α) (x : α) : Point α :=
  match c.evaluate x with
  | .ok y => ⟨x, y⟩
  | .error _ => ⟨x, Scalar.notANumber⟩

/-- The position inside the unit interval nearest to where a polynomial turns, its
    middle if the leading coefficient is zero. -/
def turningPosition (leading next factor : α) : α :=
  Scalar.clamp (if leading == 0 then (0.5 : α) else -next / (factor * leading)) 0 1

/-- The two ends of each stair of a staircase. -/
def stairEnds (steps : Nat) (yLeft yRight xMin xMax : α) : List (Point α) :=
  let width := (xMax - xMin) / Scalar.ofNat (max steps 1)
  let rise := (yRight - yLeft) / Scalar.ofNat (max (steps - 1) 1)
  (List.range steps).flatMap fun i =>
    let x := xMin + Scalar.ofNat i * width
    let y := yLeft + Scalar.ofNat i * rise
    [⟨x, y⟩, ⟨x + width, y⟩]

/-- The points that fix a curve's shape (the engine's `Curve.anchor_points`). -/
def anchors (c : Curve α) : List (Point α) :=
  match c with
  | .linear l r => [l, r]
  | .gaussian _ center spread _ => [center - spread, center, center + spread].map c.pointAt
  | .sigmoid midpoint _ _ _ => [0, midpoint, 1].map c.pointAt
  | .triangle l a r => [l, a, r]
  | .trapezoid p q r s => [p, q, r, s]
  | .step steps yLeft yRight xMin xMax => stairEnds steps yLeft yRight xMin xMax
  | .polynomial a b _ _ => [0, turningPosition a b 2, 1].map c.pointAt
  | .cubic a b _ _ _ => [0, turningPosition a b 3, 1].map c.pointAt
  | .piecewise segments =>
    segments.map Segment.left ++ (segments.getLast?.map Segment.right).toList
  | .lookup heights => (grid 0 1 heights.length).zipWith (fun x y => ⟨x, y⟩) heights

end FuzzyInference.Curve
