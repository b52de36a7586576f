import FuzzyInference.Curve.Basic

/-!
# Templates

A curve serves as the template of several copies spread over `[0, 1]`, each
overlapping its neighbours by roughly the given share. The copies stand in the
middle of equal slices, or, spread to the edges, the first and the last one
stand on the ends of the interval.
-/

namespace FuzzyInference.Curve

variable {α : Type} [Scalar α]

/-- The distance between neighbouring copies, and where the first one stands (the
    engine's `template_spacing`). -/
def spacing (count : Nat) (toEdges : Bool) : α × α :=
  if toEdges then (1 / Scalar.ofNat (count - 1), 0)
  else
    let step := 1 / Scalar.ofNat count
    (step, step / 2)

/-- Whether the copies of a curve overlap as asked for (the engine's
    `Curve.allows_overlap`). -/
def overlaps : Curve α → Bool
  | .polynomial .. | .cubic .. | .piecewise .. | .lookup .. => false
  | _ => true

/-- The copy of a curve whose middle is at `mid`, among `count` copies at distance
    `step`; shapes without parameters for it have none (within the engine's
    `Curve.construct_multiple`). -/
def copyAt? (c : Curve α) (count : Nat) (overlap step mid : α) : Option (Curve α) :=
  match c with
  | .linear l r =>
    let slice := 2 * overlap * step + step
    let left := mid - slice / 2
    some (.linear ⟨left, l.y⟩ ⟨left + slice, r.y⟩)
  | .gaussian h _ _ yMin =>
    let base := step / 7
    some (.gaussian h mid (base + 4 * base * overlap) yMin)
  | .sigmoid _ yMax _ yMin =>
    let slope := 24 * Scalar.ofNat (count - 1)
    some (.sigmoid mid yMax (slope - slope * overlap) yMin)
  | .triangle l a r =>
    let half := (step + overlap * step * 2) / 2
    some (.triangle ⟨mid - half, l.y⟩ ⟨mid, a.y⟩ ⟨mid + half, r.y⟩)
  | .trapezoid p q r s =>
    let low := s.x - p.x
    let high := r.x - q.x
    let lower := step + step * overlap * 2
    let upper := if low == 0 then 0 else high * (lower / low)
    some (.trapezoid ⟨mid - lower / 2, p.y⟩ ⟨mid - upper / 2, q.y⟩ ⟨mid + upper / 2, r.y⟩
      ⟨mid + lower / 2, s.y⟩)
  | .step steps yLeft yRight _ _ =>
    let half := step / 2 + step * overlap * 2
    some (.step steps yLeft yRight (mid - half) (mid + half))
  | .polynomial a b c _ => some (.polynomial a b c (mid - (0.5 : α)))
  | .cubic a b c d _ => some (.cubic a b c d (mid - (0.5 : α)))
  | .piecewise _ => none
  | .lookup _ => none

/-- `count` copies of a curve spread over `[0, 1]` (the engine's
    `Curve.construct_multiple`). -/
def spread (c : Curve α) (count : Nat) (overlap : α) (toEdges : Bool) : Result α (List (Curve α)) :=
  if count < 2 then .error (.argument .tooFewCurves)
  else
    let (gap, start) := spacing count toEdges
    match (List.range count).mapM fun i =>
      c.copyAt? count overlap gap (start + gap * Scalar.ofNat i) with
    | some curves => .ok curves
    | none => .error (.unsupported (.template c.kind))

end FuzzyInference.Curve
