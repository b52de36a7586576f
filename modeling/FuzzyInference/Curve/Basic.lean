import FuzzyInference.Domain
import FuzzyInference.Geometry.Segment

/-!
# Membership curves

The shapes a membership can have over `[0, 1]`, with their default parameters, and the two shapes
made from other data: piecewise curves of stitched segments and lookup tables of heights. Lookup
tables are also sampled from other curves.

Results:

* `Curve.ofSegments_eq_ok`: a piecewise curve holds the stitched segments.
* `Curve.evaluate_of_mem`: inside `[0, 1]` the height is the shape's own.
-/

namespace FuzzyInference

/-- A membership curve over `[0, 1]` (the engine's `Curve`). -/
inductive Curve (α : Type) where
  /-- Flat before `left`, flat behind `right`, straight in between. -/
  | linear (left right : Point α)
  /-- `(height - yMin) · exp (-(x - center)² / (2 · spread²)) + yMin` -/
  | gaussian (height center spread yMin : α)
  /-- `(yMax - yMin) / (1 + exp (-slope · (x - midpoint))) + yMin` -/
  | sigmoid (midpoint yMax slope yMin : α)
  | triangle (left apex right : Point α)
  | trapezoid (lowLeft highLeft highRight lowRight : Point α)
  /-- A staircase of `steps` levels from `yLeft` to `yRight` between `xMin` and
      `xMax`. -/
  | step (steps : Nat) (yLeft yRight xMin xMax : α)
  /-- `a · u² + b · u + c` with `u = x - xOffset` -/
  | polynomial (a b c xOffset : α)
  /-- `a · u³ + b · u² + c · u + d` with `u = x - xOffset` -/
  | cubic (a b c d xOffset : α)
  | piecewise (segments : List (Segment α))
  /-- Heights laid out evenly over `[0, 1]`, joined by straight lines. -/
  | lookup (heights : List α)
  deriving Repr, DecidableEq

namespace Curve

/-- The name of a curve's shape (the engine's `Curve.kind`). -/
def kind {α : Type} : Curve α → String
  | .linear .. => "Linear"
  | .gaussian .. => "Gaussian"
  | .sigmoid .. => "Sigmoid"
  | .triangle .. => "Triangle"
  | .trapezoid .. => "Trapezoid"
  | .step .. => "Step"
  | .polynomial .. => "Polynomial"
  | .cubic .. => "Cubic"
  | .piecewise .. => "Piecewise"
  | .lookup .. => "Lookup"

variable {α : Type} [Scalar α]

/-! ## Default shapes -/

/-- The diagonal (the engine's `Curve.linear`). -/
def ramp : Curve α := .linear ⟨0, 0⟩ ⟨1, 1⟩

/-- The bell around the middle (the engine's `Curve.gaussian`). -/
def bell : Curve α := .gaussian 1 (0.5) (0.1) 0

/-- The rise through the middle (the engine's `Curve.sigmoid`). -/
def logistic : Curve α := .sigmoid (0.5) 1 20 0

/-- The triangle over the middle half (the engine's `Curve.triangle`). -/
def tent : Curve α := .triangle ⟨0.25, 0⟩ ⟨0.5, 1⟩ ⟨0.75, 0⟩

/-- The trapezoid with slopes at both ends (the engine's `Curve.trapezoid`). -/
def plateau : Curve α := .trapezoid ⟨0, 0⟩ ⟨0.3, 1⟩ ⟨0.7, 1⟩ ⟨1, 0⟩

/-- The staircase of two stairs (the engine's `Curve.step`). -/
def stairs : Curve α := .step 2 0 1 0 1

/-- The parabola that touches zero in the middle (the engine's
    `Curve.polynomial`). -/
def parabola : Curve α := .polynomial 1 (-1) (0.25) 0

/-- The default cubic (the engine's `Curve.cubic`). -/
def cubicWave : Curve α := .cubic 1 (-(1.5 : α)) (0.5) (0.15) 0

/-- The default curve of a shape. -/
def default? : String → Option (Curve α)
  | "linear" => some ramp
  | "gaussian" => some bell
  | "sigmoid" => some logistic
  | "triangle" => some tent
  | "trapezoid" => some plateau
  | "step" => some stairs
  | "polynomial" => some parabola
  | "cubic" => some cubicWave
  | _ => none

/-! ## Curves from other data -/

/-- A piecewise curve of stitched segments; without segments it is flat at zero (the
    engine's `Curve.piecewise`). -/
def ofSegments (segments : List (Segment α)) : Result α (Curve α) := do
  let segments ← if segments.isEmpty then do
      let flat ← Segment.line ⟨0, 0⟩ ⟨1, 0⟩
      pure [flat]
    else pure segments
  match Segment.stitch segments with
  | (_, some e) => throw e
  | (stitched, none) => return .piecewise stitched

/-- A lookup table of at least two heights (the engine's `Curve.lookup`). -/
def ofHeights (heights : List α) : Result α (Curve α) :=
  if heights.length < 2 then .error (.argument .tooFewSamples) else .ok (.lookup heights)

/-- The same piecewise curve with other segments, stitched (the engine's
    `Curve.replace_segments`). -/
def replaceSegments (c : Curve α) (segments : List (Segment α)) : Result α (Curve α) :=
  match c with
  | .piecewise _ => ofSegments segments
  | c => .error (.unsupported (.segments c.kind))

theorem ofSegments_eq_ok {segments stitched : List (Segment α)} (hne : segments ≠ [])
    (h : Segment.stitch segments = (stitched, none)) :
    ofSegments segments = .ok (.piecewise stitched) := by
  have : segments.isEmpty = false := by cases segments <;> simp_all
  simp [ofSegments, this, h, pure, Except.pure, bind, Except.bind]

/-- Whether two curves have one shape with equal parameters, points being compared
    up to tolerance (the engine's `Curve.eq`). -/
def same : Curve α → Curve α → Bool
  | .linear l r, .linear l' r' => l.same l' && r.same r'
  | .gaussian h c s y, .gaussian h' c' s' y' => h == h' && c == c' && s == s' && y == y'
  | .sigmoid m h s y, .sigmoid m' h' s' y' => m == m' && h == h' && s == s' && y == y'
  | .triangle l a r, .triangle l' a' r' => l.same l' && a.same a' && r.same r'
  | .trapezoid p q r s, .trapezoid p' q' r' s' => p.same p' && q.same q' && r.same r' && s.same s'
  | .step n l r a b, .step n' l' r' a' b' => n == n' && l == l' && r == r' && a == a' && b == b'
  | .polynomial a b c x, .polynomial a' b' c' x' => a == a' && b == b' && c == c' && x == x'
  | .cubic a b c d x, .cubic a' b' c' d' x' => a == a' && b == b' && c == c' && d == d' && x == x'
  | .piecewise s, .piecewise s' => s.length == s'.length && (s.zip s').all fun (a, b) => a.same b
  | .lookup ys, .lookup ys' => ys.length == ys'.length && (ys.zip ys').all fun (a, b) => a == b
  | _, _ => false

/-! ## Heights -/

/-- The height at `x` of the straight line through two points (the engine's
    `line_y`). -/
def lineHeight (p q : Point α) (x : α) : α :=
  if q.x == p.x then q.y else p.y + (x - p.x) * (q.y - p.y) / (q.x - p.x)

/-- The stair of a staircase that `x` stands on, counted from zero; the end of the
    staircase belongs to its last stair (within the engine's `Curve.evaluate`). -/
def stairIndex (steps : Nat) (xMin xMax x : α) : α :=
  let width := (xMax - xMin) / Scalar.ofNat steps
  Scalar.minimum (Scalar.floor ((x - xMin) / width)) (Scalar.ofNat (steps - 1))

/-- The height of a shape at a position of the unit interval (within the engine's
    `Curve.evaluate`). -/
def height (c : Curve α) (x : α) : Result α α :=
  match c with
  | .linear l r =>
    .ok (if x ≤ l.x then l.y else if r.x ≤ x then r.y else lineHeight l r x)
  | .gaussian h center spread yMin =>
    let exponent := -(Scalar.powInt (x - center) 2) / (2 * spread * spread)
    .ok ((h - yMin) * Scalar.exp exponent + yMin)
  | .sigmoid midpoint yMax slope yMin =>
    .ok ((yMax - yMin) / (1 + Scalar.exp (-slope * (x - midpoint))) + yMin)
  | .triangle l a r =>
    .ok (if x ≤ l.x ∨ r.x ≤ x then l.y else if x ≤ a.x then lineHeight l a x else lineHeight a r x)
  | .trapezoid p q r s =>
    .ok (if x ≤ p.x ∨ s.x ≤ x then p.y
      else if x ≤ q.x then lineHeight p q x
      else if x ≤ r.x then lineHeight q r x
      else lineHeight r s x)
  | .step steps yLeft yRight xMin xMax =>
    .ok (if x ≤ xMin then yLeft
      else if xMax < x ∨ steps < 2 then yRight
      else stairIndex steps xMin xMax x * ((yRight - yLeft) / Scalar.ofNat (steps - 1)) + yLeft)
  | .polynomial a b c xOffset =>
    let u := x - xOffset
    .ok (a * u * u + b * u + c)
  | .cubic a b c d xOffset =>
    let u := x - xOffset
    .ok (a * Scalar.powInt u 3 + b * u * u + c * u + d)
  | .piecewise segments =>
    match segments.find? fun s => s.covers x with
    | some s => .ok (s.evaluate x)
    | none => .error (.segment (.uncovered x))
  | .lookup heights =>
    match interpolate? x heights with
    | some y => .ok y
    | none => .error (.argument .tooFewSamples)

/-- The height of a curve at a position, which may drift out of the unit interval a
    little (the engine's `Curve.evaluate`). -/
def evaluate (c : Curve α) (x : α) : Result α α := do
  c.height (← inUnit x)

theorem evaluate_of_mem (c : Curve α) {x : α} (h : 0 ≤ x ∧ x ≤ 1) : c.evaluate x = c.height x := by
  simp [evaluate, inUnit_of_mem h, bind, Except.bind]

/-- A lookup table with the heights of a curve on an even grid (the engine's
    `Curve.bake`). -/
def bake (c : Curve α) (samples : Nat) : Result α (Curve α) :=
  if samples < 2 then .error (.argument .tooFewSamples)
  else do
    let heights ← (grid 0 1 samples).mapM c.evaluate
    return .lookup heights

end Curve

end FuzzyInference
