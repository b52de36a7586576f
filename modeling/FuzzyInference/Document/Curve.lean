import FuzzyInference.Document.Form
import FuzzyInference.Geometry.Segment
import FuzzyInference.Curve.Basic
import FuzzyInference.Variable.Store

/-!
# Documents of curves and variables

A point is an object with its coordinates, and segments and curves are unions over their kinds,
with the parameters of the kind as fields. Reading a curve checks nothing but its form: segments
are not stitched again, and a lookup table may be of any length.

A variable is an object with its name, its range and its memberships in order. A store is the
array of its variables; keys are not written.
-/

namespace FuzzyInference

/-! ## Points and segments -/

variable {α : Type} [Scalar α]

namespace Point

/-- The document of a point. -/
def toDocument (p : Point α) : Json α :=
  .object [("x", Json.ofScalar p.x), ("y", Json.ofScalar p.y)]

/-- Reads a point. -/
def ofDocument? (j : Json α) : Option (Point α) :=
  match j.fields? ["x", "y"] with
  | some [x, y] => do
    return ⟨← Json.required Json.toScalar? x, ← Json.required Json.toScalar? y⟩
  | _ => none

end Point

namespace Segment

/-- The kinds of segments, by their tags. -/
def cases : List String := ["Linear", "Step", "Bezier"]

/-- The document of a segment. -/
def toDocument : Segment α → Json α
  | .linear l r => Json.tagged "type" "Linear" [("left", l.toDocument), ("right", r.toDocument)]
  | .step l r h =>
    Json.tagged "type" "Step"
      [("left", l.toDocument), ("right", r.toDocument), ("height", Json.ofScalar h)]
  | .bezier l r c =>
    Json.tagged "type" "Bezier"
      [("left", l.toDocument), ("right", r.toDocument), ("control", c.toDocument)]

/-- The segment of a kind with the given fields. -/
def ofCase? (c : String) (j : Json α) : Option (Segment α) :=
  match c with
  | "Linear" =>
    match j.fields? ["left", "right"] with
    | some [l, r] => do
      return .linear (← Json.required Point.ofDocument? l) (← Json.required Point.ofDocument? r)
    | _ => none
  | "Step" =>
    match j.fields? ["left", "right", "height"] with
    | some [l, r, h] => do
      return .step (← Json.required Point.ofDocument? l) (← Json.required Point.ofDocument? r)
        (← Json.required Json.toScalar? h)
    | _ => none
  | "Bezier" =>
    match j.fields? ["left", "right", "control"] with
    | some [l, r, c] => do
      return .bezier (← Json.required Point.ofDocument? l) (← Json.required Point.ofDocument? r)
        (← Json.required Point.ofDocument? c)
    | _ => none
  | _ => none

/-- Reads a segment. -/
def ofDocument? (place : Json.Place) (j : Json α) : Option (Segment α) := do
  let (c, fields) ← j.tagged? place "type" cases
  ofCase? c fields

end Segment

/-! ## Curves -/

namespace Curve

/-- The shapes of curves, by their tags. -/
def cases : List String := ["Linear", "Gaussian", "Sigmoid", "Triangle", "Trapezoid", "Step",
  "Polynomial", "Cubic", "Piecewise", "Lookup"]

/-- The fields of a curve. -/
def documentFields : Curve α → List (String × Json α)
  | .linear l r => [("left", l.toDocument), ("right", r.toDocument)]
  | .gaussian h c s y =>
    [("height", .ofScalar h), ("center", .ofScalar c), ("spread", .ofScalar s),
      ("y_min", .ofScalar y)]
  | .sigmoid m h s y =>
    [("midpoint", .ofScalar m), ("y_max", .ofScalar h), ("slope", .ofScalar s),
      ("y_min", .ofScalar y)]
  | .triangle l a r => [("left", l.toDocument), ("apex", a.toDocument), ("right", r.toDocument)]
  | .trapezoid p q r s =>
    [("points", .array [p.toDocument, q.toDocument, r.toDocument, s.toDocument])]
  | .step n l r a b =>
    [("steps", .int n), ("y_left", .ofScalar l), ("y_right", .ofScalar r), ("x_min", .ofScalar a),
      ("x_max", .ofScalar b)]
  | .polynomial a b c x =>
    [("a", .ofScalar a), ("b", .ofScalar b), ("c", .ofScalar c), ("x_offset", .ofScalar x)]
  | .cubic a b c d x =>
    [("a", .ofScalar a), ("b", .ofScalar b), ("c", .ofScalar c), ("d", .ofScalar d),
      ("x_offset", .ofScalar x)]
  | .piecewise segments => [("segments", .array (segments.map Segment.toDocument))]
  | .lookup ys => [("ys", .array (ys.map Json.ofScalar))]

/-- The document of a curve. -/
def toDocument (c : Curve α) : Json α := Json.tagged "type" c.kind c.documentFields

/-- A field that has to be a scalar. -/
def scalarField : Option (Json α) → Option α := Json.required Json.toScalar?

/-- A field that has to be a point. -/
def pointField : Option (Json α) → Option (Point α) := Json.required Point.ofDocument?

/-- The curve of a shape with the given fields. -/
def ofCase? (c : String) (j : Json α) : Option (Curve α) :=
  match c with
  | "Linear" =>
    match j.fields? ["left", "right"] with
    | some [l, r] => do return .linear (← pointField l) (← pointField r)
    | _ => none
  | "Gaussian" =>
    match j.fields? ["height", "center", "spread", "y_min"] with
    | some [h, c, s, y] => do
      return .gaussian (← scalarField h) (← scalarField c) (← scalarField s) (← scalarField y)
    | _ => none
  | "Sigmoid" =>
    match j.fields? ["midpoint", "y_max", "slope", "y_min"] with
    | some [m, h, s, y] => do
      return .sigmoid (← scalarField m) (← scalarField h) (← scalarField s) (← scalarField y)
    | _ => none
  | "Triangle" =>
    match j.fields? ["left", "apex", "right"] with
    | some [l, a, r] => do return .triangle (← pointField l) (← pointField a) (← pointField r)
    | _ => none
  | "Trapezoid" =>
    match j.fields? ["points"] with
    | some [points] =>
      match Json.required (Json.toList? Point.ofDocument?) points with
      | some [p, q, r, s] => some (.trapezoid p q r s)
      | _ => none
    | _ => none
  | "Step" =>
    match j.fields? ["steps", "y_left", "y_right", "x_min", "x_max"] with
    | some [n, l, r, a, b] => do
      return .step (← Json.required (Json.toNat? (Nat.pow 2 32)) n) (← scalarField l)
        (← scalarField r)
        (← scalarField a) (← scalarField b)
    | _ => none
  | "Polynomial" =>
    match j.fields? ["a", "b", "c", "x_offset"] with
    | some [a, b, c, x] => do
      return .polynomial (← scalarField a) (← scalarField b) (← scalarField c) (← scalarField x)
    | _ => none
  | "Cubic" =>
    match j.fields? ["a", "b", "c", "d", "x_offset"] with
    | some [a, b, c, d, x] => do
      return .cubic (← scalarField a) (← scalarField b) (← scalarField c) (← scalarField d)
        (← scalarField x)
    | _ => none
  | "Piecewise" =>
    match j.fields? ["segments"] with
    | some [segments] => do
      return .piecewise (← Json.required (Json.toList? (Segment.ofDocument? .inside)) segments)
    | _ => none
  | "Lookup" =>
    match j.fields? ["ys"] with
    | some [ys] => do return .lookup (← Json.required (Json.toList? Json.toScalar?) ys)
    | _ => none
  | _ => none

/-- Reads a curve. -/
def ofDocument? (j : Json α) : Option (Curve α) := do
  let (c, fields) ← j.tagged? .outside "type" cases
  ofCase? c fields

end Curve

/-! ## Variables -/

/-- The document of a variable. -/
def Variable.toDocument (v : Variable α) : Json α :=
  .object [("name", .string v.name), ("min", .ofScalar v.min), ("max", .ofScalar v.max),
    ("curves", .ofMap Curve.toDocument v.curves)]

/-- Reads a variable. Its range is not checked. -/
def Variable.ofDocument? (j : Json α) : Option (Variable α) :=
  match j.fields? ["name", "min", "max", "curves"] with
  | some [name, min, max, curves] => do
    return ⟨← Json.required Json.toString? name, ← Json.required Json.toScalar? min,
      ← Json.required Json.toScalar? max,
      ← Json.withDefault .empty (Json.toMap? Curve.ofDocument?) curves⟩
  | _ => none

/-- The document of a store (within the engine's `Variables.into`). -/
def VariableStore.toDocument (s : VariableStore α) : Json α :=
  .array (s.toList.map Variable.toDocument)

/-- Reads a store by adding its variables one after the other (within the engine's
    `Variables.from`). -/
def VariableStore.ofDocument? (j : Json α) : Option (VariableStore α) :=
  (j.toList? Variable.ofDocument?).map VariableStore.ofList

end FuzzyInference
