import FuzzyInference.Curve.Basic
import FuzzyInference.OrderedMap
import FuzzyInference.Value

/-!
# Variables

A variable is a named quantity with a range and membership curves over it, which
are evaluated at the position of a value within the range.

Results:

* `truth_of_passing`: a sentinel that does not substitute passes through every
  membership.
-/

namespace FuzzyInference

/-- A named quantity with its range and its membership curves (the engine's
    `Variable`). -/
structure Variable (α : Type) where
  name : String
  min : α
  max : α
  curves : OrderedMap (Curve α)

namespace Variable

variable {α : Type} [Scalar α]

/-- A variable over an increasing range, without memberships (the engine's
    `Variable.new`). -/
def make (name : String) (min max : α) : Result α (Variable α) :=
  if min < max then .ok ⟨name, min, max, .empty⟩
  else .error (.argument (.rangeNotIncreasing name min max))

/-- Adds or replaces a membership, which keeps its place when replaced (the engine's
    `Variable.add_curve`). -/
def addCurve (v : Variable α) (membership : String) (c : Curve α) : Variable α :=
  { v with curves := v.curves.insert membership c }

/-- The curve of a membership (the engine's `Variable.curve`). -/
def curve (v : Variable α) (membership : String) : Result α (Curve α) :=
  match v.curves.get? membership with
  | some c => .ok c
  | none => .error (.unknownMembership v.name membership)

/-- The names of the memberships, in order (the engine's `Variable.memberships`). -/
def memberships (v : Variable α) : List String := v.curves.keys

/-- The position of a value within the range, from zero to one (the engine's
    `Variable.normalize`). -/
def normalize (v : Variable α) (x : α) : α := (x - v.min) / (v.max - v.min)

/-- The value at a position within the range (the engine's
    `Variable.denormalize`). -/
def denormalize (v : Variable α) (n : α) : α := v.min + n * (v.max - v.min)

/-- A truth value that drifted just past zero or one, moved back (within the
    engine's `Variable.truth_for`). -/
def settleTruth (y : α) : α :=
  if 1 < y ∧ y - 1 < truthDrift then 1
  else if y < 0 ∧ -truthDrift < y then 0
  else y

/-- How true it is that a value has a membership (the engine's
    `Variable.truth_for`). A sentinel that does not substitute is returned
    untouched. -/
def truth (v : Variable α) (value : Value α) (membership : String) : Result α (Value α) := do
  let c ← v.curve membership
  match value.resolve with
  | none => return value
  | some x =>
    let y ← c.evaluate (v.normalize x)
    return .number (settleTruth y)

theorem truth_of_passing {v : Variable α} {value : Value α} {membership : String} {c : Curve α}
    (hc : v.curve membership = .ok c) (hv : value.resolve = none) :
    v.truth value membership = .ok value := by
  simp [truth, hc, hv, bind, Except.bind, pure, Except.pure]

/-- Whether two variables have one name, equal ranges and the same memberships in
    any order (the engine's `Variable.eq`). -/
def same (v w : Variable α) : Bool :=
  v.name == w.name && v.min == w.min && v.max == w.max && v.curves.agrees Curve.same w.curves

end Variable

end FuzzyInference
