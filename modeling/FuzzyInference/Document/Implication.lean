import FuzzyInference.Document.Form
import FuzzyInference.Value
import FuzzyInference.Document.Curve
import FuzzyInference.Implication.Basic

/-!
# Documents of values and implications

A number is written as a number, and a sentinel as an object with its settings. The substitute is
left out when there is none.

An implication is written with its range and its clipped curves. The sentinel of missing data is
left out when there is none. Implications are not read back.

Results:

* `Value.ofDocument?_number`: a number is read back.
-/

namespace FuzzyInference

/-! ## Values -/

variable {α : Type} [Scalar α]

namespace Sentinel

/-- The document of a sentinel. -/
def toDocument (s : Sentinel α) : Json α :=
  .object (("ignore", .bool s.ignore) ::
    match s.substitute with
    | some k => [("substitute", Json.ofScalar k)]
    | none => [])

/-- Reads a sentinel, which propagates unless it says otherwise. -/
def ofDocument? (j : Json α) : Option (Sentinel α) :=
  match j.fields? ["ignore", "substitute"] with
  | some [ignore, substitute] => do
    return ⟨← Json.withDefault false Json.toBool? ignore, ← Json.optional Json.toScalar? substitute⟩
  | _ => none

end Sentinel

namespace Value

/-- The document of a value. -/
def toDocument : Value α → Json α
  | .number v => Json.ofScalar v
  | .sentinel s => s.toDocument

/-- A value is read as a number if it can be, and as a sentinel otherwise. -/
def ofDocument? (j : Json α) : Option (Value α) :=
  if j.readable then (j.toScalar?.map number).or ((Sentinel.ofDocument? j).map sentinel) else none

theorem ofDocument?_number (v : α) (h : Scalar.isFinite v = true) :
    ofDocument? (number v).toDocument = some (number v) := by
  simp [ofDocument?, toDocument, Json.ofScalar, h, Json.readable, Json.toScalar?]

end Value

/-! ## Implications -/

/-- The document of a clipped curve. -/
def Clipped.toDocument (t : Clipped α) : Json α :=
  .object [("curve", t.curve.toDocument), ("clip", .ofScalar t.clip)]

namespace Implication

/-- The document of an implication. -/
def toDocument (i : Implication α) : Json α :=
  .object ([("min", .ofScalar i.min), ("max", .ofScalar i.max),
    ("terms", .array (i.terms.map Clipped.toDocument))]
    ++ match i.noData with
      | some s => [("no_data", s.toDocument)]
      | none => [])

end Implication

end FuzzyInference
