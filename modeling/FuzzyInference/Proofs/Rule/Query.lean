import FuzzyInference.Proofs.Curve.Totality
import FuzzyInference.Rule.Expr

/-!
# Queries

A query looks an input up, asks the record for its value and the input for the
membership, and reads the height of the membership at the value. A sentinel that
stands for no number ends it before the height is read.

Results:

* `queryTruth_eq_ok`: what a query with a truth has found.
* `queryTruth_eq_error`: what a query without one has not.
* `isOfQuery_of_queryTruth`: which errors a query can end in.
-/

namespace FuzzyInference

variable {α : Type}

theorem Record.require_eq_ok {record : Record α} {name : String} {value : Value α} :
    record.require name = .ok value ↔ record.get? name = some value := by
  unfold Record.require
  cases record.get? name <;> simp

theorem Record.require_eq_error {record : Record α} {name : String} {e : Error α} :
    record.require name = .error e ↔ record.get? name = none ∧ e = .missingValue name := by
  unfold Record.require
  cases record.get? name <;> simp [eq_comm]

namespace Variable

variable {v : Variable α} {membership : String}

theorem curve_eq_ok {c : Curve α} :
    v.curve membership = .ok c ↔ v.curves.get? membership = some c := by
  unfold curve
  cases v.curves.get? membership <;> simp

theorem curve_eq_error {e : Error α} :
    v.curve membership = .error e ↔
      v.curves.get? membership = none ∧ e = .unknownMembership v.name membership := by
  unfold curve
  cases v.curves.get? membership <;> simp [eq_comm]

variable [Scalar α] {value : Value α}

theorem truth_eq_ok {u : Value α} :
    v.truth value membership = .ok u ↔ ∃ c, v.curves.get? membership = some c ∧
      (value.resolve = none ∧ u = value ∨
        ∃ x y, value.resolve = some x ∧ c.evaluate (v.normalize x) = .ok y ∧
          u = .number (settleTruth y)) := by
  unfold truth
  rw [bind_eq_ok]
  refine exists_congr fun c => and_congr curve_eq_ok ?_
  cases value.resolve with
  | none => simp [pure, Except.pure, eq_comm]
  | some x => simp [bind_eq_ok, pure, Except.pure, eq_comm (a := u)]

theorem truth_eq_error {e : Error α} :
    v.truth value membership = .error e ↔
      v.curve membership = .error e ∨ ∃ c x, v.curves.get? membership = some c ∧
        value.resolve = some x ∧ c.evaluate (v.normalize x) = .error e := by
  unfold truth
  rw [bind_eq_error]
  refine or_congr_right (exists_congr fun c => ?_)
  rw [curve_eq_ok]
  cases value.resolve with
  | none => simp [pure, Except.pure]
  | some x => simp [bind_eq_error, pure, Except.pure]

end Variable

/-- An error about a name that a query asks for, or about the curve that it
    finds. -/
def Error.IsOfQuery : Error α → Prop
  | .unknownInput _ | .missingValue _ | .unknownMembership .. => True
  | .outOfDomain .. | .segment _ | .argument .tooFewSamples => True
  | _ => False

namespace Expr

variable [Scalar α] {inputs : VariableStore α} {record : Record α} {input membership : String}

theorem queryTruth_eq_ok {u : Value α} :
    queryTruth inputs record input membership = .ok u ↔ ∃ v value, inputs.get? input = some v ∧
      record.get? input = some value ∧ v.truth value membership = .ok u := by
  unfold queryTruth
  cases inputs.get? input with
  | none => simp
  | some v => simp [bind_eq_ok, Record.require_eq_ok]

theorem queryTruth_eq_error {e : Error α} :
    queryTruth inputs record input membership = .error e ↔
      (inputs.get? input = none ∧ e = .unknownInput input) ∨
      ∃ v, inputs.get? input = some v ∧
        ((record.get? input = none ∧ e = .missingValue input) ∨
          ∃ value, record.get? input = some value ∧ v.truth value membership = .error e) := by
  unfold queryTruth
  cases inputs.get? input with
  | none => simp [eq_comm]
  | some v => simp [bind_eq_error, Record.require_eq_ok, Record.require_eq_error]

theorem isOfQuery_of_queryTruth {e : Error α}
    (h : queryTruth inputs record input membership = .error e) : e.IsOfQuery := by
  rcases queryTruth_eq_error.1 h with ⟨-, rfl⟩ | ⟨v, -, ⟨-, rfl⟩ | ⟨value, -, h⟩⟩
  · trivial
  · trivial
  · rcases Variable.truth_eq_error.1 h with h | ⟨c, x, -, -, h⟩
    · rw [(Variable.curve_eq_error.1 h).2]
      trivial
    · rcases Curve.evaluate_eq_error h with ⟨_, _, _, rfl⟩ | ⟨_, rfl⟩ | rfl <;> trivial

end Expr

end FuzzyInference
