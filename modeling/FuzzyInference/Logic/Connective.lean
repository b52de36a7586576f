import FuzzyInference.Error.Basic
import FuzzyInference.Value

/-!
# Connectives

The operators of rule conditions on truth values with missing data:

* `AND` and `OR` choose the smaller and the larger truth value, and `XOR` is
  built from them;
* `NOT` is the complement to one;
* `PRODUCT` multiplies, and `SUM` is the probabilistic sum
  `1 - (1 - a₁) · … · (1 - aₙ)`;
* `GAMMA` is `SUM ^ gamma · PRODUCT ^ (1 - gamma)`.

Results:

* `AggregateOp.apply_eq_ok`: an aggregation has a result from two operands on.
-/

namespace FuzzyInference

variable {α : Type} [Scalar α]

/-- The complement of a truth value (the engine's `not_op`). -/
def negate (v : Value α) : Value α := v.map fun x => 1 - x

/-- The connectives of two truth values (the engine's `LogicOp`). -/
inductive LogicOp where
  | and
  | or
  | xor
  deriving Repr, DecidableEq

namespace LogicOp

/-- The smaller of two truth values (within the engine's `LogicOp.call`). -/
def both (u v : Value α) : Value α := (Value.minOf [u, v]).getD u

/-- The larger of two truth values (within the engine's `LogicOp.call`). -/
def either (u v : Value α) : Value α := (Value.maxOf [u, v]).getD u

/-- The truth value of two connected ones (the engine's `LogicOp.call`). -/
def apply (op : LogicOp) (u v : Value α) : Value α :=
  match op with
  | .and => both u v
  | .or => either u v
  | .xor => both (negate (both u v)) (either u v)

/-- The word for a connective (the engine's `LogicOp.keyword`). -/
def keyword : LogicOp → String
  | .and => "AND"
  | .or => "OR"
  | .xor => "XOR"

/-- The connective a word names, in any letter case (within the engine's
    `fold_level`). -/
def ofKeyword? (word : String) : Option LogicOp :=
  match word.toLower with
  | "and" => some .and
  | "or" => some .or
  | "xor" => some .xor
  | _ => none

end LogicOp

/-! ## Aggregations -/

/-- The aggregations of two or more truth values (the engine's `AggregateOp`). -/
inductive AggregateOp where
  | product
  | sum
  deriving Repr, DecidableEq

namespace AggregateOp

/-- The word for an aggregation (the engine's `AggregateOp.keyword`). -/
def keyword : AggregateOp → String
  | .product => "PRODUCT"
  | .sum => "SUM"

/-- The product of values, starting from one (the engine's `product`). -/
def productOf (vs : List (Value α)) : Value α := vs.foldl (· * ·) (.number 1)

/-- The probabilistic sum of values (within the engine's `AggregateOp.call`). -/
def sumOf (vs : List (Value α)) : Value α :=
  .number 1 - productOf (vs.map fun v => .number 1 - v)

/-- The aggregation of at least two values (the engine's `AggregateOp.call`). -/
def apply (op : AggregateOp) (vs : List (Value α)) : Result α (Value α) :=
  if vs.length < 2 then .error (.argument (.tooFewOperands op.keyword))
  else match op with
    | .product => .ok (productOf vs)
    | .sum => .ok (sumOf vs)

theorem apply_eq_ok (op : AggregateOp) {vs : List (Value α)} (h : 2 ≤ vs.length) :
    ∃ v, op.apply vs = .ok v := by
  have : ¬ vs.length < 2 := by omega
  cases op <;> simp [apply, this]

end AggregateOp

/-- The mean of `SUM` and `PRODUCT` weighted by `gamma` (the engine's `gamma_op`). A
    missing gamma makes the result missing. -/
def gammaMean (gamma : Value α) (vs : List (Value α)) : Result α (Value α) :=
  match gamma.resolve with
  | none => .ok gamma
  | some g =>
    if vs.length < 2 then .error (.argument .gammaTooFewOperands)
    else if 0 ≤ g ∧ g ≤ 1 then do
      let sum ← AggregateOp.sum.apply vs
      let product ← AggregateOp.product.apply vs
      return sum.pow (.number g) * product.pow (.number (1 - g))
    else .error (.argument .gammaOutOfRange)

end FuzzyInference
