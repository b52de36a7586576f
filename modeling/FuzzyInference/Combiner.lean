import FuzzyInference.Formula.Evaluate
import FuzzyInference.Formula.Parse
import FuzzyInference.Implication.Basic

/-!
# Combiners

A combiner evaluates a formula over named operands. Operands that are
implications are defuzzified first, each by its own method or the default one;
an implication without area counts as zero.

Results:

* `evaluate_missing`: an expected name without an operand is reported before
  anything is computed.
-/

namespace FuzzyInference

/-- What a combiner is given under a name (the engine's `Operand`). -/
inductive Operand (α : Type) where
  | implication (i : Implication α)
  | value (v : Value α)

/-- A formula and how its operands are defuzzified (the engine's `Combiner`). -/
structure Combiner (α : Type) where
  expression : String
  formula : Formula α
  /-- Names given in place of the ones that the formula mentions. -/
  givenNames : Option (List String)
  methods : OrderedMap Method
  defaultMethod : Method
  sampleCount : Nat

namespace Combiner

variable {α : Type}

/-- The names that have to be supplied (the engine's `Combiner.expected_names`). -/
def expectedNames (c : Combiner α) : List String := c.givenNames.getD c.formula.names

/-- The method a name is defuzzified by (the engine's `Combiner.method_for`). -/
def methodFor (c : Combiner α) (name : String) : Method :=
  (c.methods.get? name).getD c.defaultMethod

/-- Sets the method a name is defuzzified by (the engine's
    `Combiner.set_method`). -/
def setMethod (c : Combiner α) (name : String) (m : Method) : Combiner α :=
  { c with methods := c.methods.insert name m }

/-- Takes the method of a name away (the engine's `Combiner.clear_method`). -/
def clearMethod (c : Combiner α) (name : String) : Combiner α :=
  { c with methods := c.methods.erase name }

/-- Expects other names than the formula mentions (the engine's
    `Combiner.with_expected_names`). -/
def withExpectedNames (c : Combiner α) (names : List String) : Combiner α :=
  { c with givenNames := some names }

variable [Scalar α]

/-- A combiner of the formula that an expression spells (the engine's
    `Combiner.new`). -/
def make (expression : String) : Result α (Combiner α) :=
  match Formula.parse expression with
  | .ok f => .ok ⟨expression, f, none, .empty, .centroid, defaultSampleCount⟩
  | .error fault => .error (.compile (.ofFault fault))

/-- A combiner with the method and the number of samples of a configuration (the
    engine's `Combiner.configured`). -/
def configured (expression : String) (config : Config α) : Result α (Combiner α) := do
  let c ← make expression
  return { c with defaultMethod := config.method, sampleCount := config.sampleCount }

/-- The value of one operand (within the engine's `Combiner.evaluate`). -/
def settle (c : Combiner α) (name : String) : Operand α → Result α (Value α)
  | .value v => .ok v
  | .implication i => do
    let v ← i.defuzzify (c.methodFor name) c.sampleCount
    return v.getD (.number 0)

/-- The values of all operands (within the engine's `Combiner.evaluate`). -/
def settleAll (c : Combiner α) : List (String × Operand α) → Result α (List (String × Value α))
  | [] => .ok []
  | (name, o) :: rest => do
    let v ← c.settle name o
    let vs ← c.settleAll rest
    return (name, v) :: vs

/-- The value of the formula over operands and extra values; an operand hides an
    extra value of its name (the engine's `Combiner.evaluate`). -/
def evaluate (c : Combiner α) (operands : OrderedMap (Operand α)) (extra : OrderedMap (Value α)) :
    Result α (Value α) :=
  match c.expectedNames.find? fun n => !operands.contains n && !extra.contains n with
  | some n => .error (.missingValue n)
  | none => do
    let settled ← c.settleAll operands.entries
    c.formula.evaluate fun n => (lookup? n settled).or (extra.get? n)

theorem evaluate_missing {c : Combiner α} {operands : OrderedMap (Operand α)}
    {extra : OrderedMap (Value α)} {n : String}
    (h : (c.expectedNames.find? fun n => !operands.contains n && !extra.contains n) = some n) :
    c.evaluate operands extra = .error (.missingValue n) := by
  simp [evaluate, h]

/-- Whether two combiners agree in expression, formula, names and methods (the
    engine's `Combiner.eq`). -/
def same (c d : Combiner α) : Bool :=
  c.expression == d.expression && c.formula.same d.formula && c.givenNames == d.givenNames &&
    c.expectedNames == d.expectedNames && c.methods.agrees (· == ·) d.methods &&
    c.defaultMethod == d.defaultMethod && c.sampleCount == d.sampleCount

end Combiner

end FuzzyInference
