import FuzzyInference.Formula.Basic
import FuzzyInference.Logic.Connective

/-!
# Evaluating formulas

Arithmetic with missing data, and without silent failures: a result that is
undefined, or infinite though no operand is, is an error. Division and remainder
take the sign of the divisor.

Results:

* `checked_eq_ok`: a checked result is never undefined.
-/

namespace FuzzyInference

variable {α : Type} [Scalar α]

/-- A result that has to be defined, and finite if all operands are (the engine's
    `checked`). -/
def checked (fault : ArithmeticFault) (operands : List α) (x : α) : Result α α :=
  if Scalar.isNaN x || (Scalar.isInfinite x && operands.all Scalar.isFinite) then
    .error (.arithmetic fault)
  else .ok x

theorem checked_eq_ok {fault : ArithmeticFault} {operands : List α} {x y : α}
    (h : checked fault operands x = .ok y) : x = y ∧ Scalar.isNaN y = false := by
  unfold checked at h
  split at h
  · exact nomatch h
  · rename_i hc
    cases h
    simp_all

namespace Operator

/-- The remainder of division, with the sign of the divisor (within the engine's
    `binary`). -/
def remainderOf (a b : α) : α :=
  let r := Scalar.remainder a b
  if r == 0 then r
  else if decide (r < 0) = decide (b < 0) then r else r + b

/-- A number raised to a power (the engine's `power`). -/
def powerOf (a b : α) : Result α α :=
  if a == 0 && decide (b < 0) then .error (.arithmetic .zeroToNegativePower)
  else if decide (a < 0) && !(Scalar.fraction b == 0) && Scalar.isFinite b then
    .error (.arithmetic .fractionalPowerOfNegative)
  else checked .powerRange [a, b] (Scalar.pow a b)

/-- Applies an operation to two numbers (the engine's `binary`). -/
def apply (op : Operator) (a b : α) : Result α α :=
  match op with
  | .add => checked .addition [a, b] (a + b)
  | .subtract => checked .subtraction [a, b] (a - b)
  | .multiply => checked .multiplication [a, b] (a * b)
  | .divide =>
    if b == 0 then .error (.arithmetic .divisionByZero) else checked .division [a, b] (a / b)
  | .floorDivide =>
    if b == 0 then .error (.arithmetic .floorDivisionByZero)
    else checked .floorDivision [a, b] (Scalar.floor (a / b))
  | .remainder =>
    if b == 0 then .error (.arithmetic .moduloByZero)
    else checked .modulo [a, b] (remainderOf a b)
  | .power => powerOf a b

end Operator

namespace Function

/-- A number in the domain of a function (the engine's `domain`). -/
def domain (x : α) (ok : Bool) : Result α α :=
  if ok then .ok x else .error (.arithmetic .mathDomain)

/-- The number that a whole number is made of; there is none for what is not finite
    (within the engine's `unary`). -/
def whole (x : α) (rounded : α) : Result α α :=
  if Scalar.isFinite x then .ok rounded else .error (.arithmetic .wholeOfNonFinite)

/-- The value of a function of one number, before it is checked (within the engine's
    `unary`). -/
def unaryValue (f : Function) (x : α) : Result α α :=
  match f with
  | .abs => .ok (Scalar.abs x)
  | .round => .ok (Scalar.roundEven x)
  | .float => .ok x
  | .int => whole x (Scalar.truncate x)
  | .ceil => whole x (Scalar.ceil x)
  | .floor => whole x (Scalar.floor x)
  | .acos => Scalar.acos <$> domain x (decide (-1 ≤ x) && decide (x ≤ 1))
  | .asin => Scalar.asin <$> domain x (decide (-1 ≤ x) && decide (x ≤ 1))
  | .acosh => Scalar.acosh <$> domain x (decide (1 ≤ x))
  | .atanh => Scalar.atanh <$> domain x (decide (-1 < x) && decide (x < 1))
  | .asinh => .ok (Scalar.asinh x)
  | .atan => .ok (Scalar.atan x)
  | .degrees => .ok (Scalar.degrees x)
  | .radians => .ok (Scalar.radians x)
  | .exp => .ok (Scalar.exp x)
  | .log => Scalar.ln <$> domain x (decide (0 < x))
  | .log2 => Scalar.log2 <$> domain x (decide (0 < x))
  | .log10 => Scalar.log10 <$> domain x (decide (0 < x))
  | .sin => Scalar.sin <$> domain x (Scalar.isFinite x)
  | .sinh => .ok (Scalar.sinh x)
  | .sqrt => Scalar.sqrt <$> domain x (decide (0 ≤ x))
  | .tan => Scalar.tan <$> domain x (Scalar.isFinite x)
  | .tanh => .ok (Scalar.tanh x)
  | _ => .error (.arithmetic .notUnary)

/-- A function of one number (the engine's `unary`). -/
def unary (f : Function) (x : α) : Result α α := do
  checked .mathRange [x] (← f.unaryValue x)

/-- A number rounded to decimal places, a half going to the even neighbour (within
    the engine's `call`). -/
def roundTo (x places : α) : Result α α :=
  if Scalar.fraction places == 0 then
    let scale := Scalar.powInt (10 : α) (Scalar.toInt places)
    checked .roundRange [x] (Scalar.roundEven (x * scale) / scale)
  else .error (.arithmetic .roundDigits)

/-- The logarithm of a number to a base (within the engine's `call`). -/
def logTo (x base : α) : Result α α :=
  if x ≤ 0 ∨ base ≤ 0 ∨ (base == 1) = true then .error (.arithmetic .mathDomain)
  else checked .mathRange [x, base] (Scalar.ln x / Scalar.ln base)

/-- The choice of a list of at least two values (within the engine's `call`). -/
def select (f : Function) (choose : List (Value α) → Option (Value α)) (vs : List (Value α)) :
    Result α (Value α) :=
  if vs.length < 2 then .error (.argument (.tooFewArguments f.name))
  else match choose vs with
    | some v => .ok v
    | none => .error (.arithmetic .emptySelection)

/-- The call of a function with numbers of arguments that only some functions take
    (within the engine's `call`). -/
def applyFew (f : Function) (vs : List (Value α)) : Result α (Value α) :=
  match f, vs with
  | .round, [x, places] => Value.binaryM roundTo x places
  | .log, [x, base] => Value.binaryM logTo x base
  | .pow, [x, y] => Value.binaryM Operator.powerOf x y
  | .atan2, [y, x] => .ok (Value.binary Scalar.atan2 y x)
  | f, [x] => Value.mapM (unary f) x
  | f, vs => .error (.argument (.argumentCount f.name vs.length))

/-- The call of a function (the engine's `call`). -/
def apply (f : Function) (vs : List (Value α)) : Result α (Value α) :=
  match f with
  | .max => select .max Value.maxOf vs
  | .min => select .min Value.minOf vs
  | .sum => AggregateOp.sum.apply vs
  | .product => AggregateOp.product.apply vs
  | .gamma =>
    match vs with
    | [] => .error (.argument .gammaCallEmpty)
    | weight :: operands => gammaMean weight operands
  | .checkNoData =>
    match vs with
    | value :: ifMissing :: rest => .ok (if value.isSentinel then ifMissing else rest.headD value)
    | vs => applyFew .checkNoData vs
  | f => applyFew f vs

end Function

namespace Formula

/-- Applies a sign (within the engine's `evaluate`). -/
def signed (s : Sign) (v : Value α) : Value α :=
  match s with
  | .minus => -v
  | .plus => v

mutual

/-- The value of a formula, given the values of its names (the engine's
    `evaluate`). -/
def evaluate (env : String → Option (Value α)) : Formula α → Result α (Value α)
  | .number value => .ok (.number value)
  | .name n =>
    match env n with
    | some v => .ok v
    | none => .error (.missingValue n)
  | .sign s f => do return signed s (← evaluate env f)
  | .binary op l r => do
    let u ← evaluate env l
    let v ← evaluate env r
    Value.binaryM op.apply u v
  | .call f args => do f.apply (← evaluateAll env args)

/-- The values of several formulas, up to the first that has none (within the
    engine's `evaluate`). -/
def evaluateAll (env : String → Option (Value α)) : List (Formula α) → Result α (List (Value α))
  | [] => .ok []
  | f :: fs => do
    let v ← evaluate env f
    let vs ← evaluateAll env fs
    return v :: vs

end

end Formula

end FuzzyInference
