import FuzzyInference.Scalar.Basic

/-!
# Values with missing data

A value is a number or a sentinel for missing data. A sentinel flows through
every computation, and its settings say how:

* an ignoring sentinel gives way to the other operand;
* a substituting sentinel stands for its substitute;
* any other sentinel propagates: it is the result.

Ignoring wins over substituting.

Results:

* `binary_propagating`: missing data that is neither ignored nor substituted passes on.
-/

namespace FuzzyInference

/-- A sentinel for missing data (the engine's `NoData`). -/
structure Sentinel (α : Type) where
  ignore : Bool
  substitute : Option α
  deriving Repr, DecidableEq, Inhabited

namespace Sentinel

variable {α : Type}

/-- The sentinel that propagates (the engine's `NoData.PROPAGATE`). -/
def propagating : Sentinel α := ⟨false, none⟩

/-- The sentinel that gives way (the engine's `NoData.IGNORE`). -/
def ignoring : Sentinel α := ⟨true, none⟩

/-- The sentinel that stands for a number (the engine's `NoData.substitute`). -/
def substituting (k : α) : Sentinel α := ⟨false, some k⟩

/-- The number a sentinel stands for (the engine's `NoData.substitution`). -/
def substitution (s : Sentinel α) : Option α := if s.ignore then none else s.substitute

/-- Whether a sentinel makes every operation on it missing (the engine's
    `NoData.propagates`). -/
def propagates (s : Sentinel α) : Bool := !s.ignore && s.substitute.isNone

/-- Whether two sentinels have the same settings (the engine's `NoData.eq`). -/
def same [BEq α] (s t : Sentinel α) : Bool :=
  s.ignore == t.ignore &&
    match s.substitute, t.substitute with
    | some a, some b => a == b
    | none, none => true
    | _, _ => false

/-- The text of a sentinel (the engine's `NoData.fmt`). -/
def text [Scalar α] (s : Sentinel α) : String :=
  if s.ignore then "ignored"
  else match s.substitute with
    | none => "no data"
    | some k => Scalar.text k

end Sentinel

/-- A number or a sentinel (the engine's `Value`). -/
inductive Value (α : Type) where
  | number (v : α)
  | sentinel (s : Sentinel α)
  deriving Repr, DecidableEq

namespace Value

variable {α : Type}

/-- The number that a value is (the engine's `Value.as_number`). -/
def number? : Value α → Option α
  | number v => some v
  | sentinel _ => none

/-- Whether a value is missing data (the engine's `Value.is_no_data`). -/
def isSentinel : Value α → Bool
  | number _ => false
  | sentinel _ => true

/-- The number a value stands for (the engine's `Value.resolve`). -/
def resolve : Value α → Option α
  | number v => some v
  | sentinel s => s.substitution

/-- Whether two values are equal numbers or sentinels with the same settings (the
    engine's `Value.eq`). -/
def same [BEq α] : Value α → Value α → Bool
  | number a, number b => a == b
  | sentinel s, sentinel t => s.same t
  | _, _ => false

/-- The text of a value (the engine's `Value.fmt`). -/
def text [Scalar α] : Value α → String
  | number v => Scalar.text v
  | sentinel s => s.text

/-! ## Operations on numbers, lifted -/

/-- Applies an operation to a number and a value (within the engine's
    `Value.try_binary`). -/
def withRight {m : Type → Type} [Pure m] [Functor m] (op : α → α → m α) (a : α) :
    Value α → m (Value α)
  | number b => number <$> op a b
  | sentinel s =>
    if s.ignore then pure (number a)
    else match s.substitute with
      | some k => number <$> op a k
      | none => pure (sentinel s)

/-- Applies an operation to two values (the engine's `Value.try_binary`). When both
    are sentinels the left one decides. -/
def binaryM {m : Type → Type} [Pure m] [Functor m] (op : α → α → m α) (u v : Value α) :
    m (Value α) :=
  match u with
  | number a => withRight op a v
  | sentinel s =>
    if s.ignore then pure v
    else match s.substitute with
      | some k => withRight op k v
      | none => pure u

/-- Applies an operation that cannot fail to two values (the engine's
    `Value.binary`). -/
def binary (op : α → α → α) (u v : Value α) : Value α :=
  @binaryM α Id Applicative.toPure Applicative.toFunctor op u v

/-- Applies an operation to the number a value stands for; any other sentinel passes
    through (the engine's `Value.try_map`). -/
def mapM {m : Type → Type} [Pure m] [Functor m] (op : α → m α) (v : Value α) : m (Value α) :=
  match v.resolve with
  | some a => number <$> op a
  | none => pure v

/-- Applies an operation that cannot fail to the number a value stands for (the
    engine's `Value.map`). -/
def map (op : α → α) (v : Value α) : Value α :=
  @mapM α Id Applicative.toPure Applicative.toFunctor op v

@[simp] theorem binary_propagating (op : α → α → α) (v : Value α) :
    binary op (sentinel .propagating) v = sentinel .propagating := rfl

variable [Scalar α]

/-- Addition of values (the engine's `Value.add`). -/
instance : Add (Value α) := ⟨binary (· + ·)⟩

/-- Subtraction of values (the engine's `Value.sub`). -/
instance : Sub (Value α) := ⟨binary (· - ·)⟩

/-- Multiplication of values (the engine's `Value.mul`). -/
instance : Mul (Value α) := ⟨binary (· * ·)⟩

/-- Division of values (the engine's `Value.div`). -/
instance : Div (Value α) := ⟨binary (· / ·)⟩

/-- The remainder of a division of values (the engine's `Value.rem`). -/
instance : Mod (Value α) := ⟨binary Scalar.remainder⟩

/-- The negative of a value (the engine's `Value.neg`). -/
instance : Neg (Value α) := ⟨map fun a => -a⟩

/-- A value raised to the power of another one (the engine's `Value.pow`). -/
def pow (u v : Value α) : Value α := binary Scalar.pow u v

/-- The size of a value without its sign (the engine's `Value.abs`). -/
def abs (v : Value α) : Value α := map Scalar.abs v

/-! ## Selection -/

/-- The number a value competes with for the minimum (the engine's
    `Value.key_for_min`). A propagating sentinel comes before all numbers, an
    ignoring one behind them. -/
def minKey : Value α → α
  | number v => v
  | sentinel s =>
    if s.ignore then Scalar.infinity
    else match s.substitute with
      | none => -Scalar.infinity
      | some k => k

/-- The number a value competes with for the maximum (the engine's
    `Value.key_for_max`). -/
def maxKey : Value α → α
  | number v => v
  | sentinel s =>
    if s.ignore then -Scalar.infinity
    else match s.substitute with
      | none => Scalar.infinity
      | some k => k

/-- The number a value stands for, or the value itself (within the engine's
    `select`). -/
def settle (v : Value α) : Value α :=
  match v.resolve with
  | some a => number a
  | none => v

/-- The best value of a list by its key; of equal keys the first one's (the engine's
    `select`). -/
def best (key : Value α → α) (better : α → α → Bool) : Value α → List (Value α) → Value α
  | champion, [] => champion
  | champion, v :: vs => best key better (if better (key v) (key champion) then v else champion) vs

/-- The smallest of a list of values, settled (the engine's `Value.min_of`). -/
def minOf : List (Value α) → Option (Value α)
  | [] => none
  | v :: vs => some (best minKey (fun a b => decide (a < b)) v vs).settle

/-- The largest of a list of values, settled (the engine's `Value.max_of`). -/
def maxOf : List (Value α) → Option (Value α)
  | [] => none
  | v :: vs => some (best maxKey (fun a b => decide (b < a)) v vs).settle

end Value

end FuzzyInference
