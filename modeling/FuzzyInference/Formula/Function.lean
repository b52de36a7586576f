import FuzzyInference.Scalar.Basic

/-!
# Functions and constants of formulas

The names that formulas reserve: functions, each with the number of arguments it
takes, and constants.

Results:

* `ofName?_name`: every function is found by its name.
-/

namespace FuzzyInference

/-- A function that formulas may call (the engine's `Builtin`). -/
inductive Function where
  | abs | round | pow | float | int
  | acos | acosh | asin | asinh | atan | atan2 | atanh
  | ceil | degrees | exp | floor | log | log2 | log10
  | radians | sin | sinh | sqrt | tan | tanh
  | max | min | sum | product | gamma | checkNoData
  deriving Repr, DecidableEq

namespace Function

/-- The name of a function (the engine's `Builtin.name`). -/
def name : Function → String
  | abs => "abs" | round => "round" | pow => "pow" | float => "float" | int => "int"
  | acos => "acos" | acosh => "acosh" | asin => "asin" | asinh => "asinh"
  | atan => "atan" | atan2 => "atan2" | atanh => "atanh"
  | ceil => "ceil" | degrees => "degrees" | exp => "exp" | floor => "floor"
  | log => "log" | log2 => "log2" | log10 => "log10"
  | radians => "radians" | sin => "sin" | sinh => "sinh" | sqrt => "sqrt"
  | tan => "tan" | tanh => "tanh"
  | max => "max" | min => "min" | sum => "sum" | product => "product" | gamma => "gamma"
  | checkNoData => "checknodata"

/-- Every function (the engine's `BUILTINS`). -/
def all : List Function :=
  [abs, round, pow, float, int, acos, acosh, asin, asinh, atan, atan2, atanh, ceil, degrees,
    exp, floor, log, log2, log10, radians, sin, sinh, sqrt, tan, tanh, max, min, sum, product,
    gamma, checkNoData]

/-- The function of a name (the engine's `Builtin.from_name`). -/
def ofName? (s : String) : Option Function := all.find? fun f => decide (f.name = s)

theorem ofName?_name (f : Function) : ofName? f.name = some f := by cases f <;> decide

/-- How many arguments a function takes (within the engine's `Builtin.arity`). The
    upper end is missing when there is none. -/
structure Arity where
  least : Nat
  most : Option Nat
  deriving DecidableEq

/-- The number of arguments of a function in a formula (the engine's
    `Builtin.arity`). The aggregations check their own when they are called. -/
def arity : Function → Arity
  | round | log => ⟨1, some 2⟩
  | pow | atan2 => ⟨2, some 2⟩
  | checkNoData => ⟨2, some 3⟩
  | max | min | sum | product | gamma => ⟨0, none⟩
  | _ => ⟨1, some 1⟩

namespace Arity

/-- Whether an arity admits a number of arguments (within the engine's
    `Parser.parse_primary`). -/
def admits (a : Arity) (n : Nat) : Bool :=
  decide (a.least ≤ n) && a.most.all fun m => decide (n ≤ m)

/-- The counts an arity admits, in words (within the engine's
    `Parser.parse_primary`). -/
def text (a : Arity) : String :=
  match a.most with
  | some m => if m = a.least then toString m else toString a.least ++ " to " ++ toString m
  | none => "at least " ++ toString a.least

end Arity

end Function

/-- The value of a constant that formulas may name (the engine's `CONSTANTS`). -/
def constant? {α : Type} [Scalar α] : String → Option α
  | "e" => some Scalar.e
  | "pi" => some Scalar.pi
  | "inf" => some Scalar.infinity
  | _ => none

/-- The names of the constants (the engine's `CONSTANTS`). -/
def constantNames : List String := ["e", "pi", "inf"]

/-- Whether a name is a function or a constant, and not one that the caller supplies
    (the engine's `is_builtin_name`). -/
def isBuiltinName (name : String) : Bool :=
  (Function.ofName? name).isSome || constantNames.contains name

end FuzzyInference
