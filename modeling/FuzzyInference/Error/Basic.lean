import FuzzyInference.Error.Compile
import FuzzyInference.Geometry.Point

/-!
# Errors

Every way a computation of this library can fail, as causes. `Error.message` is
the only place where they are put into words.
-/

namespace FuzzyInference

/-- Why a segment is refused (the engine's `FuzzyError.InvalidSegment`). -/
inductive SegmentFault (α : Type) where
  | zeroLength (first second : Point α)
  | leftMeetsRight (point : Point α)
  | rightMeetsLeft (point : Point α)
  | outside (start stop lo hi : α)
  | emptyPart
  | uncovered (x : α)

/-- Why an argument is refused (the engine's `FuzzyError.Argument`). -/
inductive ArgumentFault (α : Type) where
  | tooFewCurves
  | tooFewSamples
  | noSamples
  | rangeNotIncreasing (name : String) (min max : α)
  | tooFewOperands (keyword : String)
  | gammaMissing
  | gammaTooFewOperands
  | gammaOutOfRange
  | tooFewArguments (function : String)
  | gammaCallEmpty
  | argumentCount (function : String) (given : Nat)

/-- Which operation a curve does not have (the engine's
    `FuzzyError.Unsupported`). -/
inductive UnsupportedFault where
  | template (kind : String)
  | segments (kind : String)

/-- Why a computation has no result (the engine's `FuzzyError.Computation`). -/
inductive ComputationFault where
  | bisectorNotFound
  | noDataSampled

/-- Why arithmetic has no result (the engine's `FuzzyError.Arithmetic`). -/
inductive ArithmeticFault where
  | addition
  | subtraction
  | multiplication
  | divisionByZero
  | division
  | floorDivisionByZero
  | floorDivision
  | moduloByZero
  | modulo
  | zeroToNegativePower
  | fractionalPowerOfNegative
  | powerRange
  | mathDomain
  | mathRange
  | wholeOfNonFinite
  | roundDigits
  | roundRange
  | emptySelection
  | notUnary

/-- Why a configuration is refused (the engine's `FuzzyError.Config`). -/
inductive ConfigFault where
  | sampleCount (count : Nat)
  | invalidSetting (key value : String)
  | text

/-- Every way a computation can fail (the engine's `FuzzyError`). -/
inductive Error (α : Type) where
  | compile (error : CompileError)
  | rulesNotCompiled (errors : List CompileError)
  | missingValue (name : String)
  | unknownInput (name : String)
  | unknownMembership (name membership : String)
  | rangeMismatch (leftMin leftMax rightMin rightMax : α)
  | argument (fault : ArgumentFault α)
  | outOfDomain (value lo hi : α)
  | segment (fault : SegmentFault α)
  | unsupported (fault : UnsupportedFault)
  | noRules
  | computation (fault : ComputationFault)
  | arithmetic (fault : ArithmeticFault)
  | unknownMethod (name : String)
  | document
  | config (fault : ConfigFault)

/-- The result of a computation that can fail (the engine's `Result`). -/
abbrev Result (α β : Type) : Type := Except (Error α) β

variable {α : Type} [Scalar α]

/-- A closed interval in words. -/
def intervalText (lo hi : α) : String := "[" ++ Scalar.text lo ++ ", " ++ Scalar.text hi ++ "]"

/-- The wording of a segment fault, as the operations on segments give it. -/
def SegmentFault.message : SegmentFault α → String
  | .zeroLength p q => "endpoints " ++ p.text ++ " and " ++ q.text ++ " form a zero-length segment"
  | .leftMeetsRight p => "left point " ++ p.text ++ " equals right point"
  | .rightMeetsLeft p => "right point " ++ p.text ++ " equals left point"
  | .outside a b lo hi => intervalText a b ++ " is not inside " ++ intervalText lo hi
  | .emptyPart => "empty subsegment"
  | .uncovered x => "no segment covers x = " ++ Scalar.text x

/-- The wording of an argument fault, as the refusing operations give it. -/
def ArgumentFault.message : ArgumentFault α → String
  | .tooFewCurves => "At least two curves must be requested"
  | .tooFewSamples => "a lookup curve needs at least two samples"
  | .noSamples => "sample count must be positive"
  | .rangeNotIncreasing name lo hi =>
    "\"" ++ name ++ "\" needs a range with min < max, got " ++ intervalText lo hi
  | .tooFewOperands keyword => keyword ++ " requires at least 2 arguments"
  | .gammaMissing => "GAMMA requires a gamma value"
  | .gammaTooFewOperands => "GAMMA requires at least 2 arguments after the gamma value."
  | .gammaOutOfRange => "Gamma value must be in the range [0,1]"
  | .tooFewArguments function => function ++ "() requires at least 2 arguments"
  | .gammaCallEmpty => "gamma() requires a gamma value"
  | .argumentCount function given =>
    function ++ "() called with " ++ toString given ++ " arguments"

/-- The wording of an operation that a curve does not have. -/
def UnsupportedFault.message : UnsupportedFault → String
  | .template kind => kind ++ " curves do not support construct_multiple"
  | .segments kind => kind ++ " curves have no segments"

/-- The wording of a computation without a result. -/
def ComputationFault.message : ComputationFault → String
  | .bisectorNotFound => "Bisect not found. Calculation failed."
  | .noDataSampled => "cannot sample a no-data implication"

/-- The wording of an arithmetic fault, as the evaluation of formulas gives it. -/
def ArithmeticFault.message : ArithmeticFault → String
  | .addition => "invalid addition"
  | .subtraction => "invalid subtraction"
  | .multiplication => "invalid multiplication"
  | .divisionByZero => "float division by zero"
  | .division => "invalid division"
  | .floorDivisionByZero => "float floor division by zero"
  | .floorDivision => "invalid floor division"
  | .moduloByZero => "float modulo by zero"
  | .modulo => "invalid modulo"
  | .zeroToNegativePower => "0.0 cannot be raised to a negative power"
  | .fractionalPowerOfNegative => "negative number cannot be raised to a fractional power"
  | .powerRange => "power result out of range"
  | .mathDomain => "math domain error"
  | .mathRange => "math range error"
  | .wholeOfNonFinite => "cannot convert a non-finite float to an integer"
  | .roundDigits => "round() digits must be an integer"
  | .roundRange => "round() result out of range"
  | .emptySelection => "empty selection"
  | .notUnary => "not a single argument function"

/-- The wording of a configuration fault. The fault of a malformed text has none of
    its own. -/
def ConfigFault.message : ConfigFault → String
  | .sampleCount n => "sample_count must be at least 2, got " ++ toString n
  | .invalidSetting key value => key ++ " has an invalid value \"" ++ value ++ "\""
  | .text => "malformed text"

/-- The wording of an error (the engine's `FuzzyError.fmt`). -/
def Error.message : Error α → String
  | .compile e => e.message
  | .rulesNotCompiled errors => "rules failed to compile:\n" ++ CompileError.messages errors
  | .missingValue name => "missing value for \"" ++ name ++ "\""
  | .unknownInput name => "unknown input \"" ++ name ++ "\""
  | .unknownMembership name membership =>
    "\"" ++ name ++ "\" has no membership named \"" ++ membership ++ "\""
  | .rangeMismatch a b c d =>
    "implication ranges differ: " ++ intervalText a b ++ " vs " ++ intervalText c d
  | .argument f => f.message
  | .outOfDomain x lo hi => "value " ++ Scalar.text x ++ " outside of " ++ intervalText lo hi
  | .segment f => "invalid segment: " ++ f.message
  | .unsupported f => f.message
  | .noRules => "No rules to evaluate."
  | .computation f => f.message
  | .arithmetic f => "arithmetic error: " ++ f.message
  | .unknownMethod name => "unknown defuzzification method \"" ++ name ++ "\""
  | .document => "document error"
  | .config f => "configuration error: " ++ f.message

end FuzzyInference
