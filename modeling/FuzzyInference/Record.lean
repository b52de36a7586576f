import FuzzyInference.Config.Basic
import FuzzyInference.OrderedMap
import FuzzyInference.Error.Basic

/-!
# Records and outputs

One record of input values by name, and the output values it leads to, in output order. A skipped
output holds the no-data value, and the reason it was skipped is kept.
-/

namespace FuzzyInference

/-! ## Records -/

/-- Named input values (the engine's `Inputs`). -/
structure Record (α : Type) where
  values : OrderedMap (Value α)

namespace Record

variable {α : Type}

/-- The record with no values (the engine's `Inputs.new`). -/
def empty : Record α := ⟨.empty⟩

/-- Sets the value of a name (the engine's `Inputs.add`). -/
def add (r : Record α) (name : String) (v : Value α) : Record α := ⟨r.values.insert name v⟩

/-- Sets the values of names one after the other (the engine's
    `Inputs.from_iter`). -/
def ofList (entries : List (String × Value α)) : Record α := ⟨.ofList entries⟩

/-- The value of a name (the engine's `Inputs.get`). -/
def get? (r : Record α) (name : String) : Option (Value α) := r.values.get? name

/-- The value of a name that has to be there (the engine's `Inputs.require`). -/
def require (r : Record α) (name : String) : Result α (Value α) :=
  match r.get? name with
  | some v => .ok v
  | none => .error (.missingValue name)

/-- The number of values (the engine's `Inputs.len`). -/
def size (r : Record α) : Nat := r.values.size

/-- Whether there are no values (the engine's `Inputs.is_empty`). -/
def isEmpty (r : Record α) : Bool := r.values.isEmpty

/-- Whether there is a value, and all of them are missing data (the engine's
    `Inputs.all_no_data`). -/
def allMissing (r : Record α) : Bool := !r.isEmpty && r.values.values.all Value.isSentinel

/-- Adds a raw reading (the engine's `Inputs.insert_raw`). -/
def addRaw [Scalar α] (r : Record α) (settings : NoDataSettings α) (name : String)
    (raw : α) : Record α :=
  r.add name (settings.read raw)

end Record

/-! ## Outputs -/

/-- Why an output holds the no-data value (the engine's `SkipReason`). -/
inductive SkipReason (α : Type) where
  /-- Every input of the record was missing. -/
  | allInputsMissing
  /-- The output was missing data. -/
  | noData
  | failed (error : Error α)

/-- The wording of a reason (the engine's `SkipReason.fmt`). -/
def SkipReason.text {α : Type} [Scalar α] : SkipReason α → String
  | .allInputsMissing => "no input data"
  | .noData => "no data"
  | .failed e => e.message

/-- Output values and the reasons of the skipped ones (the engine's `Outputs`). -/
structure Outputs (α : Type) where
  values : OrderedMap α
  skipped : OrderedMap (SkipReason α)

namespace Outputs

variable {α : Type}

/-- No outputs (the engine's `Outputs.new`). -/
def empty : Outputs α := ⟨.empty, .empty⟩

/-- Sets the value of an output (the engine's `Outputs.insert`). -/
def insert (o : Outputs α) (name : String) (v : α) : Outputs α :=
  { o with values := o.values.insert name v }

/-- Gives an output the no-data value and keeps the reason it is skipped for (the
    engine's `Outputs.skip`). -/
def skip (o : Outputs α) (name : String) (noData : α) (reason : SkipReason α) : Outputs α :=
  ⟨o.values.insert name noData, o.skipped.insert name reason⟩

/-- The value of an output (the engine's `Outputs.get`). -/
def get? (o : Outputs α) (name : String) : Option α := o.values.get? name

/-- Whether an output was skipped (the engine's `Outputs.is_skipped`). -/
def isSkipped (o : Outputs α) (name : String) : Bool := o.skipped.contains name

/-- The number of outputs (the engine's `Outputs.len`). -/
def size (o : Outputs α) : Nat := o.values.size

/-- Whether there are no outputs (the engine's `Outputs.is_empty`). -/
def isEmpty (o : Outputs α) : Bool := o.values.isEmpty

end Outputs

end FuzzyInference
