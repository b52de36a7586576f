import FuzzyInference.Config.Basic
import FuzzyInference.Decimal.Notation
import FuzzyInference.Scalar.Binary64
import FuzzyInference.Toml.Reader

/-!
# Configuration texts

A configuration is kept as TOML text. Every setting may be left out, and unknown
ones are ignored. The settings of missing data are a table, or an array of their
values in order. A method is given by its name, or by a table with the name as
its only key and nothing in it.
-/

namespace FuzzyInference

variable {α : Type}

namespace Toml

/-- A number; whole numbers are scalars too. -/
def toScalar? [Scalar α] : Toml α → Option α
  | .int n => some (Scalar.ofInt n)
  | .float x => some x
  | _ => none

/-- A whole number that is not negative. -/
def toNat? : Toml α → Option Nat
  | .int n => if 0 ≤ n then some n.toNat else none
  | _ => none

/-- A truth value. -/
def toBool? : Toml α → Option Bool
  | .bool b => some b
  | _ => none

/-- Whether a value holds nothing. -/
def isEmpty : Toml α → Bool
  | .array [] => true
  | .table _ [] => true
  | _ => false

/-- A setting that may be left out. -/
def setting {β : Type} (standard : β) (read? : Toml α → Option β) : Option (Toml α) → Option β
  | some v => read? v
  | none => some standard

end Toml

/-- The method that a name gives, or a table with the name as its only key. -/
def Method.ofToml? : Toml α → Option Method
  | .string s => ofName? s
  | .table _ [(name, v)] => if v.isEmpty then ofName? name else none
  | _ => none

variable [Scalar α]

namespace NoDataSettings

/-- Settings from the values that are given. -/
def ofSettings? (value ignore substitute : Option (Toml α)) : Option (NoDataSettings α) := do
  let standard : NoDataSettings α := .default
  return ⟨← Toml.setting standard.value Toml.toScalar? value,
    ← Toml.setting standard.ignore Toml.toBool? ignore,
    ← Toml.setting standard.substitute (fun v => v.toScalar?.map some) substitute⟩

/-- Settings from a table or an array. A date is a table in which no setting is
    given. -/
def ofToml? : Toml α → Option (NoDataSettings α)
  | .table _ entries =>
    ofSettings? (lookup? "value" entries) (lookup? "ignore" entries) (lookup? "substitute" entries)
  | .array items => ofSettings? items[0]? items[1]? items[2]?
  | .date => some .default
  | _ => none

end NoDataSettings

namespace Config

/-- A configuration from the entries of a text; what is left out has its default. -/
def ofToml? (entries : Toml.Entries α) : Option (Config α) := do
  let standard : Config α := .default
  return ⟨← Toml.setting standard.sampleCount Toml.toNat? (lookup? "sample_count" entries),
    ← Toml.setting standard.method Method.ofToml? (lookup? "default_defuzzifier" entries),
    ← Toml.setting standard.noData NoDataSettings.ofToml? (lookup? "no_data" entries)⟩

/-- The valid configuration that a text keeps (the engine's
    `EngineConfig.from_toml_str`). -/
def ofText (s : String) : Result Float (Config Float) :=
  match (Toml.read? s).bind ofToml? with
  | none => .error (.config .text)
  | some c => do
    c.validate
    return c

/-- A line that sets a name (within the engine's `EngineConfig.to_toml_string`). -/
def textLine (name value : String) : String := name ++ " = " ++ value ++ "\n"

/-- The text that keeps a configuration (the engine's
    `EngineConfig.to_toml_string`). The sample count has to fit into 64 bits with a
    sign. -/
def text (c : Config Float) : Result Float String :=
  if Nat.pow 2 63 ≤ c.sampleCount then .error (.config .text)
  else .ok (textLine "sample_count" (toString c.sampleCount)
    ++ textLine "default_defuzzifier" ("\"" ++ c.method.name ++ "\"")
    ++ "\n[no_data]\n"
    ++ textLine "value" (FloatText.configuration.write c.noData.value)
    ++ textLine "ignore" (if c.noData.ignore then "true" else "false")
    ++ match c.noData.substitute with
      | some k => textLine "substitute" (FloatText.configuration.write k)
      | none => "")

end Config

end FuzzyInference
