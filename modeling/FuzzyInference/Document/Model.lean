import FuzzyInference.Document.Rule
import FuzzyInference.Document.Implication
import FuzzyInference.Model

/-!
# Documents of configurations, combiners and models

A configuration and a model may leave out any field. A combiner keeps its
expression, which is compiled again when it is read, and is not read if that
fails; names and methods are left out when none were given.

Results:

* `Method.ofDocument?_toDocument`: a method is read back.
-/

namespace FuzzyInference

variable {α : Type} [Scalar α]

/-- The document of a method, which is its name. -/
def Method.toDocument (m : Method) : Json α := .string m.name

/-- Reads a method from its name. -/
def Method.ofDocument? (j : Json α) : Option Method := do
  Method.ofName? (← j.choice? false)

omit [Scalar α] in
theorem Method.ofDocument?_toDocument (m : Method) :
    Method.ofDocument? (m.toDocument : Json α) = some m :=
  Method.ofName?_name m

namespace NoDataSettings

/-- The document of settings for missing data. -/
def toDocument (s : NoDataSettings α) : Json α :=
  .object [("value", .ofScalar s.value), ("ignore", .bool s.ignore),
    ("substitute", match s.substitute with
      | some k => .ofScalar k
      | none => .null)]

/-- Reads settings for missing data; what is left out has its default. -/
def ofDocument? (j : Json α) : Option (NoDataSettings α) :=
  let standard : NoDataSettings α := .default
  match j.fields? ["value", "ignore", "substitute"] with
  | some [value, ignore, substitute] => do
    return ⟨← Json.withDefault standard.value Json.toScalar? value,
      ← Json.withDefault standard.ignore Json.toBool? ignore,
      ← Json.optional Json.toScalar? substitute⟩
  | _ => none

end NoDataSettings

namespace Config

/-- The document of a configuration. -/
def toDocument (c : Config α) : Json α :=
  .object [("sample_count", .int c.sampleCount), ("default_defuzzifier", c.method.toDocument),
    ("no_data", c.noData.toDocument)]

/-- Reads a configuration, which is not checked; what is left out has its
    default. -/
def ofDocument? (j : Json α) : Option (Config α) :=
  let standard : Config α := .default
  match j.fields? ["sample_count", "default_defuzzifier", "no_data"] with
  | some [count, method, noData] => do
    return ⟨← Json.withDefault standard.sampleCount (Json.toNat? (Nat.pow 2 64)) count,
      ← Json.withDefault standard.method Method.ofDocument? method,
      ← Json.withDefault standard.noData NoDataSettings.ofDocument? noData⟩
  | _ => none

end Config

namespace Combiner

/-- The document of a combiner; its formula is not written (the engine's
    `CombinerDocument.from`). -/
def toDocument (c : Combiner α) : Json α :=
  .object ([("expression", .string c.expression)]
    ++ (match c.givenNames with
      | some names => [("expected", .array (names.map .string))]
      | none => [])
    ++ (if c.methods.isEmpty then [] else [("methods", .ofMap Method.toDocument c.methods)])
    ++ [("default_method", c.defaultMethod.toDocument), ("sample_count", .int c.sampleCount)])

/-- Reads a combiner, whose expression has to parse (the engine's
    `Combiner.try_from`). -/
def ofDocument? (j : Json α) : Option (Combiner α) :=
  match j.fields? ["expression", "expected", "methods", "default_method", "sample_count"] with
  | some [expression, expected, methods, method, count] => do
    let expression ← Json.required Json.toString? expression
    let expected ← Json.optional (Json.toList? Json.toString?) expected
    let methods ← Json.withDefault .empty (Json.toMap? Method.ofDocument?) methods
    let method ← Json.withDefault .centroid Method.ofDocument? method
    let count ← Json.withDefault defaultSampleCount (Json.toNat? (Nat.pow 2 64)) count
    match make expression with
    | .ok c =>
      return { c with
        givenNames := expected, methods, defaultMethod := method, sampleCount := count }
    | .error _ => none
  | _ => none

end Combiner

namespace Model

/-- The document of a model. -/
def toDocument (m : Model α) : Json α :=
  .object [("config", m.config.toDocument), ("sets", .ofMap RuleSet.toDocument m.sets),
    ("combiners", .ofMap Combiner.toDocument m.combiners)]

/-- Reads a model, which is not checked. -/
def ofDocument? (j : Json α) : Option (Model α) :=
  match j.fields? ["config", "sets", "combiners"] with
  | some [config, sets, combiners] => do
    return ⟨← Json.withDefault .default Config.ofDocument? config,
      ← Json.withDefault .empty (Json.toMap? RuleSet.ofDocument?) sets,
      ← Json.withDefault .empty (Json.toMap? Combiner.ofDocument?) combiners⟩
  | _ => none

end Model

end FuzzyInference
