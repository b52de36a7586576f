import FuzzyInference.Config.Basic
import FuzzyInference.Scalar.Numeral

/-!
# Environment settings

Five environment variables override a configuration, each one if it is set. They
are applied one after the other, so the settings made before a failing one stay.

The settings are the branches of the engine's `EngineConfig.apply_overrides`, one
definition each.
-/

namespace FuzzyInference.Config

variable {α : Type} [Scalar α]

/-- A change of a configuration by the text of a variable. -/
abbrev Setting (α : Type) : Type := Config α → String → Result α (Config α)

/-- The error for a text that a variable does not accept. -/
def invalid (key value : String) : Error α := .config (.invalidSetting key value)

/-- Reads the text of a variable without its outer blanks. -/
def readSetting {β : Type} (key : String) (read? : String → Option β)
    (value : String) : Result α β :=
  match read? (Text.trim value) with
  | some b => .ok b
  | none => .error (invalid key value)

/-- A truth value in lower case. -/
def readBool? : String → Option Bool
  | "true" => some true
  | "false" => some false
  | _ => none

/-- Sets the number of samples. -/
def setSampleCount : Setting α := fun c value => do
  let n ← readSetting "FUZZY_SAMPLE_COUNT" (Numeral.readNat? (Nat.pow 2 64)) value
  return { c with sampleCount := n }

/-- Sets the method of defuzzification. -/
def setMethod : Setting α := fun c value => do
  let m ← Method.parse value
  return { c with method := m }

/-- Sets the number that missing data is spelled as. -/
def setNoDataValue : Setting α := fun c value => do
  let x ← readSetting "FUZZY_NODATA_VALUE" Scalar.read? value
  return { c with noData := { c.noData with value := x } }

/-- Sets whether missing data gives way. -/
def setNoDataIgnore : Setting α := fun c value => do
  let b ← readSetting "FUZZY_NODATA_IGNORE" readBool? value
  return { c with noData := { c.noData with ignore := b } }

/-- An empty text and the word `none` take the substitute away. -/
def setNoDataSubstitute : Setting α := fun c value => do
  let text := Text.trim value
  let substitute ← if text = "" ∨ text = "none" then pure none
    else some <$> readSetting "FUZZY_NODATA_SUBSTITUTE" Scalar.read? text
  return { c with noData := { c.noData with substitute := substitute } }

/-- The variables in the order they are applied. -/
def settings : List (String × Setting α) := [
  ("FUZZY_SAMPLE_COUNT", setSampleCount),
  ("FUZZY_DEFUZZIFIER", setMethod),
  ("FUZZY_NODATA_VALUE", setNoDataValue),
  ("FUZZY_NODATA_IGNORE", setNoDataIgnore),
  ("FUZZY_NODATA_SUBSTITUTE", setNoDataSubstitute)]

/-- Applies settings until one fails: the configuration as it was left, and the
    error. -/
def applySettings (environment : String → Option String) :
    List (String × Setting α) → Config α → Config α × Option (Error α)
  | [], c => (c, none)
  | (key, set) :: rest, c =>
    match environment key with
    | none => applySettings environment rest c
    | some value =>
      match set c value with
      | .ok c' => applySettings environment rest c'
      | .error e => (c, some e)

/-- Overrides a configuration by the environment and checks it: the configuration as
    it was left, and the error if there is one (the engine's
    `EngineConfig.apply_env_overrides`). -/
def applyEnvironment (c : Config α) (environment : String → Option String) :
    Config α × Option (Error α) :=
  match applySettings environment settings c with
  | (c', some e) => (c', some e)
  | (c', none) =>
    match c'.validate with
    | .ok _ => (c', none)
    | .error e => (c', some e)

end FuzzyInference.Config
