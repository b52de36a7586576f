import FuzzyInference.Defuzzify
import FuzzyInference.Value

/-!
# Configuration

How many samples defuzzification takes, which method it uses by default, and how
missing data is spelled in raw readings and behaves once read.

Results:

* `validate_eq_ok_iff`: a configuration is valid when it has two samples or more.
-/

namespace FuzzyInference

/-- How missing data is spelled and how it behaves (the engine's `NoDataConfig`). -/
structure NoDataSettings (α : Type) where
  /-- The raw reading that marks missing data, also written for skipped outputs. -/
  value : α
  ignore : Bool
  substitute : Option α
  deriving Repr, DecidableEq

namespace NoDataSettings

variable {α : Type} [Scalar α]

/-- Missing data is spelled `-99999` and propagates (the engine's
    `NoDataConfig.default`). -/
def default : NoDataSettings α := ⟨-99999, false, none⟩

/-- The sentinel that marked readings turn into (the engine's
    `NoDataConfig.sentinel`). -/
def sentinel (s : NoDataSettings α) : Sentinel α := ⟨s.ignore, s.substitute⟩

/-- Whether a raw reading marks missing data (the engine's `NoDataConfig.matches`).
    An undefined mark stands for every undefined reading. -/
def marks (s : NoDataSettings α) (raw : α) : Bool :=
  raw == s.value || (Scalar.isNaN raw && Scalar.isNaN s.value)

/-- The value of a raw reading (within the engine's `Inputs.insert_raw`). -/
def read (s : NoDataSettings α) (raw : α) : Value α :=
  if s.marks raw then .sentinel s.sentinel else .number raw

/-- Whether two settings are equal (the engine's `NoDataConfig.eq`). -/
def same (s t : NoDataSettings α) : Bool :=
  s.value == t.value && s.sentinel.same t.sentinel

end NoDataSettings

/-- The samples taken across a result's range unless told otherwise (the engine's
    `DEFAULT_SAMPLE_COUNT`). -/
def defaultSampleCount : Nat := 1000

/-- The settings of an evaluation (the engine's `EngineConfig`). -/
structure Config (α : Type) where
  sampleCount : Nat
  method : Method
  noData : NoDataSettings α
  deriving Repr, DecidableEq

namespace Config

variable {α : Type} [Scalar α]

/-- A thousand samples, the centroid, and the default settings for missing data (the
    engine's `EngineConfig.default`). -/
def default : Config α := ⟨defaultSampleCount, .centroid, .default⟩

/-- A configuration needs at least two samples (the engine's
    `EngineConfig.validate`). -/
def validate (c : Config α) : Result α Unit :=
  if c.sampleCount < 2 then .error (.config (.sampleCount c.sampleCount)) else .ok ()

omit [Scalar α] in
theorem validate_eq_ok_iff (c : Config α) : c.validate = .ok () ↔ 2 ≤ c.sampleCount := by
  unfold validate
  split <;> simp <;> omega

/-- Whether two configurations are equal (the engine's `EngineConfig.eq`). -/
def same (c d : Config α) : Bool :=
  c.sampleCount == d.sampleCount && c.method == d.method && c.noData.same d.noData

end Config

end FuzzyInference
