import FuzzyInference.Combiner
import FuzzyInference.Record
import FuzzyInference.RuleSet

/-!
# Models

A model is a named collection of rule sets and combiners. For each record every
set is evaluated, and then every combiner over the conclusions; without
combiners each set is an output of its own. A failure or missing data skips an
output instead of stopping the evaluation, and the log says so.

Combiners can also read a flag for each input: `SRC_NO_DATA.depth` is one when
the input `depth` is missing in the record and zero when it is not.
-/

namespace FuzzyInference

/-- Rule sets and combiners by name, with the settings they share (the engine's
    `Model`). -/
structure Model (α : Type) where
  config : Config α
  sets : OrderedMap (RuleSet α)
  combiners : OrderedMap (Combiner α)

/-- The outputs of a record and what was logged on the way (the engine's
    `SkipLog`). -/
structure Evaluation (α : Type) where
  outputs : Outputs α
  log : List String

namespace Model

/-- What the names of missing-data flags start with (the engine's
    `NO_DATA_FLAG_PREFIX`). -/
def flagMark : String := "SRC_NO_DATA."

variable {α : Type} [Scalar α]

/-- The names of the combiners, or those of the sets when there are no combiners
    (the engine's `Model.output_names`). -/
def outputNames (m : Model α) : List String :=
  if m.combiners.isEmpty then m.sets.keys else m.combiners.keys

/-- Checks that a combiner expects nothing but conclusions and flags (within the
    engine's `Model.validate`). -/
def checkCombiner (m : Model α) (c : Combiner α) : Result α Unit :=
  match c.expectedNames.find? fun n => !m.sets.contains n && !flagMark.isPrefixOf n with
  | some n => .error (.missingValue n)
  | none => .ok ()

/-- Checks the configuration, the sets and the combiners, in this order (the
    engine's `Model.validate`). -/
def validate (m : Model α) : Result α Unit := do
  m.config.validate
  m.sets.values.forM RuleSet.validate
  m.combiners.values.forM m.checkCombiner

/-- Skips an output (the engine's `Model.skip`). -/
def skip (m : Model α) (e : Evaluation α) (name : String) (reason : SkipReason α) : Evaluation α :=
  ⟨e.outputs.skip name m.config.noData.value reason, e.log ++ [name ++ " Skipped: " ++ reason.text]⟩

/-- Stores the value of an output, or skips it (the engine's `Model.finish`). -/
def finish (m : Model α) (e : Evaluation α) (name : String) (value : Result α (Value α)) :
    Evaluation α :=
  match value with
  | .ok (.number v) => { e with outputs := e.outputs.insert name v }
  | .ok (.sentinel _) => m.skip e name .noData
  | .error err => m.skip e name (.failed err)

/-- The conclusion of every set, in order (within the engine's
    `Model.evaluate_record_with`). -/
def conclusions (m : Model α) (record : Record α) : List (String × Result α (Implication α)) :=
  m.sets.entries.map fun (name, s) => (name, s.evaluate record)

/-- The log entries of the sets that failed (the engine's `SkipLog.set_failed`). -/
def failures (results : List (String × Result α (Implication α))) : List String :=
  results.filterMap fun (name, result) =>
    match result with
    | .ok _ => none
    | .error err => some ("Set " ++ name ++ " failed: " ++ err.message)

/-- The value of a set that is an output of its own (within the engine's
    `Model.evaluate_record_with`). -/
def direct (m : Model α) (result : Result α (Implication α)) : Result α (Value α) := do
  let v ← (← result).defuzzify m.config.method m.config.sampleCount
  return v.getD (.number 0)

/-- The conclusions that can be combined (within the engine's
    `Model.evaluate_record_with`). -/
def operands (results : List (String × Result α (Implication α))) : OrderedMap (Operand α) :=
  .ofList (results.filterMap fun (name, result) =>
    match result with
    | .ok i => some (name, .implication i)
    | .error _ => none)

/-- The missing-data flags of a record (within the engine's
    `Model.evaluate_record_with`). -/
def flags (record : Record α) : OrderedMap (Value α) :=
  .ofList (record.values.entries.map fun (name, v) =>
    (flagMark ++ name, .number (if v.isSentinel then 1 else 0)))

/-- The values of the outputs, before they are stored or skipped (within the
    engine's `Model.evaluate_record_with`). -/
def outputValues (m : Model α) (record : Record α)
    (results : List (String × Result α (Implication α))) : List (String × Result α (Value α)) :=
  if m.combiners.isEmpty then results.map fun (name, result) => (name, m.direct result)
  else
    let available := operands results
    let marks := flags record
    m.combiners.entries.map fun (name, c) => (name, c.evaluate available marks)

/-- Evaluates a record (the engine's `Model.evaluate_record_with`). -/
def evaluate (m : Model α) (record : Record α) : Evaluation α :=
  if record.allMissing then
    m.outputNames.foldl (fun e name => m.skip e name .allInputsMissing) ⟨.empty, []⟩
  else
    let results := m.conclusions record
    (m.outputValues record results).foldl (fun e (name, value) => m.finish e name value)
      ⟨.empty, failures results⟩

/-- Evaluates raw readings, of which the last one counts for each name (the engine's
    `Model.evaluate_raw`). -/
def evaluateRaw (m : Model α) (readings : List (String × α)) : Evaluation α :=
  m.evaluate (readings.foldl (fun r (name, raw) => r.addRaw m.config.noData name raw) .empty)

/-- Whether two models have equal settings and the same sets and combiners in any
    order (the engine's `Model.eq`). -/
def same (m n : Model α) : Bool :=
  m.config.same n.config && m.sets.agrees RuleSet.same n.sets &&
    m.combiners.agrees Combiner.same n.combiners

end Model

end FuzzyInference
