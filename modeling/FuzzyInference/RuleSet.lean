import FuzzyInference.Rule.Basic
import FuzzyInference.Rule.Import

/-!
# Rule sets

A rule set has input variables, one result and the rules between them. The rule
text is what counts: the compiled rules come from the last import, and one that
failed leaves a set without rules that refuses to be evaluated.

Results:

* `evaluate_not_compiled`: a failed import is reported on evaluation.
-/

namespace FuzzyInference

/-- Inputs, a result and rules (the engine's `FuzzyLogicSet`). -/
structure RuleSet (α : Type) where
  inputs : VariableStore α
  result : Variable α
  text : String
  rules : List (Rule α)
  aliases : AliasTable α
  /-- The errors of the last import, if it failed. -/
  errors : Option (List CompileError)

namespace RuleSet

variable {α : Type}

/-- A set without rules (the engine's `FuzzyLogicSet.new`). -/
def make (inputs : VariableStore α) (result : Variable α) : RuleSet α :=
  ⟨inputs, result, "", [], .empty, none⟩

/-- Adds an input, or replaces the one of its name (the engine's
    `FuzzyLogicSet.with_input`). -/
def addInput (s : RuleSet α) (v : Variable α) : RuleSet α := { s with inputs := s.inputs.add v }

/-- Removes the input of a name; the rules stay (within the engine's
    `Variables.remove`). -/
def removeInput (s : RuleSet α) (name : String) : RuleSet α :=
  { s with inputs := s.inputs.remove name }

/-- How many rules an import compiled, or all of its errors. -/
abbrev ImportResult : Type := Except (List CompileError) Nat

variable [Scalar α]

/-- Replaces the rules by lines of rule text (the engine's
    `FuzzyLogicSet.import_rules`). -/
def importLines (s : RuleSet α) (lines : List String) : RuleSet α × ImportResult :=
  let text := "\n".intercalate lines
  let imported : RuleImport α := .ofLines lines
  if imported.errors.isEmpty then
    ({ s with text, rules := imported.rules, aliases := imported.aliases, errors := none },
      .ok imported.rules.length)
  else
    ({ s with text, rules := [], aliases := .empty, errors := some imported.errors },
      .error imported.errors)

/-- Replaces the rules by a rule text (within the engine's
    `FuzzyLogicSet.with_rules`). -/
def importText (s : RuleSet α) (text : String) : RuleSet α × ImportResult :=
  s.importLines (Text.lines text)

/-- A copy with the rules of a rule text, if the text compiles (the engine's
    `FuzzyLogicSet.with_rules`). -/
def withText (s : RuleSet α) (text : String) : Except (List CompileError) (RuleSet α) :=
  match s.importText text with
  | (t, .ok _) => .ok t
  | (_, .error errors) => .error errors

/-- Compiles the rule text again (the engine's `FuzzyLogicSet.reimport`). -/
def reimport (s : RuleSet α) : RuleSet α × ImportResult := s.importText s.text

/-- The union of the conclusions of rules with an earlier one (within the engine's
    `FuzzyLogicSet.evaluate_rules`). -/
def uniteFrom (s : RuleSet α) (record : Record α) (total : Option (Implication α)) :
    List (Rule α) → Result α (Option (Implication α))
  | [] => .ok total
  | r :: rs => do
    let conclusion ← r.evaluate s.inputs s.result record
    let total ← match total with
      | none => pure conclusion
      | some total => total.union conclusion
    uniteFrom s record (some total) rs

/-- What the rules conclude about the result for a record (the engine's
    `FuzzyLogicSet.evaluate_rules`). -/
def evaluate (s : RuleSet α) (record : Record α) : Result α (Implication α) :=
  match s.errors with
  | some errors => .error (.rulesNotCompiled errors)
  | none => do
    match ← s.uniteFrom record none s.rules with
    | some total => return total
    | none => throw .noRules

theorem evaluate_not_compiled {s : RuleSet α} {errors : List CompileError}
    (h : s.errors = some errors) (record : Record α) :
    s.evaluate record = .error (.rulesNotCompiled errors) := by
  simp [evaluate, h]

/-- Checks that a query names a known input and one of its memberships (within the
    engine's `FuzzyLogicSet.validate`). -/
def checkQuery (s : RuleSet α) (query : String × String) : Result α Unit :=
  match s.inputs.get? query.1 with
  | none => .error (.unknownInput query.1)
  | some v => do let _ ← v.curve query.2

/-- Checks the names in a rule (within the engine's `FuzzyLogicSet.validate`). -/
def checkRule (s : RuleSet α) (r : Rule α) : Result α Unit := do
  r.condition.queries.forM s.checkQuery
  let _ ← s.result.curve r.membership

/-- Checks that the rules compiled and that they name known inputs and memberships
    only (the engine's `FuzzyLogicSet.validate`). -/
def validate (s : RuleSet α) : Result α Unit :=
  match s.errors with
  | some errors => .error (.rulesNotCompiled errors)
  | none => s.rules.forM s.checkRule

/-- Whether two sets agree in variables, text, rules, aliases and errors (the
    engine's `FuzzyLogicSet.eq`). -/
def same (s t : RuleSet α) : Bool :=
  s.inputs.same t.inputs && s.result.same t.result && s.text == t.text &&
    s.rules.length == t.rules.length && ((s.rules.zip t.rules).all fun (a, b) => a.same b) &&
    s.aliases.entries.agrees Expr.same t.aliases.entries && decide (s.errors = t.errors)

end RuleSet

end FuzzyInference
