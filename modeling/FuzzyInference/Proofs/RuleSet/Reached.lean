import FuzzyInference.Proofs.Rule.ImportLines
import FuzzyInference.Proofs.Variable.Store
import FuzzyInference.RuleSet

/-!
# The sets that are reached

A set is reached from a new one by adding inputs and importing rule text. The
last import leaves its text and what it compiled: rules and aliases, or the
errors alone. If no line of it held a line feed, the text compiles again into
the same.

Results:

* `importLines_eq`: what an import leaves, whatever was compiled before.
* `Reached.isNamed`: the inputs stand under their names.
* `Reached.isCurrent`: compiling the text again changes nothing.
-/

namespace FuzzyInference

variable {α : Type} [Scalar α]

/-- What a set keeps of an import. -/
structure ImportedRules (α : Type) where
  rules : List (Rule α)
  aliases : AliasTable α
  errors : Option (List CompileError)

/-- Everything is kept of an import without errors, and only the errors of another
    one. -/
def RuleImport.kept (i : RuleImport α) : ImportedRules α :=
  if i.errors.isEmpty then ⟨i.rules, i.aliases, none⟩ else ⟨[], .empty, some i.errors⟩

namespace RuleSet

/-- What a set keeps of its last import. -/
def kept (s : RuleSet α) : ImportedRules α := ⟨s.rules, s.aliases, s.errors⟩

variable {s : RuleSet α}

/-! ## What an import changes -/

/-- An import replaces the text and what was compiled, and nothing else. -/
theorem importLines_eq (s : RuleSet α) (lines : List String) :
    let kept : ImportedRules α := (RuleImport.ofLines lines).kept
    (s.importLines lines).1 =
      ⟨s.inputs, s.result, "\n".intercalate lines, kept.rules, kept.aliases, kept.errors⟩ := by
  unfold importLines RuleImport.kept
  dsimp only
  split <;> rfl

theorem kept_importLines (s : RuleSet α) (lines : List String) :
    (s.importLines lines).1.kept = (RuleImport.ofLines lines).kept := by
  rw [importLines_eq]
  rfl

theorem text_importLines (s : RuleSet α) (lines : List String) :
    (s.importLines lines).1.text = "\n".intercalate lines := by
  rw [importLines_eq]

theorem inputs_importLines (s : RuleSet α) (lines : List String) :
    (s.importLines lines).1.inputs = s.inputs := by
  rw [importLines_eq]

theorem result_importLines (s : RuleSet α) (lines : List String) :
    (s.importLines lines).1.result = s.result := by
  rw [importLines_eq]

/-! ## Sets that are reached -/

/-- Whether compiling the text gives what the set holds. -/
def IsCurrent (s : RuleSet α) : Prop := s.kept = (RuleImport.ofLines (Text.lines s.text)).kept

theorem isCurrent_importLines {lines : List String} (h : ∀ line ∈ lines, '\n' ∉ line.toList) :
    (s.importLines lines).1.IsCurrent := by
  rw [IsCurrent, kept_importLines, text_importLines, RuleImport.ofLines_lines h]

/-- The sets that are reached from new ones by importing lines of one kind, or
    texts, and by adding inputs. -/
inductive Reached (Line : String → Prop) : RuleSet α → Prop
  | make {inputs : VariableStore α} (h : inputs.IsNamed) (result : Variable α) :
    Reached Line (.make inputs result)
  | addInput {s : RuleSet α} (h : Reached Line s) (v : Variable α) : Reached Line (s.addInput v)
  | importLines {s : RuleSet α} (h : Reached Line s) {lines : List String}
      (hlines : ∀ line ∈ lines, Line line) :
    Reached Line (s.importLines lines).1
  | importText {s : RuleSet α} (h : Reached Line s) (text : String) :
      Reached Line (s.importText text).1
  | reimport {s : RuleSet α} (h : Reached Line s) : Reached Line s.reimport.1

theorem Reached.isNamed {Line : String → Prop} (h : Reached Line s) : s.inputs.IsNamed := by
  induction h with
  | make h _ => exact h
  | addInput _ v ih => exact ih.add v
  | importLines _ _ ih => rwa [inputs_importLines]
  | importText _ _ ih => rwa [RuleSet.importText, inputs_importLines]
  | reimport _ ih => rwa [RuleSet.reimport, RuleSet.importText, inputs_importLines]

/-- Compiling the text again changes nothing, unless a line held a line feed. -/
theorem Reached.isCurrent (h : Reached (fun line => '\n' ∉ line.toList) s) : s.IsCurrent := by
  -- Only the last import counts, and adding an input behind it leaves the text alone.
  induction h with
  | make _ _ => rfl
  | addInput _ _ ih => exact ih
  | importLines _ hlines _ => exact isCurrent_importLines hlines
  | importText _ _ _ => exact isCurrent_importLines fun _ => Text.not_mem_of_mem_lines
  | reimport _ _ => exact isCurrent_importLines fun _ => Text.not_mem_of_mem_lines

end RuleSet

end FuzzyInference
