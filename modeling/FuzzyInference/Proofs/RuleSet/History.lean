import FuzzyInference.Proofs.RuleSet.Reached
import FuzzyInference.Proofs.RuleSet.Validation

/-!
# Compiled rules and rule text

A set lives through imports, of which some fail, and through changes of its
inputs. What it holds compiled always is what its text compiles into. A failed
one leaves its text and its errors and nothing of the rules before it, and on a
copy it leaves everything.

Results:

* `importLines_outcome`: what an import returns.
* `evaluate_eq_rulesNotCompiled`: when a set refuses to be evaluated.
* `Session.agrees_perform`: one call keeps text and compiled rules in step.
* `matchesText_run`: they are in step after every history.
-/

namespace FuzzyInference

variable {α : Type}

/-- What an import returns: how many rules compiled, or all errors. -/
def RuleImport.outcome (i : RuleImport α) : RuleSet.ImportResult :=
  if i.errors.isEmpty then .ok i.rules.length else .error i.errors

theorem RuleImport.kept_errors_eq_some {i : RuleImport α} {errors : List CompileError} :
    i.kept.errors = some errors ↔ i.outcome = .error errors := by
  unfold kept outcome
  split <;> simp

/-- Nothing but the errors is kept of an import with errors. -/
theorem RuleImport.kept_of_errors {i : RuleImport α} {errors : List CompileError}
    (h : i.kept.errors = some errors) :
    errors ≠ [] ∧ i.kept.rules = [] ∧ i.kept.aliases = .empty := by
  unfold kept at h ⊢
  split at h
  · cases h
  · rename_i hne
    rw [if_neg hne]
    cases h
    exact ⟨fun e => hne (List.isEmpty_iff.2 e), rfl, rfl⟩

namespace RuleSet

variable [Scalar α] {s : RuleSet α} {record : Record α}

/-! ## What calls return -/

theorem importLines_outcome (s : RuleSet α) (lines : List String) :
    (s.importLines lines).2 = (RuleImport.ofLines lines : RuleImport α).outcome := by
  unfold importLines RuleImport.outcome
  dsimp only
  split <;> rfl

/-- A copy is there exactly if the import on it succeeds, and it is what the import
    leaves. -/
theorem withText_eq_ok {text : String} {t : RuleSet α} :
    s.withText text = .ok t ↔ (∃ count, (s.importText text).2 = .ok count) ∧
    t = (s.importText text).1 := by
  unfold withText
  split
  · rename_i u count himport
    simp [himport, eq_comm]
  · rename_i u errors himport
    simp [himport]

/-! ## Refusals -/

theorem rule_ne_rulesNotCompiled {inputs : VariableStore α} {result : Variable α} {r : Rule α}
    {errors : List CompileError} :
    r.evaluate inputs result record ≠ .error (.rulesNotCompiled errors) := by
  intro h
  rcases bind_eq_error.1 h with h | ⟨clip, -, h⟩
  · rcases Expr.evaluate_eq_error h with ⟨input, membership, -, h⟩ | ⟨_, h⟩
    · exact Expr.isOfQuery_of_queryTruth h
    · cases h
  · rcases bind_eq_error.1 h with h | ⟨c, -, h⟩
    · cases (Variable.curve_eq_error.1 h).2
    · cases h

theorem union_ne_rulesNotCompiled {i j : Implication α} {errors : List CompileError} :
    i.union j ≠ .error (.rulesNotCompiled errors) := by
  intro h
  unfold Implication.union at h
  split at h
  · split at h
    · cases h
    · split at h <;> cases h
  · cases h

theorem uniteFrom_ne_rulesNotCompiled {total : Option (Implication α)} {rs : List (Rule α)}
    {errors : List CompileError} :
    s.uniteFrom record total rs ≠ .error (.rulesNotCompiled errors) := by
  induction rs generalizing total with
  | nil => nofun
  | cons r rs ih =>
    intro h
    rcases bind_eq_error.1 h with h | ⟨conclusion, -, h⟩
    · exact rule_ne_rulesNotCompiled h
    · cases total with
      | none => exact ih h
      | some total =>
        rcases bind_eq_error.1 h with h | ⟨union, -, h⟩
        · exact union_ne_rulesNotCompiled h
        · exact ih h

/-- A set refuses to be evaluated exactly while it has compile errors, and it gives
    them. -/
theorem evaluate_eq_rulesNotCompiled {errors : List CompileError} :
    s.evaluate record = .error (.rulesNotCompiled errors) ↔ s.errors = some errors := by
  refine ⟨fun h => ?_, fun h => evaluate_not_compiled h record⟩
  unfold evaluate at h
  split at h
  · rename_i own hown
    cases h
    exact hown
  · rcases bind_eq_error.1 h with h | ⟨total, -, h⟩
    · exact absurd h uniteFrom_ne_rulesNotCompiled
    · split at h <;> cases h

/-! ## Histories -/

/-- A call that changes a set. -/
inductive Change (α : Type) where
  | importLines (lines : List String)
  | withText (text : String)
  | reimport
  | addInput (v : Variable α)
  | removeInput (name : String)

namespace Change

/-- Whether a call is about the rules and not about the inputs. -/
def isImport : Change α → Bool
  | importLines _ | withText _ | reimport => true
  | addInput _ | removeInput _ => false

/-- The lines that are given have no line feed. -/
def HasLines : Change α → Prop
  | importLines lines => ∀ line ∈ lines, '\n' ∉ line.toList
  | withText _ | reimport | addInput _ | removeInput _ => True

instance : (change : Change α) → Decidable change.HasLines
  | importLines lines => inferInstanceAs (Decidable (∀ line ∈ lines, '\n' ∉ line.toList))
  | withText _ | reimport | addInput _ | removeInput _ => .isTrue trivial

end Change

/-- A set, and the last import that took effect on it: its lines and what it
    returned. -/
structure Session (α : Type) where
  set : RuleSet α
  last : Option (List String × ImportResult)

namespace Session

/-- A new set. -/
def start (inputs : VariableStore α) (result : Variable α) : Session α :=
  ⟨.make inputs result, none⟩

/-- Calls one operation. A text that does not compile on a copy has no effect. -/
def perform (s : Session α) : Change α → Session α
  | .importLines lines => ⟨(s.set.importLines lines).1, some (lines, (s.set.importLines lines).2)⟩
  | .withText text =>
    match s.set.withText text with
    | .ok set => ⟨set, some (Text.lines text, (s.set.importText text).2)⟩
    | .error _ => s
  | .reimport => ⟨s.set.reimport.1, some (Text.lines s.set.text, s.set.reimport.2)⟩
  | .addInput v => { s with set := s.set.addInput v }
  | .removeInput name => { s with set := s.set.removeInput name }

/-- Calls operations one after the other. -/
def run (s : Session α) (changes : List (Change α)) : Session α := changes.foldl perform s

/-- Text and compiled rules are those of the last import, or of a new set. -/
structure Agrees (s : Session α) : Prop where
  current : s.set.IsCurrent
  last : s.last = none ∧ s.set.text = "" ∨ ∃ lines, (∀ line ∈ lines, '\n' ∉ line.toList) ∧
    s.last = some (lines, (RuleImport.ofLines lines : RuleImport α).outcome) ∧
    s.set.text = "\n".intercalate lines

theorem agrees_start (inputs : VariableStore α) (result : Variable α) :
    (start inputs result).Agrees :=
  ⟨rfl, .inl ⟨rfl, rfl⟩⟩

/-- What an import leaves agrees, whatever was there before. -/
theorem agrees_import (set : RuleSet α) {lines : List String}
    (h : ∀ line ∈ lines, '\n' ∉ line.toList) :
    Agrees ⟨(set.importLines lines).1, some (lines, (set.importLines lines).2)⟩ where
  current := isCurrent_importLines h
  last := .inr ⟨lines, h, by rw [importLines_outcome], text_importLines set lines⟩

theorem agrees_perform {s : Session α} (h : s.Agrees) {change : Change α}
    (hchange : change.HasLines) : (s.perform change).Agrees := by
  cases change with
  | importLines lines => exact agrees_import s.set hchange
  | withText text =>
    unfold perform
    dsimp only
    split
    · rename_i set hset
      rw [(withText_eq_ok.1 hset).2]
      exact agrees_import s.set fun _ => Text.not_mem_of_mem_lines
    · exact h
  | reimport => exact agrees_import s.set fun _ => Text.not_mem_of_mem_lines
  | addInput v => exact ⟨h.current, h.last⟩
  | removeInput name => exact ⟨h.current, h.last⟩

theorem agrees_run {s : Session α} (h : s.Agrees) {changes : List (Change α)}
    (hchanges : ∀ change ∈ changes, change.HasLines) : (s.run changes).Agrees := by
  induction changes generalizing s with
  | nil => exact h
  | cons change changes ih =>
    obtain ⟨hchange, hrest⟩ := List.forall_mem_cons.1 hchanges
    exact ih (agrees_perform h hchange) hrest

/-- Compiling the text again returns what the last import returned. -/
theorem Agrees.reimport_eq {s : Session α} (h : s.Agrees) {lines : List String}
    {outcome : ImportResult} (hlast : s.last = some (lines, outcome)) :
    s.set.reimport.2 = outcome := by
  rcases h.last with ⟨hnone, -⟩ | ⟨own, hown, hsome, htext⟩
  · rw [hnone] at hlast
    cases hlast
  · rw [hsome] at hlast
    cases hlast
    rw [reimport, importText, importLines_outcome, htext, RuleImport.ofLines_lines hown]

theorem Agrees.errors_eq {s : Session α} (h : s.Agrees) {errors : List CompileError} :
    s.set.errors = some errors ↔ ∃ lines, s.last = some (lines, .error errors) := by
  have hkept : s.set.errors = some errors ↔
      (RuleImport.ofLines (Text.lines s.set.text) : RuleImport α).outcome = .error errors := by
    rw [← RuleImport.kept_errors_eq_some, ← h.current]
    rfl
  rw [hkept]
  rcases h.last with ⟨hnone, htext⟩ | ⟨own, hown, hsome, htext⟩
  · rw [hnone, htext]
    constructor
    · intro h
      cases h
    · rintro ⟨_, h⟩
      cases h
  · rw [hsome, htext, RuleImport.ofLines_lines hown]
    simp

/-- What holds of a set at every moment of its life. -/
structure MatchesText (s : Session α) : Prop where
  /-- There are errors exactly if the last import produced them. -/
  errors_iff : ∀ errors, s.set.errors = some errors ↔ ∃ lines, s.last = some (lines, .error errors)
  /-- With errors nothing else is kept. -/
  failed : ∀ errors, s.set.errors = some errors →
    errors ≠ [] ∧ s.set.rules = [] ∧ s.set.aliases = .empty
  /-- Rules, aliases and errors are what the text compiles into. -/
  compiled : s.set.kept = (RuleImport.ofLines (Text.lines s.set.text)).kept
  /-- Compiling the text again leaves rules, aliases and errors as they are. -/
  reimport_kept : s.set.reimport.1.kept = s.set.kept
  /-- Compiling the text again returns what the last import returned; the text is
      its lines. -/
  reimport_outcome : ∀ lines outcome, s.last = some (lines, outcome) →
    s.set.reimport.2 = outcome ∧ s.set.text = "\n".intercalate lines
  /-- The set refuses to be evaluated exactly while it has errors. -/
  refuses : ∀ record errors, s.set.evaluate record = .error (.rulesNotCompiled errors) ↔
    s.set.errors = some errors

theorem Agrees.matchesText {s : Session α} (h : s.Agrees) : s.MatchesText where
  errors_iff _ := h.errors_eq
  failed errors herrors := by
    have hkept := h.current
    have hfailed : s.set.kept.errors = some errors := herrors
    rw [hkept] at hfailed
    have := RuleImport.kept_of_errors hfailed
    rwa [← hkept] at this
  compiled := h.current
  reimport_kept := by rw [reimport, importText, kept_importLines, h.current]
  reimport_outcome lines outcome hlast := by
    refine ⟨h.reimport_eq hlast, ?_⟩
    rcases h.last with ⟨hnone, -⟩ | ⟨own, -, hsome, htext⟩
    · rw [hnone] at hlast
      cases hlast
    · rw [hsome] at hlast
      cases hlast
      exact htext
  refuses _ _ := evaluate_eq_rulesNotCompiled

theorem perform_input (s : Session α) {change : Change α} (h : change.isImport = false) :
    (s.perform change).set.text = s.set.text ∧ (s.perform change).set.rules = s.set.rules ∧
      (s.perform change).set.aliases = s.set.aliases ∧
      (s.perform change).set.errors = s.set.errors ∧
      (s.perform change).set.result = s.set.result := by
  cases change with
  | importLines _ | withText _ | reimport => cases h
  | addInput _ | removeInput _ => exact ⟨rfl, rfl, rfl, rfl, rfl⟩

theorem perform_import (s : Session α) {change : Change α} (h : change.isImport = true) :
    (s.perform change).set.inputs = s.set.inputs ∧
    (s.perform change).set.result = s.set.result := by
  cases change with
  | importLines lines => exact ⟨inputs_importLines s.set lines, result_importLines s.set lines⟩
  | withText text =>
    unfold perform
    dsimp only
    split
    · rename_i set hset
      rw [(withText_eq_ok.1 hset).2]
      exact ⟨inputs_importLines s.set _, result_importLines s.set _⟩
    · exact ⟨rfl, rfl⟩
  | reimport => exact ⟨inputs_importLines s.set _, result_importLines s.set _⟩
  | addInput _ | removeInput _ => cases h

end Session

/-- Compiled rules match the text after every history of a new set. The next call
    changes only its side of the set: the inputs, or the text and what it compiles
    into. -/
theorem matchesText_run (inputs : VariableStore α) (result : Variable α) {changes : List (Change α)}
    (h : ∀ change ∈ changes, change.HasLines) :
    ((Session.start inputs result).run changes).MatchesText ∧
    ∀ change : Change α,
      let now := ((Session.start inputs result).run changes).set
      let next := (((Session.start inputs result).run changes).perform change).set
      (change.isImport = false → next.text = now.text ∧ next.rules = now.rules ∧
        next.aliases = now.aliases ∧ next.errors = now.errors ∧ next.result = now.result) ∧
      (change.isImport = true → next.inputs = now.inputs ∧ next.result = now.result) := by
  refine ⟨(Session.agrees_run (Session.agrees_start inputs result) h).matchesText,
    fun change => ⟨?_, ?_⟩⟩
  · exact fun hinput => Session.perform_input _ hinput
  · exact fun himport => Session.perform_import _ himport

/-- A rule over two lines with a carriage return and an empty line, a copy that does
    not compile, and an input that comes and goes. -/
def changesOfRain : List (Change Float) :=
  [.importLines ["IF rain IS low\r", "THEN risk IS high", ""], .withText "IF rain",
    .addInput ⟨"rain", 0, 1, .empty⟩, .removeInput "rain"]

/-- The rule is still there, and a failed import takes it away. -/
theorem matchesText_ofRain :
    let s := (Session.start .empty ⟨"risk", 0, 1, .empty⟩).run changesOfRain
    (∀ change ∈ changesOfRain, change.HasLines) ∧ s.MatchesText ∧ s.set.rules.length = 1 ∧
      (s.perform (.importLines ["IF rain"])).set.rules.length = 0 := by
  have hlines : ∀ change ∈ changesOfRain, change.HasLines := by decide
  exact ⟨hlines, (matchesText_run _ _ hlines).1, by decide +kernel, by decide +kernel⟩

end RuleSet

end FuzzyInference
