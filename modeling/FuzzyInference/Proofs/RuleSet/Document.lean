import FuzzyInference.Document.Rule
import FuzzyInference.Proofs.Document.Legible
import FuzzyInference.Proofs.RuleSet.Reached

/-!
# Rule sets read back

A set is read from its document with the variables it had, and compiles the text
of the document again. That gives the same rules, aliases and errors, unless a
line of the last import held a line feed. The text itself is what its lines give
back: a line feed at its end is lost, and so is a carriage return before a line
feed.

Results:

* `ofDocument?_arrange` and `ofDocument?_toDocument`: what is read from a document.
* `reread_restores`: what a set and the one read from its text have in common.
* `reread_lostLines`: lines that are not read back.
-/

namespace FuzzyInference.RuleSet

/-- Every number of a set satisfies a predicate. -/
def All {α : Type} (P : α → Prop) (s : RuleSet α) : Prop :=
  (∀ v ∈ s.inputs.toList, v.All P) ∧ s.result.All P

/-! ## Documents -/

section

variable {α : Type} [Scalar α] {s : RuleSet α}

/-- The set read from a document: the same variables, and the text compiled
    again. -/
def restored (s : RuleSet α) : RuleSet α :=
  ((make (.ofList s.inputs.toList) s.result).importText s.text).1

/-- The set read from a document with its members in an order: the memberships stand
    in that order. -/
def restoredIn (before : String → String → Bool) (s : RuleSet α) : RuleSet α :=
  ((make (.ofList (s.inputs.toList.map (Variable.arrange before)))
    (s.result.arrange before)).importText s.text).1

theorem restoredIn_always (s : RuleSet α) : s.restoredIn (fun _ _ => true) = s.restored := by
  have hid : Variable.arrange (fun _ _ => true) = (id : Variable α → Variable α) :=
    funext Variable.arrange_always
  rw [restoredIn, hid, List.map_id, id, restored]

/-- The inputs are listed as before, each with its memberships in the order of the
    document. -/
theorem toList_restoredIn (h : s.inputs.IsNamed) (before : String → String → Bool) :
    (s.restoredIn before).inputs.toList = s.inputs.toList.map (Variable.arrange before) := by
  rw [restoredIn, importText, inputs_importLines]
  refine VariableStore.toList_foldl_add VariableStore.isNamed_empty ?_
  show ((s.inputs.toList.map (Variable.arrange before)).map Variable.name).Nodup
  rw [List.map_map]
  show (s.inputs.toList.map Variable.name).Nodup
  rw [h.map_name]
  exact s.inputs.index.nodup

theorem result_restoredIn (s : RuleSet α) (before : String → String → Bool) :
    (s.restoredIn before).result = s.result.arrange before := by
  rw [restoredIn, importText, result_importLines, make]

theorem ofDocument?_arrange (h : s.All Finite) (before : String → String → Bool) :
    ofDocument? (s.toDocument.arrange before) = some (s.restoredIn before) := by
  have hinputs := VariableStore.ofDocument?_arrange h.1 before
  have hresult := Variable.ofDocument?_arrange h.2 before
  rw [ofDocument?, Json.fields?_arrange]
  simp [toDocument, Json.fields?, Json.countOf, Json.member?, Json.required, Json.withDefault,
    Json.toString?, hinputs, hresult, restoredIn]

theorem ofDocument?_toDocument (h : s.All Finite) : ofDocument? s.toDocument = some s.restored := by
  have hread := ofDocument?_arrange h fun _ _ => true
  rwa [Json.arrange_always, restoredIn_always] at hread

/-- What a set has in common with another one that is read from its document. -/
structure Restores (s t : RuleSet α) : Prop where
  inputs : t.inputs.toList = s.inputs.toList
  result : t.result = s.result
  /-- The text is what its lines give back. -/
  text : t.text = "\n".intercalate (Text.lines s.text)
  /-- It is the same unless a line ending is lost. -/
  text_iff : t.text = s.text ↔ ¬ ['\n'] <:+ s.text.toList ∧ ¬ ['\r', '\n'] <:+: s.text.toList
  /-- Compiling the text of the set again would leave it with the same. -/
  kept : t.kept = s.reimport.1.kept

theorem restores_restored (h : s.inputs.IsNamed) : s.Restores s.restored where
  inputs := by
    rw [restored, importText, inputs_importLines]
    exact h.toList_ofList
  result := by rw [restored, importText, result_importLines, make]
  text := by rw [restored, importText, text_importLines]
  text_iff := by rw [restored, importText, text_importLines, Text.intercalate_lines_iff]
  kept := by rw [restored, reimport, importText, importText, kept_importLines, kept_importLines]

theorem kept_reimport (h : s.IsCurrent) : s.reimport.1.kept = s.kept := by
  rw [reimport, importText, kept_importLines, h]

end

theorem legible_toDocument {s : RuleSet Float} (h : s.All Faithful) :
    Json.Legible 8 s.toDocument := by
  have hinputs : Json.Legible 7 s.inputs.toDocument :=
    Json.legible_map fun v hv => Variable.legible_toDocument (h.1 v hv)
  have hresult : Json.Legible 7 s.result.toDocument := Variable.legible_toDocument h.2
  refine .object ?_
  simp [Json.Legible.string, hinputs, hresult]

/-! ## Texts -/

/-- The set that is read from the text of a set. -/
def reread (s : RuleSet Float) : Option (RuleSet Float) :=
  (Json.read? (Json.write s.toDocument)).bind ofDocument?

theorem reread_eq {s : RuleSet Float} (h : s.All Faithful) : s.reread = some s.restored := by
  have hfinite : s.All Finite :=
    ⟨fun v hv => (h.1 v hv).imp fun _ hx => hx.1, h.2.imp fun _ hx => hx.1⟩
  rw [reread, Json.read?_write (legible_toDocument h) (by decide)]
  exact ofDocument?_toDocument hfinite

/-- A set that is reached with faithful numbers is read from its text with its
    variables. The rule text is what its lines give back, and what it compiled is
    the same unless a line held a line feed. -/
theorem reread_restores {s : RuleSet Float} (hs : Reached (fun _ => True) s) (hn : s.All Faithful) :
    ∃ t, s.reread = some t ∧ s.Restores t ∧
      (Reached (fun line => '\n' ∉ line.toList) s →
        t.rules = s.rules ∧ t.aliases = s.aliases ∧ t.errors = s.errors) := by
  have hrestores := restores_restored hs.isNamed
  refine ⟨s.restored, reread_eq hn, hrestores, ?_⟩
  intro hlines
  have hkept := hrestores.kept
  rw [kept_reimport hlines.isCurrent] at hkept
  simpa [kept] using hkept

/-- A set of two variables over the unit interval with the rules of some lines. -/
def ofUnit (lines : List String) : RuleSet Float :=
  ((make (.ofList [⟨"x", 0, 1, .ofList [("low", .ramp)]⟩])
    ⟨"y", 0, 1, .ofList [("good", .ramp)]⟩).importLines
    lines).1

theorem reached_ofUnit {Line : String → Prop} {lines : List String}
    (h : ∀ line ∈ lines, Line line) : Reached Line (ofUnit lines) :=
  .importLines (.make (VariableStore.isNamed_ofList _) _) h

theorem all_ofUnit (lines : List String) : (ofUnit lines).All Faithful := by
  have hvariable : ∀ name membership,
      (⟨name, 0, 1, .ofList [(membership, .ramp)]⟩ : Variable Float).All Faithful := by
    intro name membership
    refine ⟨faithful_zero, faithful_one, ?_⟩
    intro e he
    rw [List.mem_singleton.1 he]
    exact ⟨⟨faithful_zero, faithful_zero⟩, ⟨faithful_one, faithful_one⟩⟩
  constructor
  · intro v hv
    rw [ofUnit, inputs_importLines] at hv
    rw [List.mem_singleton.1 hv]
    exact hvariable "x" "low"
  · rw [ofUnit, result_importLines]
    exact hvariable "y" "good"

/-- The lines of one rule, with a carriage return and an empty line that are
    lost. -/
def ruleLines : List String := ["IF x IS low\r", "THEN y IS good", ""]

/-- The rule is read back, and its text up to the line endings. -/
theorem reread_ofUnit :
    Reached (fun _ => True) (ofUnit ruleLines) ∧ (ofUnit ruleLines).All Faithful ∧
      ∃ t, (ofUnit ruleLines).reread = some t ∧ t.text = "IF x IS low\nTHEN y IS good" ∧
        t.rules = (ofUnit ruleLines).rules := by
  have hline : ∀ line ∈ ruleLines, '\n' ∉ line.toList := by decide
  have hreached : Reached (fun _ => True) (ofUnit ruleLines) := reached_ofUnit fun _ _ => trivial
  obtain ⟨t, ht, hrestores, hkept⟩ := reread_restores hreached (all_ofUnit ruleLines)
  refine ⟨hreached, all_ofUnit ruleLines, t, ht, ?_, (hkept (reached_ofUnit hline)).1⟩
  rw [hrestores.text, ofUnit, text_importLines]
  decide

/-- An empty line at the end is lost, and a line that was two lines compiles into
    another rule. -/
theorem reread_lostLines :
    (Reached (fun _ => True) (ofUnit ["IF x IS low THEN y IS good", ""]) ∧
      (ofUnit ["IF x IS low THEN y IS good", ""]).All Faithful ∧
      ∃ t, (ofUnit ["IF x IS low THEN y IS good", ""]).reread = some t ∧
        t.text ≠ (ofUnit ["IF x IS low THEN y IS good", ""]).text) ∧
    ∃ t, (ofUnit ["# a\nIF x IS low THEN y IS good"]).reread = some t ∧ t.rules.length = 1 ∧
      (ofUnit ["# a\nIF x IS low THEN y IS good"]).rules.length = 0 := by
  have hreached : Reached (fun _ => True) (ofUnit ["IF x IS low THEN y IS good", ""]) :=
    reached_ofUnit fun _ _ => trivial
  refine ⟨⟨hreached, all_ofUnit _, _, reread_eq (all_ofUnit _), ?_⟩, _,
    reread_eq (all_ofUnit _), ?_, ?_⟩
  · rw [Ne, (restores_restored hreached.isNamed).text_iff, ofUnit, text_importLines]
    decide
  · show (restored _).kept.rules.length = 1
    rw [restored, importText, kept_importLines, ofUnit, text_importLines]
    decide +kernel
  · show (ofUnit ["# a\nIF x IS low THEN y IS good"]).kept.rules.length = 0
    rw [ofUnit, kept_importLines]
    decide +kernel

end FuzzyInference.RuleSet
