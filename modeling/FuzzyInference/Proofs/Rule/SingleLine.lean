import FuzzyInference.Proofs.Rule.ImportLines
import FuzzyInference.Proofs.Rule.Statement
import FuzzyInference.Proofs.Text.Signs

/-!
# Lines that are rules

Importing looks for statements by the words between blanks, and compiling reads
words in which parentheses, commas and `=` stand apart. So the two may disagree
where a statement starts: `IF` with a parenthesis right behind it is a word of
its own for compiling, but a part of a longer word for importing.

Results:

* `starts_of_compile`: a line that compiles starts with `IF`, or with `IF(`.
* `ofLines_singleton_iff`: a line is imported as a rule exactly if it compiles
  and starts with the word `IF`.
* `ofLines_unspaced`: a line that compiles and is not imported.
-/

namespace FuzzyInference

namespace Condition

variable {α : Type}

/-! ## How conditions start -/

/-- A word that a condition may start with. -/
structure StartsLevel (w : String) : Prop where
  ne_closing : w ≠ ")"
  ne_comma : w ≠ ","
  ne_is : w.toLower ≠ "is"

theorem IsPlain.startsLevel {w : String} (h : IsPlain (.empty : AliasTable α) w) :
    StartsLevel w where
  ne_closing := h.1.2
  ne_comma := h.ordinary.2.2
  ne_is e := h.2.2 (by simp [e, Item.reserved])

theorem Calls.startsLevel {f : RuleFunction} {w : String} (h : Calls (.empty : AliasTable α) f w) :
    StartsLevel w := by
  obtain ⟨hsum, hproduct, hgamma⟩ := RuleFunction.toLower_keyword
  have hkeyword : f.keyword.toLower ∈ ["sum", "product", "gamma"] := by cases f <;> simp [*]
  have hlower := h.2.2
  refine ⟨h.1.2, ?_, ?_⟩
  · rintro rfl
    rw [← hlower, Item.toLower_comma] at hkeyword
    simp at hkeyword
  · intro e
    rw [← hlower, e] at hkeyword
    simp at hkeyword

variable [Scalar α]

theorem IsOperand.starts {ws : List String} {e : Expr α} (h : IsOperand .empty ws e) :
    ∃ w more, ws = w :: more ∧ StartsLevel w := by
  cases h with
  | query hinput _ _ => exact ⟨_, _, rfl, hinput.startsLevel⟩
  | negated hinput _ _ _ => exact ⟨_, _, rfl, hinput.startsLevel⟩
  | number hw _ => exact ⟨_, _, rfl, hw.startsLevel⟩
  | named hw => cases hw.2
  | group _ =>
    have hlower : "(".toLower = "(" := by cbv
    exact ⟨_, _, rfl, by decide, by decide, by rw [hlower]; decide⟩
  | callNamed hw _ => exact ⟨_, _, rfl, Calls.startsLevel hw⟩
  | call hw _ => exact ⟨_, _, rfl, Calls.startsLevel hw⟩

theorem IsLevel.starts {ws : List String} {e : Expr α} (h : IsLevel .empty ws e) :
    ∃ w more, ws = w :: more ∧ StartsLevel w :=
  match h with
  | .operand hoperand => hoperand.starts
  | .join hlevel _ _ => by
    obtain ⟨w, more, rfl, hw⟩ := hlevel.starts
    exact ⟨w, _, rfl, hw⟩

/-- A rule has `IF` and the start of a condition behind it. -/
theorem words_of_compile {line : String} {r : Rule α} (h : Rule.compile .empty line = .ok r) :
    ∃ first second more, Text.statementWords line = first :: second :: more ∧ first.toLower = "if" ∧
      StartsLevel second := by
  have hcomma : (.empty : AliasTable α).get? "," = none := rfl
  have hrule := (compile_eq_ok hcomma).1 ⟨r, h, rfl, rfl, rfl⟩
  generalize Text.statementWords line = words at hrule ⊢
  cases hrule with
  | rule hif _ _ _ hlevel =>
    obtain ⟨w, more, rfl, hw⟩ := hlevel.starts
    exact ⟨_, w, _, rfl, hif, hw⟩

end Condition

/-! ## How lines start -/

/-- A word that starts with `IF` and an opening parenthesis. -/
def StartsUnspaced (w : String) : Prop := ['i', 'f', '('] <+: w.toList.map Char.toLower

theorem StartsUnspaced.toLower_ne {w keyword : String} (h : StartsUnspaced w)
    (hkeyword : ¬ ['i', 'f', '('] <+: keyword.toList) : w.toLower ≠ keyword := by
  rintro rfl
  exact hkeyword (String.toList_map ▸ h)

theorem toLower_eq_if {cs : List Char} (h : (String.ofList cs).toLower = "if") :
    ∃ c d, cs = [c, d] ∧ c.toLower = 'i' ∧ d.toLower = 'f' := by
  have hchars : cs.map Char.toLower = ['i', 'f'] := by
    rw [← String.toList_ofList (l := cs), ← String.toList_map]
    exact congrArg String.toList h
  obtain ⟨c, rest, rfl, hc, hrest⟩ := List.map_eq_cons_iff.1 hchars
  obtain ⟨d, rest, rfl, hd, hrest⟩ := List.map_eq_cons_iff.1 hrest
  rw [List.map_eq_nil_iff.1 hrest]
  exact ⟨c, d, rfl, hc, hd⟩

open Text Condition

theorem toLower_of_signWord? {c : Char} {w : List Char} (h : signWord? c = some w) :
    (String.ofList w).toLower ≠ "if" := by
  intro hlower
  obtain ⟨d, e, rfl, -, he⟩ := toLower_eq_if hlower
  unfold signWord? at h
  split at h
  · cases h
    exact absurd he (by decide)
  · split at h <;> cases h

/-- The only sign that a condition may start with is an opening parenthesis. -/
theorem eq_opening_of_startsLevel {c : Char} {w : List Char} (h : signWord? c = some w)
    (hw : StartsLevel (String.ofList w)) : c = '(' := by
  unfold signWord? at h
  split at h
  · cases h
    have his : (String.ofList ['i', 's']).toLower = "is" := by cbv
    exact absurd his hw.ne_is
  · split at h
    · rename_i hsign
      cases h
      rcases hsign with rfl | rfl | rfl
      · rfl
      · exact absurd rfl hw.ne_closing
      · exact absurd rfl hw.ne_comma
    · cases h

/-- The first word of a text spells `IF` and the start of a condition behind it only
    if it is `IF`, or starts with it and a parenthesis. -/
theorem first_of_spelled {w first second : List Char} {rest more : List (List Char)} (hne : w ≠ [])
    (hw : ∀ c ∈ w, isBlank c = false)
    (h : wordsOf (w.flatMap spaced) ++ rest = first :: second :: more)
    (hfirst : (String.ofList first).toLower = "if") (hsecond : StartsLevel (String.ofList second)) :
    (String.ofList w).toLower = "if" ∨ StartsUnspaced (String.ofList w) := by
  obtain ⟨back, hsplit, hback⟩ := splitWord_spelled hw
  rw [wordsOf_eq] at h
  by_cases hfront : (splitWord (w.flatMap spaced)).1 = []
  · -- The word starts with a sign, and no sign spells `IF`.
    rw [hfront, List.nil_append] at hsplit
    rcases hback with hnil | ⟨c, cs, v, -, hsign, hmore⟩
    · exact absurd (hsplit.trans hnil) hne
    · rw [if_pos hfront, hmore] at h
      obtain ⟨rfl, -⟩ := List.cons.inj h
      exact absurd hfirst (toLower_of_signWord? hsign)
  · rw [if_neg hfront] at h
    obtain ⟨rfl, hrest⟩ := List.cons.inj h
    rcases hback with rfl | ⟨c, cs, v, rfl, hsign, hmore⟩
    · left
      rw [List.append_nil] at hsplit
      rwa [← hsplit] at hfirst
    · -- A sign ends `IF`, so it is what the condition starts with.
      right
      rw [hmore] at hrest
      obtain ⟨rfl, -⟩ := List.cons.inj hrest
      obtain ⟨i, f, hif, hi, hf⟩ := toLower_eq_if hfirst
      rw [hsplit, hif, eq_opening_of_startsLevel hsign hsecond, StartsUnspaced,
        String.toList_ofList]
      exact ⟨cs.map Char.toLower, by simp [hi, hf]⟩

variable {α : Type} [Scalar α]

/-- A line that compiles starts with the word `IF`, or with a word that has a
    parenthesis behind it. -/
theorem starts_of_compile {line : String} {r : Rule α} (h : Rule.compile .empty line = .ok r) :
    ∃ w more, words line = w :: more ∧ (w.toLower = "if" ∨ StartsUnspaced w) := by
  obtain ⟨first, second, more, hwords, hfirst, hsecond⟩ := words_of_compile h
  unfold statementWords at hwords
  obtain ⟨cs, css, hcs, rfl, hrest⟩ := List.map_eq_cons_iff.1 hwords
  obtain ⟨ds, dss, rfl, rfl, -⟩ := List.map_eq_cons_iff.1 hrest
  cases hline : wordsOf line.toList with
  | nil =>
    have hblank := wordsOf_eq_nil.1 hline
    rw [spaced_blanks hblank, hline] at hcs
    cases hcs
  | cons w ws =>
    obtain ⟨rest, hrest⟩ := statementWordsOf_cons hline
    have hmem : w ∈ wordsOf line.toList := hline ▸ List.mem_cons_self
    refine ⟨String.ofList w, ws.map String.ofList, by rw [words, hline]; rfl, ?_⟩
    exact first_of_spelled (words_ne_nil hmem) (words_no_blank hmem) (hrest ▸ hcs) hfirst hsecond

/-! ## Imports of one line -/

/-- Lines of equal words compile into rules that differ in their source only. -/
theorem Rule.compile_congr {aliases : AliasTable α} {line line' : String}
    (h : statementWords line = statementWords line') :
    Rule.compile aliases line' = (Rule.compile aliases line).map fun r =>
      { r with source := line' } := by
  unfold Rule.compile
  rw [h]
  cases statementWords line' with
  | nil => rfl
  | cons first ws =>
    dsimp only
    split
    · rfl
    · cases ws.dropWhile fun w => !isKeyword "then" w with
      | nil => rfl
      | cons last conclusion =>
        dsimp only
        generalize readConclusion conclusion = names
        generalize compileCondition aliases (ws.takeWhile fun w => !isKeyword "then" w) = compiled
        cases names <;> cases compiled <;> rfl

theorem startedBy?_trim (line : String) : startedBy? (trim line) = startedBy? line := by
  rw [startedBy?, words_trim, startedBy?]

theorem startedBy?_of_words {line w : String} {more : List String} (h : words line = w :: more) :
    startedBy? line =
      if w.toLower = "def" then some .alias else if w.toLower = "if" then some .rule else none := by
  simp [startedBy?, h, isKeyword]

theorem trimmed_ne_nil {line w : String} {more : List String} (h : words line = w :: more) :
    trimmed line.toList ≠ [] := by
  intro hnil
  rw [words, ← wordsOf_trimmed, hnil] at h
  cases h

theorem statements_blank {line : String} (h : '#' ∉ line.toList) (hnil : trimmed line.toList = []) :
    statements [line] = ([], []) := by
  have hclean : cleanLine? line = none := by
    rw [cleanLine?_eq, uncommented_of_not_mem h, if_pos hnil]
  rw [statements, List.filterMap_cons_none hclean]
  rfl

theorem statements_singleton {line : String} (h : '#' ∉ line.toList)
    (hne : trimmed line.toList ≠ []) :
    statements [line] =
      match startedBy? line with
      | some kind => ([], [(kind, trim line)])
      | none => ([trim line], []) := by
  have hclean : cleanLine? line = some (trim line) := by
    rw [cleanLine?_eq, uncommented_of_not_mem h, if_neg hne]
    rfl
  rw [statements, List.filterMap_cons_some hclean, List.filterMap_nil, statementsFrom,
    startedBy?_trim]
  cases startedBy? line <;> rfl

/-- What a line without a comment is imported as. -/
theorem ofLines_singleton {line : String} (h : '#' ∉ line.toList) (hne : trimmed line.toList ≠ []) :
    (RuleImport.ofLines [line] : RuleImport α) =
      match startedBy? line with
      | some .rule =>
        match Rule.compile .empty (trim line) with
        | .ok r => ⟨[r], .empty, []⟩
        | .error fault => ⟨[], .empty, [.located fault .rule 1 (trim line)]⟩
      | some .alias =>
        match compileAlias .empty (trim line) with
        | .ok (name, e) => ⟨[], .insert .empty name e, []⟩
        | .error fault => ⟨[], .empty, [.located fault .alias 1 (trim line)]⟩
      | none => ⟨[], .empty, [unboundError (trim line)]⟩ := by
  rw [RuleImport.ofLines, statements_singleton h hne]
  rcases startedBy? line with _ | (_ | _)
  · rfl
  · simp only [numbered, ofKind, List.filterMap_cons, List.filterMap_nil, reduceCtorEq,
      if_false, if_true, List.zipIdx_nil, List.zipIdx_cons, importAliases,
      importRules, List.map_nil]
    cases (compileAlias .empty (trim line) : Except CompileFault (String × Expr α)) <;> rfl
  · simp only [numbered, ofKind, List.filterMap_cons, List.filterMap_nil, reduceCtorEq,
      if_false, if_true, List.zipIdx_nil, List.zipIdx_cons, importAliases,
      importRules, List.map_nil]
    cases (Rule.compile .empty (trim line) : Except CompileFault (Rule α)) <;> rfl

theorem ofLines_eq_rule_iff {line : String} (h : '#' ∉ line.toList) (r : Rule α) :
    RuleImport.ofLines [line] = ⟨[r], .empty, []⟩ ↔
      startedBy? line = some .rule ∧
        ∃ own, Rule.compile .empty line = .ok own ∧ r = { own with source := trim line } := by
  by_cases hnil : trimmed line.toList = []
  · have hnone : startedBy? line = none := by rw [startedBy?, words, ← wordsOf_trimmed, hnil]; rfl
    rw [RuleImport.ofLines, statements_blank h hnil, hnone]
    constructor
    · intro heq
      cases heq
    · rintro ⟨heq, -⟩
      cases heq
  · rw [ofLines_singleton h hnil]
    rcases startedBy? line with _ | (_ | _)
    · simp
    · cases (compileAlias .empty (trim line) : Except CompileFault (String × Expr α)) <;> simp
    · rw [Rule.compile_congr (statementWords_trim line).symm]
      cases (Rule.compile .empty line : Except CompileFault (Rule α)) with
      | error fault => simp [Except.map]
      | ok own => simp [Except.map, eq_comm]

/-- A line without a comment is imported as one rule exactly if it compiles and its
    first word between blanks is `IF`, and then both rules are the same. A line that
    compiles and starts otherwise has a parenthesis right behind its `IF`, and is
    refused. -/
theorem ofLines_singleton_iff {line : String} (h : '#' ∉ line.toList) :
    (∀ r : Rule α, RuleImport.ofLines [line] = ⟨[r], .empty, []⟩ ↔
      startedBy? line = some .rule ∧
        ∃ own, Rule.compile .empty line = .ok own ∧ r = { own with source := trim line }) ∧
    ∀ own : Rule α, Rule.compile .empty line = .ok own → startedBy? line = some .rule ∨
      (∃ w more, words line = w :: more ∧ StartsUnspaced w) ∧
        (RuleImport.ofLines [line] : RuleImport α) = ⟨[], .empty, [unboundError (trim line)]⟩ := by
  refine ⟨ofLines_eq_rule_iff h, fun own hown => ?_⟩
  obtain ⟨w, more, hwords, hif | hunspaced⟩ := starts_of_compile hown
  · left
    rw [startedBy?_of_words hwords, hif]
    rfl
  · right
    have hnone : startedBy? line = none := by
      rw [startedBy?_of_words hwords, if_neg (hunspaced.toLower_ne (by decide)),
        if_neg (hunspaced.toLower_ne (by decide))]
    exact ⟨⟨w, more, hwords, hunspaced⟩, by rw [ofLines_singleton h (trimmed_ne_nil hwords), hnone]⟩

/-- A rule that stands in parentheses. -/
def ruleInParentheses (source : String) : Rule Float :=
  ⟨source, .query "x" "low", "y", "good", .ofList [("x", "low")]⟩

/-- With a blank before the parenthesis the line is imported. -/
theorem ofLines_spaced :
    '#' ∉ "  IF (x IS low) THEN y=good".toList ∧
      RuleImport.ofLines ["  IF (x IS low) THEN y=good"] =
        ⟨[ruleInParentheses "IF (x IS low) THEN y=good"], .empty, []⟩ := by
  have hsign : '#' ∉ "  IF (x IS low) THEN y=good".toList := by decide
  have hcompiles : Rule.compile .empty "  IF (x IS low) THEN y=good" =
      .ok (ruleInParentheses "  IF (x IS low) THEN y=good") := by cbv
  exact ⟨hsign, ((ofLines_singleton_iff hsign).1 _).2 ⟨by cbv, _, hcompiles, by cbv⟩⟩

/-- Without a blank before the parenthesis the line still compiles, but it is not
    imported. -/
theorem ofLines_unspaced :
    '#' ∉ "IF(x IS low) THEN y IS good".toList ∧ '\n' ∉ "IF(x IS low) THEN y IS good".toList ∧
      Rule.compile .empty "IF(x IS low) THEN y IS good" =
        .ok (ruleInParentheses "IF(x IS low) THEN y IS good") ∧
      ¬ ∃ r : Rule Float, RuleImport.ofLines ["IF(x IS low) THEN y IS good"] =
        ⟨[r], .empty, []⟩ := by
  have hsign : '#' ∉ "IF(x IS low) THEN y IS good".toList := by decide
  have hnone : startedBy? "IF(x IS low) THEN y IS good" = none := by cbv
  refine ⟨hsign, by decide, by cbv, ?_⟩
  rintro ⟨r, hr⟩
  have hrule := ((ofLines_eq_rule_iff hsign r).1 hr).1
  rw [hnone] at hrule
  cases hrule

end FuzzyInference
