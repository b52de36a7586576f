import FuzzyInference.Proofs.Rule.Completeness
import FuzzyInference.Scalar.Binary64

/-!
# Compiling is the grammar

Conditions compile in passes over nested items, the grammar derives them from
their words. Both agree, and so do the statements around the conditions: a rule
is `IF`, a condition up to the first `THEN`, and `result IS membership`; a
definition is `DEF`, a name, `IS` and a condition.

Results:

* `compile_iff_grammar`: what compiles, into which tree, and that nothing else
  does.
* `compile_negated_query`: a case of it on 64-bit numbers.
-/

namespace FuzzyInference.Condition

variable {α : Type} [Scalar α]

/-- Words spell a rule. The result and its membership may be any words. -/
inductive IsRule (aliases : AliasTable α) : List String → Expr α → String → String → Prop
  | rule {first ws e last result is membership} : first.toLower = "if" →
      (∀ w ∈ ws, w.toLower ≠ "then") → last.toLower = "then" → is.toLower = "is" →
      IsLevel aliases ws e →
      IsRule aliases (first :: (ws ++ [last, result, is, membership])) e result membership

/-- Words spell the definition of an alias. The name may be any word. -/
inductive IsDefinition (aliases : AliasTable α) : List String → String → Expr α → Prop
  | definition {first name is ws e} : first.toLower = "def" → is.toLower = "is" →
      IsLevel aliases ws e → IsDefinition aliases (first :: name :: is :: ws) name e

/-! ## Conditions -/

theorem compileCondition_iff {aliases : AliasTable α} (hcomma : aliases.get? "," = none)
    {ws : List String} {e : Expr α} :
    (∃ queries, compileCondition aliases ws = .ok (e, queries)) ↔ IsLevel aliases ws e := by
  constructor
  · rintro ⟨queries, h⟩
    exact isLevel_of_compileCondition h
  · exact compileCondition_of_isLevel hcomma

theorem IsLevel.unique {aliases : AliasTable α} (hcomma : aliases.get? "," = none)
    {ws : List String} {e e' : Expr α} (h : IsLevel aliases ws e) (h' : IsLevel aliases ws e') :
    e = e' := by
  obtain ⟨queries, hrun⟩ := compileCondition_of_isLevel hcomma h
  obtain ⟨queries', hrun'⟩ := compileCondition_of_isLevel hcomma h'
  rw [hrun] at hrun'
  cases hrun'
  rfl

/-! ## Statements -/

theorem readConclusion_eq_ok {ws : List String} {result membership : String} :
    readConclusion ws = .ok (result, membership) ↔
      ∃ is, ws = [result, is, membership] ∧ is.toLower = "is" := by
  unfold readConclusion
  split
  · rename_i result' is membership'
    by_cases his : is.toLower = "is"
    · simp only [isKeyword, his, beq_self_eq_true, if_true, Except.ok.injEq, Prod.mk.injEq]
      constructor
      · rintro ⟨rfl, rfl⟩
        exact ⟨is, rfl, his⟩
      · rintro ⟨is', heq, -⟩
        cases heq
        exact ⟨rfl, rfl⟩
    · simp only [isKeyword, beq_iff_eq, his, if_false]
      constructor
      · intro h
        cases h
      · rintro ⟨is', heq, his'⟩
        cases heq
        exact absurd his' his
  · rename_i hother
    constructor
    · intro h
      cases h
    · rintro ⟨is, rfl, -⟩
      exact absurd rfl (hother result is membership)

/-- The words before the first `THEN`, and the ones behind it. -/
theorem split_then {ws before : List String} {last : String} (conclusion : List String) :
    (ws.takeWhile (fun w => !isKeyword "then" w) = before ∧
      ws.dropWhile (fun w => !isKeyword "then" w) = last :: conclusion) ↔
      ws = before ++ last :: conclusion ∧ (∀ w ∈ before, w.toLower ≠ "then") ∧
        last.toLower = "then" := by
  constructor
  · rintro ⟨rfl, hdrop⟩
    refine ⟨?_, ?_, ?_⟩
    · rw [← hdrop, List.takeWhile_append_dropWhile]
    · intro w hw
      have hall : (ws.takeWhile fun w => !isKeyword "then" w).all
          (fun w => !isKeyword "then" w) = true :=
        List.all_takeWhile
      simpa [isKeyword] using List.all_eq_true.1 hall w hw
    · have hhead := List.head?_dropWhile_not (fun w => !isKeyword "then" w) ws
      rw [hdrop] at hhead
      simpa [isKeyword] using hhead
  · rintro ⟨rfl, hbefore, hlast⟩
    have hpos : ∀ w ∈ before, (!isKeyword "then" w) = true := by
      intro w hw
      simpa [isKeyword] using hbefore w hw
    rw [List.takeWhile_append_of_pos hpos, List.dropWhile_append_of_pos hpos]
    simp [isKeyword, hlast]

theorem compile_eq_ok {aliases : AliasTable α} (hcomma : aliases.get? "," = none) {line : String}
    {e : Expr α} {result membership : String} :
    (∃ r, Rule.compile aliases line = .ok r ∧ r.condition = e ∧ r.result = result ∧
        r.membership = membership) ↔
      IsRule aliases (Text.statementWords line) e result membership := by
  unfold Rule.compile
  constructor
  · rintro ⟨r, h, rfl, rfl, rfl⟩
    split at h
    · cases h
    · rename_i first ws hwords
      rw [hwords]
      cases hif : isKeyword "if" first with
      | false => simp [hif] at h
      | true =>
        simp only [hif, Bool.not_true, Bool.false_eq_true, if_false] at h
        split at h
        · cases h
        · rename_i last conclusion hdrop
          obtain ⟨⟨result, membership⟩, hconclusion, h⟩ := bind_eq_ok.1 h
          obtain ⟨⟨e, queries⟩, hcompile, h⟩ := bind_eq_ok.1 h
          cases h
          obtain ⟨is, rfl, his⟩ := readConclusion_eq_ok.1 hconclusion
          obtain ⟨hws, hbefore, hlast⟩ := (split_then _).1 ⟨rfl, hdrop⟩
          have hrule : IsRule aliases (first :: (ws.takeWhile (fun w => !isKeyword "then" w) ++
              [last, result, is, membership])) e result membership :=
            .rule (by simpa [isKeyword] using hif) hbefore hlast his
              (isLevel_of_compileCondition hcompile)
          rwa [← hws] at hrule
  · generalize Text.statementWords line = words
    intro h
    cases h with
    | @rule first ws e last result is membership hif hbefore hlast his hlevel =>
      obtain ⟨queries, hcompile⟩ := compileCondition_of_isLevel hcomma hlevel
      have hconclusion : readConclusion [result, is, membership] = .ok (result, membership) :=
        readConclusion_eq_ok.2 ⟨is, rfl, his⟩
      obtain ⟨htake, hdrop⟩ := (split_then [result, is, membership]).2
        ⟨rfl, hbefore, hlast⟩
      have hstart : isKeyword "if" first = true := by simpa [isKeyword] using hif
      refine ⟨⟨line, e, result, membership, .ofList queries⟩, ?_, rfl, rfl, rfl⟩
      simp [hstart, htake, hdrop, hconclusion, hcompile, bind, Except.bind, pure, Except.pure]

theorem compileAlias_eq_ok {aliases : AliasTable α} (hcomma : aliases.get? "," = none)
    {line name : String} {e : Expr α} :
    compileAlias aliases line = .ok (name, e) ↔
      IsDefinition aliases (Text.statementWords line) name e := by
  unfold compileAlias
  constructor
  · intro h
    split at h
    · cases h
    · rename_i first ws hwords
      rw [hwords]
      cases hdef : isKeyword "def" first with
      | false => simp [hdef] at h
      | true =>
        simp only [hdef, Bool.not_true, Bool.false_eq_true, if_false] at h
        split at h
        · rename_i name' is w ws
          split at h
          · rename_i his
            obtain ⟨⟨e', queries⟩, hcompile, h⟩ := bind_eq_ok.1 h
            cases h
            exact .definition (by simpa [isKeyword] using hdef) (by simpa [isKeyword] using his)
              (isLevel_of_compileCondition hcompile)
          · cases h
        · cases h
  · generalize Text.statementWords line = words
    intro h
    cases h with
    | @definition first name is ws e hdef his hlevel =>
      obtain ⟨queries, hcompile⟩ := compileCondition_of_isLevel hcomma hlevel
      match ws with
      | [] => cases hcompile
      | w :: ws =>
        simp [isKeyword, hdef, his, hcompile, bind, Except.bind, pure, Except.pure]

/-- The sign for `IS` reads like the word. -/
theorem statementWords_equals (line : String) :
    Text.statementWords (String.ofList (line.toList.flatMap fun c =>
      if c = '=' then [' ', 'i', 's', ' '] else [c])) = Text.statementWords line := by
  unfold Text.statementWords
  rw [String.toList_ofList, List.flatMap_assoc]
  congr 3
  funext c
  by_cases hc : c = '='
  · simp [hc, Text.spaced]
  · simp [hc]

/-- Under a table without an alias for the comma, words compile into a condition
    exactly if the grammar derives it from them. There is at most one such
    condition, and without one the words are refused. A line compiles into a rule or
    a definition exactly if its words spell one. -/
theorem compile_iff_grammar {aliases : AliasTable α} (hcomma : aliases.get? "," = none) :
    (∀ ws e, (∃ queries, compileCondition aliases ws = .ok (e, queries)) ↔ IsLevel aliases ws e) ∧
      (∀ ws e e', IsLevel aliases ws e → IsLevel aliases ws e' → e = e') ∧
      (∀ ws, (∀ e, ¬ IsLevel aliases ws e) →
        ∃ fault, compileCondition aliases ws = .error fault) ∧
      (∀ line e result membership,
        (∃ r, Rule.compile aliases line = .ok r ∧ r.condition = e ∧ r.result = result ∧
          r.membership = membership) ↔
          IsRule aliases (Text.statementWords line) e result membership) ∧
      (∀ line name e, compileAlias aliases line = .ok (name, e) ↔
        IsDefinition aliases (Text.statementWords line) name e) ∧
      ∀ line, Text.statementWords (String.ofList (line.toList.flatMap fun c =>
        if c = '=' then [' ', 'i', 's', ' '] else [c])) = Text.statementWords line := by
  refine ⟨?_, ?_, ?_, ?_, ?_, statementWords_equals⟩
  · intro ws e
    exact compileCondition_iff hcomma
  · intro ws e e' h h'
    exact h.unique hcomma h'
  · intro ws hnone
    cases hr : compileCondition aliases ws with
    | error fault => exact ⟨fault, rfl⟩
    | ok compiled =>
      obtain ⟨e, queries⟩ := compiled
      exact absurd (isLevel_of_compileCondition hr) (hnone e)
  · intro line e result membership
    exact compile_eq_ok hcomma
  · intro line name e
    exact compileAlias_eq_ok hcomma

/-- A negated query, with the sign for `IS`. -/
theorem compile_negated_query :
    ∃ r : Rule Float, Rule.compile .empty "IF x = NOT low THEN z IS mid" = .ok r ∧
      r.condition = .negation (.query "x" "low") ∧ r.result = "z" ∧ r.membership = "mid" := by
  have hwords : Text.statementWords "IF x = NOT low THEN z IS mid" =
      ["IF", "x", "is", "NOT", "low", "THEN", "z", "IS", "mid"] := by cbv
  have hkeywords : "IF".toLower = "if" ∧ "THEN".toLower = "then" ∧ "IS".toLower = "is" ∧
      "is".toLower = "is" ∧ "NOT".toLower = "not" ∧ "x".toLower = "x" ∧ "low".toLower = "low" := by
    refine ⟨?_, ?_, ?_, ?_, ?_, ?_, ?_⟩ <;> cbv
  obtain ⟨hif, hthen, hIS, his, hnot, hx, hlow⟩ := hkeywords
  have hlevel : IsLevel (.empty : AliasTable Float) ["x", "is", "NOT", "low"]
      (.negation (.query "x" "low")) :=
    .operand (.negated ⟨by simp [NotParenthesis], rfl, by simp [hx, Item.reserved]⟩
      ⟨by simp [NotParenthesis], rfl, his⟩ ⟨by simp [NotParenthesis], rfl, hnot⟩
      ⟨by simp [NotParenthesis], rfl, by simp [hlow, Item.reserved]⟩)
  have hspelled : IsRule (.empty : AliasTable Float)
      ("IF" :: (["x", "is", "NOT", "low"] ++ ["THEN", "z", "IS", "mid"]))
      (.negation (.query "x" "low")) "z" "mid" :=
    .rule hif (by simp [his, hnot, hx, hlow]) hthen hIS hlevel
  have hcomma : (.empty : AliasTable Float).get? "," = none := rfl
  obtain ⟨-, -, -, hrule, -⟩ := compile_iff_grammar hcomma
  refine (hrule _ _ _ _).2 ?_
  rw [hwords]
  exact hspelled

end FuzzyInference.Condition
