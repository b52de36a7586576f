import FuzzyInference.Proofs.Rule.Balance
import FuzzyInference.Proofs.Rule.Nesting
import FuzzyInference.Rule.Basic

/-!
# What compiles is in the grammar

Each item that a level is folded from stands for words: a word for itself, a
group for the words that compiled into it. A level that folds is well formed, and
the words behind its operands are operands of the grammar.

Results:

* `StandAll.foldCalls`: calls are folded without losing the words.
* `isLevel_of_foldLevel`: words whose items fold are a level.
* `isLevel_of_compileCondition`: words that compile are a level.
-/

namespace FuzzyInference.Condition

open Bracketed Item

variable {α : Type} [Scalar α]

/-! ## Items and words -/

/-- Words spell an item of a level, aliases being expanded. -/
inductive Stands (aliases : AliasTable α) : List String → Item α → Prop
  | word {w} : NotParenthesis w → aliases.get? w = none → Stands aliases [w] (.word w)
  | named {w e} : IsAlias aliases w e → Stands aliases [w] (.group [e])
  | group {ws es} : AreArguments aliases ws es → Stands aliases ("(" :: (ws ++ [")"])) (.group es)
  | callNamed {w f a e} : Calls aliases f w → IsAlias aliases a e →
      Stands aliases [w, a] (.done (.call f [e]))
  | call {w f ws es} : Calls aliases f w → AreArguments aliases ws es →
      Stands aliases (w :: "(" :: (ws ++ [")"])) (.done (.call f es))

/-- Words spell items one after the other. -/
inductive StandAll (aliases : AliasTable α) : List String → List (Item α) → Prop
  | nil : StandAll aliases [] []
  | cons {us x ws xs} : Stands aliases us x → StandAll aliases ws xs →
      StandAll aliases (us ++ ws) (x :: xs)

theorem StandAll.split {aliases : AliasTable α} {ws : List String} {xs ys : List (Item α)}
    (h : StandAll aliases ws (xs ++ ys)) :
    ∃ us vs, ws = us ++ vs ∧ StandAll aliases us xs ∧ StandAll aliases vs ys := by
  induction xs generalizing ws with
  | nil => exact ⟨[], ws, rfl, .nil, h⟩
  | cons x xs ih =>
    cases h with
    | @cons us _ ws _ hx hrest =>
      obtain ⟨us', vs, rfl, hxs, hys⟩ := ih hrest
      exact ⟨us ++ us', vs, by simp, .cons hx hxs, hys⟩

theorem StandAll.single {aliases : AliasTable α} {ws : List String} {x : Item α}
    (h : StandAll aliases ws [x]) : Stands aliases ws x := by
  cases h with
  | cons hx hrest =>
    cases hrest
    rwa [List.append_nil]

theorem Stands.eq_word {aliases : AliasTable α} {ws : List String} {w : String}
    (h : Stands aliases ws (.word w)) : ws = [w] ∧ NotParenthesis w ∧ aliases.get? w = none := by
  cases h with
  | word hw hnone => exact ⟨rfl, hw, hnone⟩

/-- A word in front of other items. -/
theorem StandAll.word_cons {aliases : AliasTable α} {ws : List String} {w : String}
    {xs : List (Item α)} (h : StandAll aliases ws (.word w :: xs)) :
    ∃ vs, ws = w :: vs ∧ NotParenthesis w ∧ aliases.get? w = none ∧ StandAll aliases vs xs := by
  cases h with
  | @cons _ _ vs _ hx hrest =>
    obtain ⟨rfl, hw, hnone⟩ := hx.eq_word
    exact ⟨vs, rfl, hw, hnone, hrest⟩

/-! ## Calls -/

theorem StandAll.foldCalls {aliases : AliasTable α} {ws : List String} {xs ys : List (Item α)}
    (h : StandAll aliases ws xs) (hcalls : Item.foldCalls xs = .ok ys) :
    StandAll aliases ws ys := by
  have hfolds := folds_of_foldCalls hcalls
  clear hcalls
  induction hfolds generalizing ws with
  | nil => exact h
  | keep _ ih =>
    cases h with
    | cons hx hxs => exact .cons hx (ih hxs)
  | @call w f args rest rest' hf _ ih =>
    obtain ⟨vs, rfl, hw, hnone, hxs⟩ := h.word_cons
    have hcall : Calls aliases f w := ⟨hw, hnone, RuleFunction.ofKeyword?_eq_some.1 hf⟩
    cases hxs with
    | cons hgroup hxs =>
      rw [← List.cons_append]
      cases hgroup with
      | named ha => exact .cons (.callNamed hcall ha) (ih hxs)
      | group hargs => exact .cons (.call hcall hargs) (ih hxs)

/-! ## Operands and levels -/

/-- An item that is a condition is an operand. -/
theorem Stands.isOperand {aliases : AliasTable α} {ws : List String} {x : Item α} {e : Expr α}
    (h : Stands aliases ws x) (he : x.toExpr = .ok e) : IsOperand aliases ws e := by
  cases h with
  | @word w hw hnone =>
    have hplain : IsPlain aliases w := ⟨hw, hnone, not_mem_reserved (not_isReserved_of_toExpr he)⟩
    cases hread : Scalar.read? (α := α) w with
    | none => simp [toExpr, hread] at he
    | some v =>
      simp only [toExpr, hread, Except.ok.injEq] at he
      subst he
      exact .number hplain hread
  | named ha =>
    cases he
    exact .named ha
  | @group ws es hargs =>
    cases es with
    | nil => cases he
    | cons e' es =>
      cases es with
      | nil =>
        cases he
        exact .group hargs.isLevel
      | cons _ _ => cases he
  | callNamed hcall ha =>
    cases he
    exact .callNamed hcall ha
  | call hcall hargs =>
    cases he
    exact .call hcall hargs

theorem isOperand_of_turned {aliases : AliasTable α} {ws : List String} {o : Phrase α} {e : Expr α}
    (h : StandAll aliases ws o.turned) (he : o.folded.toExpr = .ok e) : IsOperand aliases ws e := by
  cases o with
  | item x hx => exact h.single.isOperand he
  | query input is membership hinput his hmembership =>
    cases he
    obtain ⟨_, rfl, hw₁, hnone₁, h⟩ := h.word_cons
    obtain ⟨_, rfl, hw₂, hnone₂, h⟩ := h.word_cons
    obtain ⟨_, rfl, hw₃, hnone₃, h⟩ := h.word_cons
    cases h
    exact .query ⟨hw₁, hnone₁, hinput⟩ ⟨hw₂, hnone₂, his⟩ ⟨hw₃, hnone₃, hmembership⟩
  | negated input is not membership hinput his hnot hmembership =>
    cases he
    obtain ⟨_, rfl, hw₁, hnone₁, h⟩ := h.word_cons
    obtain ⟨_, rfl, hw₂, hnone₂, h⟩ := h.word_cons
    obtain ⟨_, rfl, hw₃, hnone₃, h⟩ := h.word_cons
    obtain ⟨_, rfl, hw₄, hnone₄, h⟩ := h.word_cons
    cases h
    exact .negated ⟨hw₁, hnone₁, hinput⟩ ⟨hw₂, hnone₂, his⟩ ⟨hw₃, hnone₃, hnot⟩
      ⟨hw₄, hnone₄, hmembership⟩

/-- Connectives and operands behind a level lengthen it. -/
theorem isLevel_of_following {aliases : AliasTable α} {us ws : List String} {js : List (Joint α)}
    {l e : Expr α} (hl : IsLevel aliases us l)
    (h : StandAll aliases ws (following Phrase.turned js)) (he : joined? l js = .ok e) :
    IsLevel aliases (us ++ ws) e := by
  induction js generalizing us ws l with
  | nil =>
    cases he
    cases h
    rwa [List.append_nil]
  | cons j js ih =>
    rw [following_cons] at h
    obtain ⟨vs, rfl, hw, hnone, h⟩ := h.word_cons
    obtain ⟨vs, vs', rfl, hoperand, hmore⟩ := h.split
    obtain ⟨r, hr, he⟩ := bind_eq_ok.1 he
    have hjoins : Joins aliases j.op j.word := ⟨hw, hnone, LogicOp.ofKeyword?_eq_some.1 j.names⟩
    have hlevel := ih (.join hl hjoins (isOperand_of_turned hoperand hr)) hmore he
    simpa using hlevel

theorem isLevel_of_foldLevel {aliases : AliasTable α} {ws : List String} {items : List (Item α)}
    {e : Expr α} {queries : List (String × String)}
    (h : StandAll aliases ws (items.map (expand aliases)))
    (hfold : foldLevel aliases items = .ok (e, queries)) : IsLevel aliases ws e := by
  obtain ⟨o, js, l, hcalls, hl, he⟩ := foldLevel_iff.1 ⟨queries, hfold⟩
  obtain ⟨us, vs, rfl, hoperand, hmore⟩ := (h.foldCalls hcalls).split
  exact isLevel_of_following (.operand (isOperand_of_turned hoperand hl)) hmore he

/-! ## Nested words -/

/-- A group compiles by its parts, unless it holds nothing at all. -/
theorem compileItem_group {aliases : AliasTable α} {parts : List (List Bracketed)}
    (h : parts ≠ [[]]) : compileItem aliases (.group parts) =
      (compileParts aliases parts).map fun (es, queries) => (.group es, queries) := by
  rw [compileItem.eq_def]
  split
  · rename_i heq
    cases heq
  · rename_i heq
    cases heq
    exact absurd rfl h
  · rename_i heq
    cases heq
    rcases compileParts aliases parts with fault | ⟨es, queries⟩ <;> rfl

/-- A part compiles if it is not empty and its level folds. -/
theorem compileParts_cons {aliases : AliasTable α} {bs : List Bracketed}
    {parts : List (List Bracketed)} {es : List (Expr α)} {queries : List (String × String)} :
    compileParts aliases (bs :: parts) = .ok (es, queries) ↔
      bs ≠ [] ∧ ∃ items inner e own es' rest, compileItems aliases bs = .ok (items, inner) ∧
        foldLevel aliases items = .ok (e, own) ∧ compileParts aliases parts = .ok (es', rest) ∧
        es = e :: es' ∧ queries = inner ++ own ++ rest := by
  rw [compileParts.eq_def]
  cases bs with
  | nil => simp [throw, throwThe, MonadExceptOf.throw, bind, Except.bind]
  | cons b bs =>
    constructor
    · intro h
      obtain ⟨⟨items, inner⟩, hitems, h⟩ := bind_eq_ok.1 h
      obtain ⟨⟨e, own⟩, hfold, h⟩ := bind_eq_ok.1 h
      obtain ⟨⟨es', rest⟩, hparts, h⟩ := bind_eq_ok.1 h
      cases h
      exact ⟨by simp, items, inner, e, own, es', rest, hitems, hfold, hparts, rfl, rfl⟩
    · rintro ⟨-, items, inner, e, own, es', rest, hitems, hfold, hparts, rfl, rfl⟩
      simp [hitems, hfold, hparts, bind, Except.bind, pure, Except.pure]

mutual

theorem stands_of_compileItem {aliases : AliasTable α} {b : Bracketed} {ws : List String}
    {x : Item α} {queries : List (String × String)} (h : Spells NotParenthesis b ws)
    (hx : compileItem aliases b = .ok (x, queries)) : Stands aliases ws (x.expand aliases) :=
  match h with
  | @Spells.word _ w hw => by
    cases hx
    cases hget : aliases.get? w with
    | none => simpa [expand, hget] using Stands.word hw hget
    | some e => simpa [expand, hget] using Stands.named ⟨hw, hget⟩
  | @Spells.group _ parts ws hparts => by
    by_cases hempty : parts = [[]]
    · subst hempty
      cases hx
      cases hparts with
      | last hnil =>
        cases hnil
        exact .group .none
      | more _ hmore => cases hmore
    · rw [compileItem_group hempty] at hx
      cases hes : compileParts aliases parts with
      | error fault => simp [hes, Except.map] at hx
      | ok compiled =>
        simp only [hes, Except.map, Except.ok.injEq, Prod.mk.injEq] at hx
        rw [← hx.1]
        exact .group (.some (areParts_of_compileParts hparts hes))

theorem standAll_of_compileItems {aliases : AliasTable α} {bs : List Bracketed} {ws : List String}
    {items : List (Item α)} {queries : List (String × String)}
    (h : SpellsItems NotParenthesis bs ws)
    (hitems : compileItems aliases bs = .ok (items, queries)) :
    StandAll aliases ws (items.map (expand aliases)) :=
  match h with
  | .nil => by
    cases hitems
    exact .nil
  | .cons hb hbs => by
    rw [compileItems.eq_def] at hitems
    obtain ⟨⟨x, q₁⟩, hx, hitems⟩ := bind_eq_ok.1 hitems
    obtain ⟨⟨xs, q₂⟩, hxs, hitems⟩ := bind_eq_ok.1 hitems
    cases hitems
    exact .cons (stands_of_compileItem hb hx) (standAll_of_compileItems hbs hxs)

theorem areParts_of_compileParts {aliases : AliasTable α} {parts : List (List Bracketed)}
    {ws : List String} {es : List (Expr α)} {queries : List (String × String)}
    (h : SpellsParts NotParenthesis parts ws)
    (hes : compileParts aliases parts = .ok (es, queries)) : AreParts aliases ws es :=
  match h with
  | .last hbs => by
    obtain ⟨-, items, _, e, _, es', _, hitems, hfold, hparts, rfl, rfl⟩ := compileParts_cons.1 hes
    cases hparts
    exact .last (isLevel_of_foldLevel (standAll_of_compileItems hbs hitems) hfold)
  | .more hbs hmore => by
    obtain ⟨-, items, _, e, _, es', _, hitems, hfold, hparts, rfl, rfl⟩ := compileParts_cons.1 hes
    exact .more (isLevel_of_foldLevel (standAll_of_compileItems hbs hitems) hfold)
      (areParts_of_compileParts hmore hparts)

end

/-- Words that compile into a condition are a level of the grammar. -/
theorem isLevel_of_compileCondition {aliases : AliasTable α} {ws : List String} {e : Expr α}
    {queries : List (String × String)} (h : compileCondition aliases ws = .ok (e, queries)) :
    IsLevel aliases ws e := by
  obtain ⟨⟨bs, stray⟩, hwords, h⟩ := bind_eq_ok.1 h
  obtain ⟨⟨items, inner⟩, hitems, h⟩ := bind_eq_ok.1 h
  cases stray with
  | true => cases h
  | false =>
    obtain ⟨⟨e', own⟩, hfold, h⟩ := bind_eq_ok.1 h
    cases h
    exact isLevel_of_foldLevel (standAll_of_compileItems (spells_of_ofWords hwords) hitems) hfold

end FuzzyInference.Condition
