import FuzzyInference.Proofs.Rule.Completeness
import FuzzyInference.Proofs.Text.LowerCase
import FuzzyInference.Scalar.Binary64

/-!
# Aliases are parenthesised text

An alias is looked up in the middle of compiling, between the nesting of words
and the folding of calls. It might as well be replaced by its words in
parentheses before anything else: the same conditions compile, and the others
are refused for the same reason.

Results:

* `build_substitute` and `ofWords_substitute`: nesting commutes with replacing.
* `compileItems_replaced`: the items of a level are the same behind aliases.
* `compile_insert`: an added alias compiles like its words in parentheses.
* `compile_insert_name`: a case of it on 64-bit numbers.
-/

namespace FuzzyInference.Condition

open Bracketed Item

/-- Words in which a name, in any letter case, gives way to a body in
    parentheses. -/
def substitute (name : String) (body : List String) (ws : List String) : List String :=
  ws.flatMap fun w =>
    if Text.lower w = Text.lower name then "(" :: (body ++ [")"]) else [w]

mutual

/-- An item in which a name gives way to a group. -/
def replaceItem (name : String) (body : List Bracketed) : Bracketed → Bracketed
  | .word w => if Text.lower w = Text.lower name then .group [body] else .word w
  | .group parts => .group (replaceParts name body parts)

/-- Items in which a name gives way to a group. -/
def replaceItems (name : String) (body : List Bracketed) : List Bracketed → List Bracketed
  | [] => []
  | b :: bs => replaceItem name body b :: replaceItems name body bs

/-- Parts in which a name gives way to a group. -/
def replaceParts (name : String) (body : List Bracketed) :
    List (List Bracketed) → List (List Bracketed)
  | [] => []
  | bs :: parts => replaceItems name body bs :: replaceParts name body parts

end

theorem replaceItems_eq_map (name : String) (body bs : List Bracketed) :
    replaceItems name body bs = bs.map (replaceItem name body) := by
  induction bs with
  | nil => rfl
  | cons b bs ih => rw [replaceItems, ih, List.map_cons]

theorem replaceParts_eq_map (name : String) (body : List Bracketed)
    (parts : List (List Bracketed)) :
    replaceParts name body parts = parts.map (replaceItems name body) := by
  induction parts with
  | nil => rfl
  | cons bs parts ih => rw [replaceParts, ih, List.map_cons]

theorem replaceItem_group (name : String) (body : List Bracketed) (parts : List (List Bracketed)) :
    replaceItem name body (.group parts) =
      .group (parts.map (List.map (replaceItem name body))) := by
  rw [replaceItem, replaceParts_eq_map]
  congr 2
  funext bs
  exact replaceItems_eq_map name body bs

/-! ## Nesting -/

/-- An open group in which a name gives way to a group. -/
def replaceOpen (name : String) (body : List Bracketed) (o : Open) : Open :=
  ⟨o.before.map (replaceItem name body), o.parts.map (List.map (replaceItem name body))⟩

/-- A level in which a name gives way to a group. -/
def replaceLevel (name : String) (body : List Bracketed) (level : Level) : Level :=
  ⟨level.items.map (replaceItem name body), level.stray⟩

theorem substitute_cons_of_eq {name w : String} (hw : Text.lower w = Text.lower name)
    (body ws : List String) :
    substitute name body (w :: ws) = "(" :: (body ++ [")"]) ++ substitute name body ws := by
  simp [substitute, hw]

theorem substitute_cons_of_ne {name w : String} (hw : Text.lower w ≠ Text.lower name)
    (body ws : List String) :
    substitute name body (w :: ws) = w :: substitute name body ws := by
  simp [substitute, hw]

/-- A text with the lower case of an ordinary word is ordinary. -/
theorem ordinary_of_lower {name w : String} (hname : Ordinary name)
    (hw : Text.lower w = Text.lower name) : Ordinary w := by
  have hmark : ∀ c : Char, 0 < c.toNat ∧ c.toNat < 65 → w = String.ofList [c] →
      name = String.ofList [c] := by
    intro c hc heq
    refine Text.lower_eq_symbol hc ?_
    rw [← hw, heq, Text.lower_symbol hc.2]
  refine ⟨?_, ?_, ?_⟩
  · intro h
    exact hname.1 (hmark '(' (by decide) h)
  · intro h
    exact hname.2.1 (hmark ')' (by decide) h)
  · intro h
    exact hname.2.2 (hmark ',' (by decide) h)

/-- Nesting the replaced words is nesting the words and replacing the items. -/
theorem build_substitute {name : String} {words : List String} {body : List Bracketed}
    (hname : Ordinary name) (hbody : SpellsItems Ordinary body words) (here : List Bracketed)
    (parts : List (List Bracketed)) (opened : List Open) (ws : List String) :
    build (here.map (replaceItem name body)) (parts.map (List.map (replaceItem name body)))
        (opened.map (replaceOpen name body)) (substitute name words ws) =
      (build here parts opened ws).map (replaceLevel name body) := by
  induction ws generalizing here parts opened with
  | nil =>
    cases opened with
    | nil => simp [substitute, build, Except.map, replaceLevel]
    | cons o rest => simp [substitute, build, Except.map]
  | cons w ws ih =>
    by_cases hw : Text.lower w = Text.lower name
    -- The words in parentheses nest in one step, into the item that replaces the name.
    · have hgroup : Spells Ordinary (.group [body]) ("(" :: (words ++ [")"])) :=
        .group (.last hbody)
      have hword : replaceItem name body (.word w) = .group [body] := by simp [replaceItem, hw]
      rw [substitute_cons_of_eq hw, hgroup.build, build_word (ordinary_of_lower hname hw), ← ih,
        List.map_cons, hword]
    · rw [substitute_cons_of_ne hw]
      have hword : replaceItem name body (.word w) = .word w := by simp [replaceItem, hw]
      by_cases hopen : w = "("
      · have hstep := ih [] [] (⟨here, parts⟩ :: opened)
        rw [hopen, build_opening, build_opening]
        exact hstep
      · by_cases hclose : w = ")"
        · cases opened with
          | nil => simp [build, hclose, Except.map, replaceLevel]
          | cons o rest =>
            have hstep := ih (.group (here.reverse :: parts).reverse :: o.before) o.parts rest
            simpa [build, hclose, replaceOpen, replaceItem_group] using hstep
        · by_cases hcomma : w = ","
          · cases opened with
            | nil =>
              have hstep := ih (.word w :: here) parts []
              rw [List.map_cons, hword] at hstep
              simpa [build, hcomma] using hstep
            | cons o rest =>
              have hstep := ih [] (here.reverse :: parts) (o :: rest)
              simpa [build, hcomma] using hstep
          · rw [build_word ⟨hopen, hclose, hcomma⟩, build_word ⟨hopen, hclose, hcomma⟩, ← ih,
              List.map_cons, hword]

/-! ## Counting -/

theorem count_substitute {name : String} {words : List String} (hname : Ordinary name)
    (hwords : Balanced words) (ws : List String) :
    ∃ k, (substitute name words ws).countP (· == "(") = ws.countP (· == "(") + k ∧
      (substitute name words ws).countP (· == ")") = ws.countP (· == ")") + k := by
  induction ws with
  | nil => exact ⟨0, rfl, rfl⟩
  | cons w ws ih =>
    obtain ⟨k, hopening, hclosing⟩ := ih
    by_cases hw : Text.lower w = Text.lower name
    · have hgroup : Balanced ("(" :: (words ++ [")"])) := hwords.parentheses
      have hword := ordinary_of_lower hname hw
      refine ⟨("(" :: (words ++ [")"])).countP (· == "(") + k, ?_, ?_⟩
      · rw [substitute_cons_of_eq hw, List.countP_append, hopening]
        simp [hword.1]
        omega
      · rw [substitute_cons_of_eq hw, List.countP_append, hclosing, ← hgroup]
        simp [hword.2.1]
        omega
    · refine ⟨k, ?_, ?_⟩
      · rw [substitute_cons_of_ne hw, List.countP_cons, List.countP_cons, hopening]
        omega
      · rw [substitute_cons_of_ne hw, List.countP_cons, List.countP_cons, hclosing]
        omega

/-- The words nest into the same level, with the name replaced, or are refused as
    before. -/
theorem ofWords_substitute {name : String} {words : List String} {body : List Bracketed}
    (hname : Ordinary name) (hbody : SpellsItems Ordinary body words) (ws : List String) :
    ofWords (substitute name words ws) = (ofWords ws).map (replaceLevel name body) := by
  obtain ⟨k, hopening, hclosing⟩ := count_substitute hname hbody.balanced ws
  have hbuild := build_substitute hname hbody [] [] [] ws
  simp only [List.map_nil] at hbuild
  simp only [ofWords, hopening, hclosing, hbuild, Nat.add_lt_add_iff_right]
  split
  · rfl
  · split <;> rfl

/-! ## Compiling -/

variable {α : Type} [Scalar α]

/-- Two results agree behind their views exactly if both are the same error or both
    views agree. -/
theorem map_eq_map {ε β γ δ : Type} {x : Except ε β} {y : Except ε γ} {f : β → δ} {g : γ → δ} :
    x.map f = y.map g ↔
      (∃ fault, x = .error fault ∧ y = .error fault) ∨
        ∃ a b, x = .ok a ∧ y = .ok b ∧ f a = g b := by
  cases x <;> cases y <;> simp [Except.map, eq_comm]

/-- Folding looks at the items behind their aliases only. -/
theorem foldLevel_congr {aliases aliases' : AliasTable α} {items items' : List (Item α)}
    (h : items.map (expand aliases) = items'.map (expand aliases')) :
    foldLevel aliases items = foldLevel aliases' items' := by
  unfold foldLevel
  rw [h]

section

variable {aliases : AliasTable α} (name : String) {e : Expr α} {body : List Bracketed}
  {queries : List (String × String)}

theorem compileItem_word_replaced
    (hgroup : compileItem aliases (.group [body]) = .ok (.group [e], queries)) (w : String) :
    (compileItem (aliases.insert name e) (.word w)).map
      (fun p => p.1.expand (aliases.insert name e)) =
      (compileItem aliases (replaceItem name body (.word w))).map
        (fun p => p.1.expand aliases) := by
  by_cases hw : Text.lower w = Text.lower name
  · have hget : (aliases.insert name e).get? w = some e := by
      rw [AliasTable.get?_insert, if_pos hw.symm]
    have hword : replaceItem name body (.word w) = .group [body] := by simp [replaceItem, hw]
    rw [hword, hgroup]
    simp [compileItem, Except.map, expand, hget]
  · have hget : (aliases.insert name e).get? w = aliases.get? w := by
      rw [AliasTable.get?_insert, if_neg fun h => hw h.symm]
    have hword : replaceItem name body (.word w) = .word w := by simp [replaceItem, hw]
    rw [hword]
    simp [compileItem, Except.map, expand, hget]

mutual

theorem compileItem_replaced
    (hgroup : compileItem aliases (.group [body]) = .ok (.group [e], queries)) (b : Bracketed) :
    (compileItem (aliases.insert name e) b).map (fun p => p.1.expand (aliases.insert name e)) =
      (compileItem aliases (replaceItem name body b)).map (fun p => p.1.expand aliases) :=
  match b with
  | .word w => compileItem_word_replaced name hgroup w
  | .group parts => by
    rw [replaceItem_group]
    by_cases hempty : parts = [[]]
    · subst hempty
      rfl
    · have hempty' : parts.map (List.map (replaceItem name body)) ≠ [[]] := by
        intro hmap
        obtain ⟨bs, rfl, hbs⟩ := List.map_eq_singleton_iff.1 hmap
        exact hempty (by rw [List.map_eq_nil_iff.1 hbs])
      rw [compileItem_group hempty, compileItem_group hempty']
      rcases map_eq_map.1 (compileParts_replaced hgroup parts) with
        ⟨fault, hleft, hright⟩ | ⟨a, b, hleft, hright, hes⟩
      · rw [hleft, hright]
        rfl
      · rw [hleft, hright]
        simp [Except.map, expand, hes]

theorem compileItems_replaced
    (hgroup : compileItem aliases (.group [body]) = .ok (.group [e], queries))
    (bs : List Bracketed) :
    (compileItems (aliases.insert name e) bs).map
        (fun p => p.1.map (expand (aliases.insert name e))) =
      (compileItems aliases (bs.map (replaceItem name body))).map
        (fun p => p.1.map (expand aliases)) :=
  match bs with
  | [] => rfl
  | b :: bs => by
    rw [List.map_cons, compileItems.eq_def, compileItems.eq_def aliases]
    rcases map_eq_map.1 (compileItem_replaced hgroup b) with
      ⟨fault, hleft, hright⟩ | ⟨x, y, hleft, hright, hxy⟩
    · simp [hleft, hright, bind, Except.bind, Except.map]
    · rcases map_eq_map.1 (compileItems_replaced hgroup bs) with
        ⟨fault, hleft', hright'⟩ | ⟨xs, ys, hleft', hright', hrest⟩
      · simp [hleft, hright, hleft', hright', bind, Except.bind, Except.map]
      · simp [hleft, hright, hleft', hright', hxy, hrest, bind, Except.bind, pure, Except.pure,
          Except.map]

theorem compileParts_replaced
    (hgroup : compileItem aliases (.group [body]) = .ok (.group [e], queries))
    (parts : List (List Bracketed)) :
    (compileParts (aliases.insert name e) parts).map Prod.fst =
      (compileParts aliases (parts.map (List.map (replaceItem name body)))).map Prod.fst :=
  match parts with
  | [] => rfl
  | bs :: parts => by
    rw [List.map_cons, compileParts.eq_def, compileParts.eq_def aliases]
    cases bs with
    | nil => rfl
    | cons b bs =>
      rcases map_eq_map.1 (compileItems_replaced hgroup (b :: bs)) with
        ⟨fault, hleft, hright⟩ | ⟨xs, ys, hleft, hright, hxs⟩
      · rw [List.map_cons] at hright
        simp [hleft, hright, bind, Except.bind, Except.map]
      · rw [List.map_cons] at hright
        have hfold := foldLevel_congr hxs
        rcases map_eq_map.1 (compileParts_replaced hgroup parts) with
          ⟨fault, hleft', hright'⟩ | ⟨es, es', hleft', hright', hes⟩
        · cases hr : foldLevel aliases ys.1 <;>
            simp [hleft, hright, hfold, hr, hleft', hright', bind, Except.bind, Except.map]
        · cases hr : foldLevel aliases ys.1 <;>
            simp [hleft, hright, hfold, hr, hleft', hright', hes, bind, Except.bind, pure,
              Except.pure, Except.map]

end

end

/-- An alias with a name other than a parenthesis or a comma compiles like the words
    of its definition in parentheses, wherever it stands: the conditions are the
    same, and so are the faults. -/
theorem compile_insert {aliases : AliasTable α} (hcomma : aliases.get? "," = none) {name : String}
    (hname : name ≠ "(" ∧ name ≠ ")" ∧ name ≠ ",") {body : List String} {e : Expr α}
    {queries : List (String × String)} (hbody : compileCondition aliases body = .ok (e, queries))
    (ws : List String) :
    (compileCondition (aliases.insert name e) ws).map Prod.fst =
      (compileCondition aliases (substitute name body ws)).map Prod.fst := by
  -- What compiles at the top need not compile as a part: a comma is a word there and a mark
  -- here. The grammar has no comma outside of calls, so the body is nested anew from its
  -- derivation.
  obtain ⟨bs, items, inner, own, hbs, hne, hitems, hfold⟩ :=
    (isLevel_of_compileCondition hbody).folds hcomma
  have hparts : compileParts aliases [bs] = .ok ([e], inner ++ own ++ []) :=
    compileParts_cons.2 ⟨hne, items, inner, e, own, [], [], hitems, hfold, rfl, rfl, rfl⟩
  have hgroup : compileItem aliases (.group [bs]) = .ok (.group [e], inner ++ own ++ []) := by
    have hsome : [bs] ≠ [[]] := by simpa using hne
    rw [compileItem_group hsome, hparts]
    rfl
  unfold compileCondition
  rw [ofWords_substitute hname hbs]
  cases ofWords ws with
  | error fault => rfl
  | ok level =>
    have hlevel := compileItems_replaced name hgroup level.items
    simp only [bind, Except.bind, Except.map, Level.compile, replaceLevel]
    rcases map_eq_map.1 hlevel with ⟨fault, hleft, hright⟩ | ⟨xs, ys, hleft, hright, hxs⟩
    · simp [hleft, hright]
    · have hfolds := foldLevel_congr hxs
      cases hstray : level.stray with
      | true => simp [hleft, hright, throw, throwThe, MonadExceptOf.throw]
      | false =>
        cases hr : foldLevel aliases ys.1 <;> simp [hleft, hright, hfolds, hr, pure, Except.pure]

/-- The letter case of an alias does not matter. -/
theorem compile_insert_name :
    (compileCondition (AliasTable.empty.insert "warm" (.query "x" "high" : Expr Float))
        ["NOT", "(", "Warm", "and", "y", "is", "low", ")"]).map Prod.fst =
      (compileCondition (.empty : AliasTable Float)
        ["NOT", "(", "(", "x", "is", "high", ")", "and", "y", "is", "low", ")"]).map Prod.fst := by
  have hbody : compileCondition (.empty : AliasTable Float) ["x", "is", "high"] =
      .ok (.query "x" "high", [("x", "high")]) := by cbv
  have hsubstitute : substitute "warm" ["x", "is", "high"]
      ["NOT", "(", "Warm", "and", "y", "is", "low", ")"] =
      ["NOT", "(", "(", "x", "is", "high", ")", "and", "y", "is", "low", ")"] := by
    decide +kernel
  rw [← hsubstitute]
  exact compile_insert rfl (by decide) hbody _

end FuzzyInference.Condition
