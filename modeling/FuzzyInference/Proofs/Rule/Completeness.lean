import FuzzyInference.Proofs.Rule.Soundness

/-!
# What is in the grammar compiles

A derivation is followed from its leaves. Its words nest into items, the items
compile, and behind the calls they are the operands and connectives of a
well-formed level, whose condition is the tree of the derivation.

Results:

* `IsLevel.yields`: a level of the grammar is a well-formed level of items.
* `compileCondition_of_isLevel`: a level of the grammar compiles into its tree.
-/

namespace FuzzyInference.Condition

open Bracketed Item

variable {α : Type} [Scalar α]

/-! ## Words that yield items -/

/-- Words nest into items that compile, and behind their calls these are the given
    items, whatever follows. -/
def Yields (aliases : AliasTable α) (ws : List String) (xs : List (Item α)) : Prop :=
  ∃ bs items queries, SpellsItems Ordinary bs ws ∧ compileItems aliases bs = .ok (items, queries) ∧
    ∀ rest, foldCalls (items.map (expand aliases) ++ rest) = (foldCalls rest).map (xs ++ ·)

/-- Words nest into an item that compiles, and that stands for a group of
    conditions. -/
def YieldsGroup (aliases : AliasTable α) (ws : List String) (es : List (Expr α)) : Prop :=
  ∃ b x queries, Spells Ordinary b ws ∧ compileItem aliases b = .ok (x, queries) ∧
    x.expand aliases = .group es

theorem compileItems_cons {aliases : AliasTable α} {b : Bracketed} {bs : List Bracketed}
    {x : Item α} {xs : List (Item α)} {q₁ q₂ : List (String × String)}
    (hx : compileItem aliases b = .ok (x, q₁)) (hxs : compileItems aliases bs = .ok (xs, q₂)) :
    compileItems aliases (b :: bs) = .ok (x :: xs, q₁ ++ q₂) := by
  rw [compileItems.eq_def]
  simp [hx, hxs, bind, Except.bind, pure, Except.pure]

theorem compileItems_append {aliases : AliasTable α} {bs cs : List Bracketed}
    {xs ys : List (Item α)} {q₁ q₂ : List (String × String)}
    (hxs : compileItems aliases bs = .ok (xs, q₁))
    (hys : compileItems aliases cs = .ok (ys, q₂)) :
    compileItems aliases (bs ++ cs) = .ok (xs ++ ys, q₁ ++ q₂) := by
  induction bs generalizing xs q₁ with
  | nil =>
    cases hxs
    exact hys
  | cons b bs ih =>
    rw [compileItems.eq_def] at hxs
    obtain ⟨⟨x, p₁⟩, hx, hxs⟩ := bind_eq_ok.1 hxs
    obtain ⟨⟨xs', p₂⟩, hxs', hxs⟩ := bind_eq_ok.1 hxs
    cases hxs
    simpa using compileItems_cons hx (ih hxs')

theorem Yields.append {aliases : AliasTable α} {us ws : List String} {xs ys : List (Item α)}
    (hus : Yields aliases us xs) (hws : Yields aliases ws ys) :
    Yields aliases (us ++ ws) (xs ++ ys) := by
  obtain ⟨bs, items, q₁, hbs, hitems, hcalls⟩ := hus
  obtain ⟨cs, items', q₂, hcs, hitems', hcalls'⟩ := hws
  refine ⟨bs ++ cs, items ++ items', q₁ ++ q₂, hbs.append hcs,
    compileItems_append hitems hitems', ?_⟩
  intro rest
  rw [List.map_append, List.append_assoc, hcalls, hcalls']
  cases foldCalls rest <;> simp [Except.map]

/-- A word that calls no function yields itself. -/
theorem Yields.word {aliases : AliasTable α} {w : String} (hw : Ordinary w)
    (hnone : aliases.get? w = none) (hf : RuleFunction.ofKeyword? w = none) :
    Yields aliases [w] [.word w] := by
  refine ⟨[.word w], [.word w], [], .cons (.word hw) .nil, rfl, ?_⟩
  intro rest
  rw [List.map_singleton, expand, hnone, List.singleton_append, foldCalls.eq_def]
  simp only [hf]
  cases foldCalls rest <;> rfl

theorem YieldsGroup.named {aliases : AliasTable α} {w : String} {e : Expr α} (hw : Ordinary w)
    (he : aliases.get? w = some e) : YieldsGroup aliases [w] [e] :=
  ⟨.word w, .word w, [], .word hw, rfl, by simp [expand, he]⟩

theorem YieldsGroup.nothing (aliases : AliasTable α) : YieldsGroup aliases ["(", ")"] [] :=
  ⟨.group [[]], .group [], [], .group (.last .nil), rfl, rfl⟩

theorem YieldsGroup.parts {aliases : AliasTable α} {parts : List (List Bracketed)}
    {ws : List String} {es : List (Expr α)} {queries : List (String × String)}
    (hparts : SpellsParts Ordinary parts ws)
    (hes : compileParts aliases parts = .ok (es, queries)) :
    YieldsGroup aliases ("(" :: (ws ++ [")"])) es := by
  have hsome : parts ≠ [[]] := by
    rintro rfl
    exact (compileParts_cons.1 hes).1 rfl
  refine ⟨.group parts, .group es, queries, .group hparts, ?_, rfl⟩
  rw [compileItem_group hsome, hes]
  rfl

theorem YieldsGroup.yields {aliases : AliasTable α} {ws : List String} {es : List (Expr α)}
    (h : YieldsGroup aliases ws es) : Yields aliases ws [.group es] := by
  obtain ⟨b, x, queries, hb, hx, hgroup⟩ := h
  refine ⟨[b], [x], queries ++ [], ?_, compileItems_cons hx rfl, ?_⟩
  · simpa using SpellsItems.cons hb .nil
  · intro rest
    have hstep : foldCalls (.group es :: rest) =
        (foldCalls rest).bind fun rest' => .ok (.group es :: rest') := rfl
    rw [List.map_singleton, hgroup, List.singleton_append, hstep]
    cases foldCalls rest <;> rfl

/-- A function word and the group behind it yield a call. -/
theorem YieldsGroup.call {aliases : AliasTable α} {w : String} {f : RuleFunction} {ws : List String}
    {es : List (Expr α)} (hw : Ordinary w) (hnone : aliases.get? w = none)
    (hf : RuleFunction.ofKeyword? w = some f) (h : YieldsGroup aliases ws es) :
    Yields aliases (w :: ws) [.done (.call f es)] := by
  obtain ⟨b, x, queries, hb, hx, hgroup⟩ := h
  have hword : compileItem aliases (.word w) = .ok (.word w, []) := rfl
  refine ⟨[.word w, b], [.word w, x], [] ++ (queries ++ []), ?_,
    compileItems_cons hword (compileItems_cons hx rfl), ?_⟩
  · simpa using SpellsItems.cons (.word hw) (.cons hb .nil)
  · intro rest
    have hexpand : (Item.word w).expand aliases = .word w := by simp [expand, hnone]
    rw [List.map_cons, List.map_singleton, hexpand, hgroup, List.cons_append, List.singleton_append,
      foldCalls.eq_def]
    simp only [hf]
    cases foldCalls rest <;> rfl

/-- Items that fold are the condition of the words that they come from. -/
theorem Yields.foldLevel {aliases : AliasTable α} {ws : List String} {o : Phrase α}
    {js : List (Joint α)} {l e : Expr α} (h : Yields aliases ws (spread Phrase.turned o js))
    (hl : o.folded.toExpr = .ok l) (he : joined? l js = .ok e) :
    ∃ bs items inner own, SpellsItems Ordinary bs ws ∧ bs ≠ [] ∧
      compileItems aliases bs = .ok (items, inner) ∧ foldLevel aliases items = .ok (e, own) := by
  obtain ⟨bs, items, inner, hbs, hitems, hcalls⟩ := h
  have hcalls' : foldCalls (items.map (expand aliases)) = .ok (spread Phrase.turned o js) := by
    have hnil := hcalls []
    rw [List.append_nil] at hnil
    simpa [foldCalls, Except.map] using hnil
  obtain ⟨own, hfold⟩ := foldLevel_iff.2 ⟨o, js, l, hcalls', hl, he⟩
  refine ⟨bs, items, inner, own, hbs, ?_, hitems, hfold⟩
  rintro rfl
  cases hitems
  cases hfold

/-- Such items are also the only part of a group. -/
theorem Yields.part {aliases : AliasTable α} {ws : List String} {o : Phrase α}
    {js : List (Joint α)} {l e : Expr α} (h : Yields aliases ws (spread Phrase.turned o js))
    (hl : o.folded.toExpr = .ok l) (he : joined? l js = .ok e) :
    ∃ parts queries, SpellsParts Ordinary parts ws ∧
      compileParts aliases parts = .ok ([e], queries) := by
  obtain ⟨bs, items, inner, own, hbs, hne, hitems, hfold⟩ := h.foldLevel hl he
  exact ⟨[bs], _, .last hbs, compileParts_cons.2
    ⟨hne, items, inner, e, own, [], [], hitems, hfold, rfl, rfl, rfl⟩⟩

/-! ## Derivations -/

omit [Scalar α] in
theorem spread_snoc (stage : Phrase α → List (Item α)) (o : Phrase α) (js : List (Joint α))
    (j : Joint α) :
    spread stage o (js ++ [j]) = spread stage o js ++ .word j.word :: stage j.phrase := by
  simp [spread, following]

theorem joined?_snoc {l l' r : Expr α} {js : List (Joint α)} {j : Joint α}
    (hl : joined? l js = .ok l') (hr : j.phrase.folded.toExpr = .ok r) :
    joined? l (js ++ [j]) = .ok (.logic j.op l' r) := by
  induction js generalizing l with
  | nil =>
    cases hl
    simp [joined?, hr, bind, Except.bind]
  | cons i js ih =>
    obtain ⟨r', hr', hl⟩ := bind_eq_ok.1 hl
    rw [List.cons_append, joined?, hr']
    exact ih hl

omit [Scalar α] in
theorem IsKeyword.ordinary {aliases : AliasTable α} {k w : String} (h : IsKeyword aliases k w)
    (hk : k ≠ ",") : Ordinary w := by
  refine ⟨h.1.1, h.1.2, ?_⟩
  rintro rfl
  exact hk (h.2.2 ▸ toLower_comma)

omit [Scalar α] in
theorem IsPlain.ordinary {aliases : AliasTable α} {w : String} (h : IsPlain aliases w) :
    Ordinary w := by
  refine ⟨h.1.1, h.1.2, ?_⟩
  rintro rfl
  apply h.2.2
  simp [toLower_comma, reserved]

omit [Scalar α] in
theorem IsAlias.ordinary {aliases : AliasTable α} {w : String} {e : Expr α}
    (h : IsAlias aliases w e) (hcomma : aliases.get? "," = none) : Ordinary w := by
  refine ⟨h.1.1, h.1.2, ?_⟩
  rintro rfl
  rw [h.2] at hcomma
  cases hcomma

theorem IsKeyword.yields {aliases : AliasTable α} {k w : String} (h : IsKeyword aliases k w)
    (hk : k ∈ ["is", "not", "and", "or", "xor"]) : Yields aliases [w] [.word w] := by
  obtain ⟨hsum, hproduct, hgamma⟩ := RuleFunction.toLower_keyword
  refine .word (h.ordinary ?_) h.2.1 (RuleFunction.ofKeyword?_eq_none fun f hf => ?_)
  · rintro rfl
    simp at hk
  · rw [← h.2.2, hf] at hk
    cases f <;> simp [hsum, hproduct, hgamma] at hk

theorem Joins.yields {aliases : AliasTable α} {op : LogicOp} {w : String} (h : Joins aliases op w) :
    Yields aliases [w] [.word w] := by
  obtain ⟨hand, hor, hxor⟩ := LogicOp.toLower_keyword
  refine IsKeyword.yields h ?_
  cases op <;> simp [hand, hor, hxor]

theorem IsPlain.yields {aliases : AliasTable α} {w : String} (h : IsPlain aliases w) :
    Yields aliases [w] [.word w] := by
  refine .word h.ordinary h.2.1 (RuleFunction.ofKeyword?_eq_none fun f hf => ?_)
  exact h.2.2 (hf ▸ reserved_function f)

theorem YieldsGroup.callOf {aliases : AliasTable α} {f : RuleFunction} {w : String}
    {ws : List String} {es : List (Expr α)} (hw : Calls aliases f w)
    (h : YieldsGroup aliases ws es) : Yields aliases (w :: ws) [.done (.call f es)] := by
  obtain ⟨hsum, hproduct, hgamma⟩ := RuleFunction.toLower_keyword
  refine h.call (IsKeyword.ordinary hw ?_) hw.2.1 (RuleFunction.ofKeyword?_eq_some.2 hw.2.2)
  cases f <;> simp [hsum, hproduct, hgamma]

mutual

theorem IsLevel.yields {aliases : AliasTable α} {ws : List String} {e : Expr α}
    (hcomma : aliases.get? "," = none) (h : IsLevel aliases ws e) :
    ∃ o js l, Yields aliases ws (spread Phrase.turned o js) ∧ o.folded.toExpr = .ok l ∧
      joined? l js = .ok e :=
  match h with
  | .operand ho => by
    obtain ⟨o, ho, he⟩ := ho.yields hcomma
    exact ⟨o, [], e, by simpa [spread, following] using ho, he, rfl⟩
  | @IsLevel.join _ _ _ _ _ w op _ _ hlevel hw hoperand => by
    obtain ⟨o, js, l, hl, hfirst, hjoined⟩ := hlevel.yields hcomma
    obtain ⟨o', ho', he⟩ := hoperand.yields hcomma
    have hw' : LogicOp.ofKeyword? w = some op := LogicOp.ofKeyword?_eq_some.2 hw.2.2
    refine ⟨o, js ++ [⟨w, op, o', hw'⟩], l, ?_, hfirst, joined?_snoc hjoined he⟩
    rw [spread_snoc]
    exact hl.append (hw.yields.append ho')

theorem IsOperand.yields {aliases : AliasTable α} {ws : List String} {e : Expr α}
    (hcomma : aliases.get? "," = none) (h : IsOperand aliases ws e) :
    ∃ o : Phrase α, Yields aliases ws o.turned ∧ o.folded.toExpr = .ok e :=
  match h with
  | .query hinput his hmembership =>
    ⟨.query _ _ _ hinput.2.2 his.2.2 hmembership.2.2,
      hinput.yields.append ((his.yields (by simp)).append hmembership.yields), rfl⟩
  | .negated hinput his hnot hmembership =>
    ⟨.negated _ _ _ _ hinput.2.2 his.2.2 hnot.2.2 hmembership.2.2,
      hinput.yields.append ((his.yields (by simp)).append
        ((hnot.yields (by simp)).append hmembership.yields)), rfl⟩
  | .number hw hv =>
    ⟨.item _ (isReserved_of_not_mem hw.2.2), hw.yields, by simp [Phrase.folded, toExpr, hv]⟩
  | .named hw =>
    ⟨.item (.group [e]) rfl, (YieldsGroup.named (hw.ordinary hcomma) hw.2).yields, rfl⟩
  | .group hlevel => by
    obtain ⟨o, js, l, hyields, hl, he⟩ := hlevel.yields hcomma
    obtain ⟨parts, queries, hparts, hes⟩ := hyields.part hl he
    exact ⟨.item (.group [e]) rfl, (YieldsGroup.parts hparts hes).yields, rfl⟩
  | .callNamed hw ha =>
    ⟨.item (.done _) rfl, (YieldsGroup.named (ha.ordinary hcomma) ha.2).callOf hw, rfl⟩
  | .call hw hargs => ⟨.item (.done _) rfl, (hargs.yields hcomma).callOf hw, rfl⟩

theorem AreArguments.yields {aliases : AliasTable α} {ws : List String} {es : List (Expr α)}
    (hcomma : aliases.get? "," = none) (h : AreArguments aliases ws es) :
    YieldsGroup aliases ("(" :: (ws ++ [")"])) es :=
  match h with
  | .none => .nothing aliases
  | .some hparts => by
    obtain ⟨parts, queries, hspells, hes⟩ := hparts.compiles hcomma
    exact .parts hspells hes

theorem AreParts.compiles {aliases : AliasTable α} {ws : List String} {es : List (Expr α)}
    (hcomma : aliases.get? "," = none) (h : AreParts aliases ws es) :
    ∃ parts queries, SpellsParts Ordinary parts ws ∧
      compileParts aliases parts = .ok (es, queries) :=
  match h with
  | .last hlevel => by
    obtain ⟨o, js, l, hyields, hl, he⟩ := hlevel.yields hcomma
    exact hyields.part hl he
  | .more hlevel hmore => by
    obtain ⟨o, js, l, hyields, hl, he⟩ := hlevel.yields hcomma
    obtain ⟨bs, items, inner, own, hbs, hne, hitems, hfold⟩ := hyields.foldLevel hl he
    obtain ⟨parts, queries, hparts, hes⟩ := hmore.compiles hcomma
    exact ⟨bs :: parts, _, .more hbs hparts, compileParts_cons.2
      ⟨hne, items, inner, _, own, _, queries, hitems, hfold, hes, rfl, rfl⟩⟩

end

/-- A level of the grammar nests into items that compile and fold. -/
theorem IsLevel.folds {aliases : AliasTable α} {ws : List String} {e : Expr α}
    (hcomma : aliases.get? "," = none) (h : IsLevel aliases ws e) :
    ∃ bs items inner own, SpellsItems Ordinary bs ws ∧ bs ≠ [] ∧
      compileItems aliases bs = .ok (items, inner) ∧ foldLevel aliases items = .ok (e, own) := by
  obtain ⟨o, js, l, hyields, hl, he⟩ := h.yields hcomma
  exact hyields.foldLevel hl he

theorem compileCondition_of_isLevel {aliases : AliasTable α} {ws : List String} {e : Expr α}
    (hcomma : aliases.get? "," = none) (h : IsLevel aliases ws e) :
    ∃ queries, compileCondition aliases ws = .ok (e, queries) := by
  obtain ⟨bs, items, inner, own, hbs, -, hitems, hfold⟩ := h.folds hcomma
  refine ⟨inner ++ own, ?_⟩
  unfold compileCondition Level.compile
  simp [ofWords_of_spells hbs, hitems, hfold, bind, Except.bind, pure, Except.pure]

end FuzzyInference.Condition
