import FuzzyInference.Rule.Fold

/-!
# The grammar of conditions

The grammar that conditions are written in, as relations between words and the
trees they spell. A parenthesis is only ever a parenthesis. Any other word is an
alias if the alias table knows it, then a keyword, and otherwise a plain word.

* a level is operands joined by `AND`, `OR` and `XOR`, grouped to the left;
* an operand is a query, a query that is negated, a number, an alias, a level in
  parentheses, or a call;
* a call is a function word with an alias or with arguments in parentheses;
* arguments are levels between commas, or nothing.

Nothing here mentions items, passes or the order they come in.

Results:

* `AreArguments.isLevel`: a single argument is a level.
-/

namespace FuzzyInference.Condition

variable {α : Type}

/-! ## Kinds of words -/

/-- A word that does not open or close a group. -/
def NotParenthesis (w : String) : Prop := w ≠ "(" ∧ w ≠ ")"

/-- A word that stands for an expression. -/
def IsAlias (aliases : AliasTable α) (w : String) (e : Expr α) : Prop :=
  NotParenthesis w ∧ aliases.get? w = some e

/-- A word that is a certain keyword, given in lower case. -/
def IsKeyword (aliases : AliasTable α) (lowercase w : String) : Prop :=
  NotParenthesis w ∧ aliases.get? w = none ∧ w.toLower = lowercase

/-- A word that is neither an alias nor a keyword. -/
def IsPlain (aliases : AliasTable α) (w : String) : Prop :=
  NotParenthesis w ∧ aliases.get? w = none ∧ w.toLower ∉ Item.reserved

/-- A word that joins two operands. -/
def Joins (aliases : AliasTable α) (op : LogicOp) (w : String) : Prop :=
  IsKeyword aliases op.keyword.toLower w

/-- A word that calls a function. -/
def Calls (aliases : AliasTable α) (f : RuleFunction) (w : String) : Prop :=
  IsKeyword aliases f.keyword.toLower w

/-! ## Words and trees -/

variable [Scalar α]

mutual

/-- Words spell operands that connectives join. -/
inductive IsLevel (aliases : AliasTable α) : List String → Expr α → Prop
  | operand {ws e} : IsOperand aliases ws e → IsLevel aliases ws e
  | join {ws l w op vs r} : IsLevel aliases ws l → Joins aliases op w → IsOperand aliases vs r →
      IsLevel aliases (ws ++ w :: vs) (.logic op l r)

/-- Words spell what stands between connectives. -/
inductive IsOperand (aliases : AliasTable α) : List String → Expr α → Prop
  | query {input is membership} : IsPlain aliases input → IsKeyword aliases "is" is →
      IsPlain aliases membership →
      IsOperand aliases [input, is, membership] (.query input membership)
  | negated {input is not membership} : IsPlain aliases input → IsKeyword aliases "is" is →
      IsKeyword aliases "not" not → IsPlain aliases membership →
      IsOperand aliases [input, is, not, membership] (.negation (.query input membership))
  | number {w v} : IsPlain aliases w → Scalar.read? w = some v → IsOperand aliases [w] (.constant v)
  | named {w e} : IsAlias aliases w e → IsOperand aliases [w] e
  | group {ws e} : IsLevel aliases ws e → IsOperand aliases ("(" :: (ws ++ [")"])) e
  | callNamed {w f a e} : Calls aliases f w → IsAlias aliases a e →
      IsOperand aliases [w, a] (.call f [e])
  | call {w f ws es} : Calls aliases f w → AreArguments aliases ws es →
      IsOperand aliases (w :: "(" :: (ws ++ [")"])) (.call f es)

/-- Words spell what stands between the parentheses of a call. -/
inductive AreArguments (aliases : AliasTable α) : List String → List (Expr α) → Prop
  | none : AreArguments aliases [] []
  | some {ws es} : AreParts aliases ws es → AreArguments aliases ws es

/-- Words spell one level or more, between commas. -/
inductive AreParts (aliases : AliasTable α) : List String → List (Expr α) → Prop
  | last {ws e} : IsLevel aliases ws e → AreParts aliases ws [e]
  | more {ws e vs es} : IsLevel aliases ws e → AreParts aliases vs es →
      AreParts aliases (ws ++ "," :: vs) (e :: es)

end

/-! ## Arguments -/

theorem AreParts.ne_nil {aliases : AliasTable α} {ws : List String} {es : List (Expr α)}
    (h : AreParts aliases ws es) : es ≠ [] := by
  cases h <;> simp

/-- A single argument is a level. -/
theorem AreArguments.isLevel {aliases : AliasTable α} {ws : List String} {e : Expr α}
    (h : AreArguments aliases ws [e]) : IsLevel aliases ws e := by
  cases h with
  | some hparts =>
    cases hparts with
    | last hlevel => exact hlevel
    | more _ hmore => exact absurd rfl hmore.ne_nil

end FuzzyInference.Condition
