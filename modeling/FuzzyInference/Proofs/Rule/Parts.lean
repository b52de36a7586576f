import FuzzyInference.Proofs.Error.Result
import FuzzyInference.Rule.Expr
import Mathlib.Logic.Relation

/-!
# Parts of conditions

A condition is put together from its operands, these from theirs, and so on down
to constants and queries. Statements about everything inside a condition are
statements about its parts.

Results:

* `mem_queries_iff`: the queries that are listed for a condition are the ones
  that occur in it.
* `evaluate_call_eq_ok`: a call has the truth that its function makes of the
  truths of its arguments.
-/

namespace FuzzyInference.Expr

variable {α : Type}

/-- The conditions that a condition is put together from. -/
inductive IsOperand : Expr α → Expr α → Prop
  | negated (e : Expr α) : IsOperand e (.negation e)
  | left (op : LogicOp) (l r : Expr α) : IsOperand l (.logic op l r)
  | right (op : LogicOp) (l r : Expr α) : IsOperand r (.logic op l r)
  | argument (f : RuleFunction) {args : List (Expr α)} {a : Expr α} (h : a ∈ args) :
    IsOperand a (.call f args)

/-- A condition is a part of another one, at any depth. -/
def Within (p e : Expr α) : Prop := Relation.TransGen IsOperand p e

/-- A condition is another one or a part of it. -/
def Occurs (p e : Expr α) : Prop := Relation.ReflTransGen IsOperand p e

/-- What holds of every condition if its operands have it, holds of every
    condition. -/
@[elab_as_elim, induction_eliminator]
theorem induct {motive : Expr α → Prop} (constant : ∀ value, motive (.constant value))
    (query : ∀ input membership, motive (.query input membership))
    (negation : ∀ e, motive e → motive (.negation e))
    (logic : ∀ op l r, motive l → motive r → motive (.logic op l r))
    (call : ∀ f args, (∀ a ∈ args, motive a) → motive (.call f args)) : ∀ e, motive e
  | .constant value => constant value
  | .query input membership => query input membership
  | .negation e => negation e (induct constant query negation logic call e)
  | .logic op l r =>
    logic op l r (induct constant query negation logic call l)
      (induct constant query negation logic call r)
  | .call f args => call f args fun a _ => induct constant query negation logic call a

/-! ## Occurrences -/

theorem Occurs.refl (e : Expr α) : Occurs e e := Relation.ReflTransGen.refl

theorem Occurs.within {p q e : Expr α} (h : Occurs p q) (hq : IsOperand q e) : Within p e :=
  Relation.TransGen.tail' h hq

theorem Within.occurs {p e : Expr α} (h : Within p e) : Occurs p e :=
  Relation.TransGen.to_reflTransGen h

theorem Occurs.of_operand {p q e : Expr α} (h : Occurs p q) (hq : IsOperand q e) : Occurs p e :=
  (h.within hq).occurs

theorem occurs_iff {p e : Expr α} : Occurs p e ↔ p = e ∨ Within p e := by
  unfold Occurs Within
  rw [Relation.reflTransGen_iff_eq_or_transGen, eq_comm]

theorem within_iff {p e : Expr α} : Within p e ↔ ∃ q, IsOperand q e ∧ Occurs p q := by
  unfold Within
  rw [Relation.TransGen.tail'_iff]
  exact exists_congr fun q => and_comm

@[simp] theorem within_constant (p : Expr α) (value : α) : ¬ Within p (.constant value) := by
  rw [within_iff]
  rintro ⟨q, hq, -⟩
  cases hq

@[simp] theorem within_query (p : Expr α) (input membership : String) :
    ¬ Within p (.query input membership) := by
  rw [within_iff]
  rintro ⟨q, hq, -⟩
  cases hq

@[simp] theorem within_negation (p e : Expr α) : Within p (.negation e) ↔ Occurs p e := by
  rw [within_iff]
  constructor
  · rintro ⟨q, hq, h⟩
    cases hq
    exact h
  · exact fun h => ⟨e, .negated e, h⟩

@[simp] theorem within_logic (p : Expr α) (op : LogicOp) (l r : Expr α) :
    Within p (.logic op l r) ↔ Occurs p l ∨ Occurs p r := by
  rw [within_iff]
  constructor
  · rintro ⟨q, hq, h⟩
    cases hq with
    | left => exact .inl h
    | right => exact .inr h
  · rintro (h | h)
    · exact ⟨l, .left op l r, h⟩
    · exact ⟨r, .right op l r, h⟩

@[simp] theorem within_call (p : Expr α) (f : RuleFunction) (args : List (Expr α)) :
    Within p (.call f args) ↔ ∃ a ∈ args, Occurs p a := by
  rw [within_iff]
  constructor
  · rintro ⟨q, hq, h⟩
    cases hq with
    | argument _ hmem => exact ⟨q, hmem, h⟩
  · rintro ⟨a, hmem, h⟩
    exact ⟨a, .argument f hmem, h⟩

/-! ## Queries -/

theorem mem_queriesOf {query : String × String} {es : List (Expr α)} :
    query ∈ queriesOf es ↔ ∃ e ∈ es, query ∈ e.queries := by
  induction es with
  | nil => simp [queriesOf]
  | cons e es ih => simp [queriesOf, ih]

/-- The queries that are listed for a condition are the ones that occur in it. -/
theorem mem_queries_iff {input membership : String} {e : Expr α} :
    (input, membership) ∈ e.queries ↔ Occurs (.query input membership) e := by
  rw [occurs_iff]
  induction e with
  | constant value => simp [queries]
  | query input' membership' => simp [queries]
  | negation e ih => simp [queries, ih, occurs_iff]
  | logic op l r ihl ihr => simp [queries, ihl, ihr, occurs_iff]
  | call f args ih =>
    simp only [queries, mem_queriesOf, within_call, reduceCtorEq, false_or]
    exact exists_congr fun a => and_congr_right fun ha => (ih a ha).trans occurs_iff.symm

/-! ## Arguments -/

section

variable [Scalar α] {inputs : VariableStore α} {record : Record α}

theorem evaluateAll_eq_mapM (es : List (Expr α)) :
    evaluateAll inputs record es = es.mapM (evaluate inputs record) := by
  induction es with
  | nil => rfl
  | cons e es ih => rw [evaluateAll, List.mapM_cons, ih]

theorem evaluate_call_eq_ok {f : RuleFunction} {args : List (Expr α)} {v : Value α} :
    (call f args).evaluate inputs record = .ok v ↔
      ∃ vs, List.Forall₂ (fun a u => a.evaluate inputs record = .ok u) args vs ∧
        f.apply vs = .ok v := by
  rw [evaluate, evaluateAll_eq_mapM, bind_eq_ok]
  exact exists_congr fun vs => and_congr_left fun _ => mapM_eq_ok

end

end FuzzyInference.Expr
