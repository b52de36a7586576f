import FuzzyInference.Proofs.Formula.Parts
import FuzzyInference.Proofs.Rule.Parts
import FuzzyInference.Scalar.Binary64

/-!
# Conditions as formulas

A condition can be written as a formula: `AND` and `OR` choose the smaller and
the larger value, the functions have their namesakes, constants are numbers and
every query gets a name of its own. `NOT` and `XOR` have no counterpart.

The two languages have an evaluator each. Where the names stand for the truths
of their queries, both give one result, be it a number, a sentinel or an error.

Results:

* `toFunction_apply` and `apply_of_toFunction?`: functions and connectives agree
  with their counterparts.
* `evaluate_of_bound`: a condition agrees with its formula wherever its names
  are bound to the truths of its queries.
* `evaluate_toFormula?`: so it does over the truths of its queries and nothing
  else.
-/

namespace FuzzyInference

variable {α : Type}

/-! ## Counterparts -/

/-- The function of formulas that does what a function of conditions does. -/
def RuleFunction.toFunction : RuleFunction → Function
  | .sum => .sum
  | .product => .product
  | .gamma => .gamma

/-- The function of formulas that does what a connective does, if there is one. -/
def LogicOp.toFunction? : LogicOp → Option Function
  | .and => some .min
  | .or => some .max
  | .xor => none

/-- The two functions differ in the error of a call without arguments only. -/
theorem RuleFunction.toFunction_apply [Scalar α] {f : RuleFunction} {vs : List (Value α)}
    (h : f = .gamma → vs ≠ []) : f.toFunction.apply vs = f.apply vs := by
  cases f with
  | sum => rfl
  | product => rfl
  | gamma =>
    cases vs with
    | nil => exact absurd rfl (h rfl)
    | cons weight operands => rfl

theorem LogicOp.apply_of_toFunction? [Scalar α] {op : LogicOp} {fn : Function}
    (h : op.toFunction? = some fn) (u v : Value α) : fn.apply [u, v] = .ok (op.apply u v) := by
  cases op with
  | and =>
    cases h
    rfl
  | or =>
    cases h
    rfl
  | xor => cases h

namespace Expr

mutual

/-- A condition as a formula in which each query has a name. -/
def toFormula? (name : String → String → String) : Expr α → Option (Formula α)
  | .constant value => some (.number value)
  | .query input membership => some (.name (name input membership))
  | .negation _ => none
  | .logic op l r => do
    let fn ← op.toFunction?
    let f ← toFormula? name l
    let g ← toFormula? name r
    return .call fn [f, g]
  | .call f args => do return .call f.toFunction (← toFormulas? name args)

/-- Several conditions as formulas. -/
def toFormulas? (name : String → String → String) : List (Expr α) → Option (List (Formula α))
  | [] => some []
  | e :: es => do
    let f ← toFormula? name e
    let fs ← toFormulas? name es
    return f :: fs

end

/-! ## Conditions that can be written as formulas -/

/-- A condition without `NOT` and `XOR` in which every `GAMMA` has an argument. -/
structure Translatable (e : Expr α) : Prop where
  noNegation : ∀ p, ¬ Occurs (.negation p) e
  noXor : ∀ l r, ¬ Occurs (.logic .xor l r) e
  gammas : ¬ Occurs (.call .gamma []) e

theorem Translatable.operand {a e : Expr α} (h : e.Translatable) (ha : IsOperand a e) :
    a.Translatable where
  noNegation p hp := h.noNegation p (hp.of_operand ha)
  noXor l r hp := h.noXor l r (hp.of_operand ha)
  gammas hp := h.gammas (hp.of_operand ha)

theorem Translatable.toFunction? {op : LogicOp} {l r : Expr α} (h : (logic op l r).Translatable) :
    ∃ fn, op.toFunction? = some fn := by
  cases op with
  | and => exact ⟨.min, rfl⟩
  | or => exact ⟨.max, rfl⟩
  | xor => exact absurd (Occurs.refl _) (h.noXor l r)

variable [Scalar α] {inputs : VariableStore α} {record : Record α} {name : String → String → String}
  {env : String → Option (Value α)}

/-! ## Evaluation -/

/-- A condition has a formula, which evaluates to the condition's truth. -/
def Agrees (name : String → String → String) (inputs : VariableStore α) (record : Record α)
    (env : String → Option (Value α)) (e : Expr α) : Prop :=
  ∃ f, e.toFormula? name = some f ∧ f.evaluate env = e.evaluate inputs record

theorem Agrees.all {es : List (Expr α)} (h : ∀ e ∈ es, e.Agrees name inputs record env) :
    ∃ fs, toFormulas? name es = some fs ∧
      Formula.evaluateAll env fs = evaluateAll inputs record es := by
  induction es with
  | nil => exact ⟨[], rfl, rfl⟩
  | cons e es ih =>
    rw [List.forall_mem_cons] at h
    obtain ⟨⟨f, hf, heval⟩, hrest⟩ := h
    obtain ⟨fs, hfs, hevals⟩ := ih hrest
    refine ⟨f :: fs, ?_, ?_⟩
    · rw [toFormulas?, hf, hfs]
      rfl
    · rw [Formula.evaluateAll, evaluateAll, heval, hevals]

theorem Agrees.logic {op : LogicOp} {fn : Function} (hfn : op.toFunction? = some fn) {l r : Expr α}
    (hl : l.Agrees name inputs record env) (hr : r.Agrees name inputs record env) :
    (logic op l r).Agrees name inputs record env := by
  obtain ⟨f, hf, hleft⟩ := hl
  obtain ⟨g, hg, hright⟩ := hr
  refine ⟨.call fn [f, g], ?_, ?_⟩
  · rw [toFormula?, hfn, hf, hg]
    rfl
  · rw [Formula.evaluate, Formula.evaluateAll, Formula.evaluateAll, Formula.evaluateAll,
      hleft, hright, evaluate]
    cases l.evaluate inputs record with
    | error e => rfl
    | ok u =>
      cases r.evaluate inputs record with
      | error e => rfl
      | ok v => exact LogicOp.apply_of_toFunction? hfn u v

theorem Agrees.call {f : RuleFunction} {args : List (Expr α)} (hgamma : f = .gamma → args ≠ [])
    (h : ∀ a ∈ args, a.Agrees name inputs record env) :
    (call f args).Agrees name inputs record env := by
  obtain ⟨fs, hfs, hevals⟩ := Agrees.all h
  refine ⟨.call f.toFunction fs, ?_, ?_⟩
  · rw [toFormula?, hfs]
    rfl
  · rw [Formula.evaluate, hevals, evaluate]
    cases hvs : evaluateAll inputs record args with
    | error e => rfl
    | ok vs =>
      refine RuleFunction.toFunction_apply (f := f) fun hf => ?_
      -- as many values as arguments
      rw [evaluateAll_eq_mapM, mapM_eq_ok] at hvs
      rintro rfl
      cases hvs
      exact hgamma hf rfl

/-- A condition agrees with its formula wherever the names are bound to the truths
    of its queries. -/
theorem evaluate_of_bound {e : Expr α} (htranslatable : e.Translatable)
    (hbound : ∀ input membership, Occurs (.query input membership) e →
      ∃ v, queryTruth inputs record input membership = .ok v ∧
        env (name input membership) = some v) : e.Agrees name inputs record env := by
  induction e with
  | constant value => exact ⟨.number value, rfl, rfl⟩
  | query input membership =>
    obtain ⟨v, htruth, henv⟩ := hbound input membership (.refl _)
    refine ⟨.name (name input membership), rfl, ?_⟩
    rw [Formula.evaluate, henv, evaluate, htruth]
  | negation e _ => exact absurd (Occurs.refl _) (htranslatable.noNegation e)
  | logic op l r ihl ihr =>
    obtain ⟨fn, hfn⟩ := htranslatable.toFunction?
    have hleft := IsOperand.left op l r
    have hright := IsOperand.right op l r
    have hl := ihl (htranslatable.operand hleft) fun i m h => hbound i m (h.of_operand hleft)
    have hr := ihr (htranslatable.operand hright) fun i m h => hbound i m (h.of_operand hright)
    exact Agrees.logic hfn hl hr
  | call f args ih =>
    refine Agrees.call ?_ fun a ha => ?_
    · rintro rfl rfl
      exact htranslatable.gammas (.refl _)
    · have hoperand := IsOperand.argument f ha
      exact ih a ha (htranslatable.operand hoperand) fun i m h => hbound i m (h.of_operand hoperand)

/-! ## The truths of the queries -/

/-- The truths that the queries of a condition have, under the names of the
    queries. -/
def truths (e : Expr α) (name : String → String → String) (inputs : VariableStore α)
    (record : Record α) (n : String) : Option (Value α) :=
  e.queries.findSome? fun q =>
    if name q.1 q.2 = n then (queryTruth inputs record q.1 q.2).toOption else none

/-- Queries have names of their own. -/
def NamedApart (name : String → String → String) (e : Expr α) : Prop :=
  ∀ i m i' m', Occurs (.query i m) e → Occurs (.query i' m') e → name i m = name i' m' →
    i = i' ∧ m = m'

omit [Scalar α] in
theorem findSome?_eq_of_forall {β γ : Type} {f : β → Option γ} {bs : List β} {b : β} {c : γ}
    (hmem : b ∈ bs) (hb : f b = some c) (hall : ∀ b' ∈ bs, f b' = none ∨ f b' = some c) :
    bs.findSome? f = some c := by
  induction bs with
  | nil => cases hmem
  | cons b' bs ih =>
    rw [List.forall_mem_cons] at hall
    rw [List.findSome?_cons]
    rcases hall.1 with hnone | hsome
    · rw [hnone]
      rcases List.mem_cons.1 hmem with rfl | hmem
      · rw [hb] at hnone
        cases hnone
      · exact ih hmem hall.2
    · rw [hsome]

/-- A name that is not shared stands for the truth of its query. -/
theorem truths_eq {e : Expr α} (hname : NamedApart name e) {input membership : String}
    (hquery : Occurs (.query input membership) e) {v : Value α}
    (htruth : queryTruth inputs record input membership = .ok v) :
    e.truths name inputs record (name input membership) = some v := by
  have hsome : (queryTruth inputs record input membership).toOption = some v := by
    rw [htruth]
    rfl
  refine findSome?_eq_of_forall (mem_queries_iff.2 hquery) ?_ ?_
  · rw [if_pos rfl, hsome]
  · rintro ⟨i, m⟩ hmem
    by_cases hshared : name i m = name input membership
    · obtain ⟨rfl, rfl⟩ := hname i m input membership (mem_queries_iff.1 hmem) hquery hshared
      right
      rw [if_pos rfl, hsome]
    · left
      rw [if_neg hshared]

/-- Conditions and formulas compute the same: over the truths of its queries, the
    formula of a condition without `NOT`, `XOR` and empty `GAMMA` has exactly the
    condition's result. -/
theorem evaluate_toFormula? {e : Expr α} (htranslatable : e.Translatable)
    (hname : NamedApart name e) (hqueries : ∀ input membership, Occurs (.query input membership) e →
      ∃ v, queryTruth inputs record input membership = .ok v) :
    ∃ f, e.toFormula? name = some f ∧
      f.evaluate (e.truths name inputs record) = e.evaluate inputs record := by
  refine evaluate_of_bound htranslatable fun input membership hquery => ?_
  obtain ⟨v, htruth⟩ := hqueries input membership hquery
  exact ⟨v, htruth, truths_eq hname hquery htruth⟩

/-- Two inputs, of which `frostRecord` has a reading that is to be ignored for the
    first one. -/
def frostInputs : VariableStore Float :=
  .ofList [⟨"frost", 0, 1, .ofList [("light", .ramp)]⟩,
    ⟨"wind", 0, 10, .ofList [("strong", .ramp)]⟩]

/-- A frost that is to be ignored, and a wind. -/
def frostRecord : Record Float :=
  .ofList [("frost", .sentinel .ignoring), ("wind", .number 5)]

/-- `SUM(frost IS light, wind IS strong) AND frost IS light` -/
def frostCondition : Expr Float :=
  .logic .and (.call .sum [.query "frost" "light", .query "wind" "strong"]) (.query "frost" "light")

/-- The name of an input and its membership, with a dot between them. -/
def dotted (input membership : String) : String := input ++ "." ++ membership

set_option maxRecDepth 2000 in
/-- The formula `min(sum(frost.light, wind.strong), frost.light)` has the truth of
    its condition. -/
theorem evaluate_frostFormula :
    ∃ f, frostCondition.toFormula? dotted = some f ∧
      f.evaluate (frostCondition.truths dotted frostInputs frostRecord) = .ok (.number 0.5) := by
  have hqueries : ∀ i m, Occurs (.query i m) frostCondition →
      i = "frost" ∧ m = "light" ∨ i = "wind" ∧ m = "strong" := by
    intro i m h
    have hmem := mem_queries_iff.2 h
    simp only [frostCondition, queries, queriesOf, List.append_nil, List.cons_append,
      List.nil_append, List.mem_cons, Prod.mk.injEq, List.not_mem_nil, or_false] at hmem
    tauto
  have htranslatable : frostCondition.Translatable := by
    constructor
    · simp [frostCondition, occurs_iff]
    · simp [frostCondition, occurs_iff]
    · simp [frostCondition, occurs_iff]
  have hname : NamedApart dotted frostCondition := by
    intro i m i' m' h h' hshared
    rcases hqueries i m h with ⟨rfl, rfl⟩ | ⟨rfl, rfl⟩ <;>
      rcases hqueries i' m' h' with ⟨rfl, rfl⟩ | ⟨rfl, rfl⟩ <;>
      first
        | exact ⟨rfl, rfl⟩
        | exact absurd hshared (by decide)
  have htruths : ∀ i m, Occurs (.query i m) frostCondition →
      ∃ v, queryTruth frostInputs frostRecord i m = .ok v := by
    intro i m h
    rcases hqueries i m h with ⟨rfl, rfl⟩ | ⟨rfl, rfl⟩
    · exact ⟨.sentinel .ignoring, rfl⟩
    · exact ⟨.number 0.5, rfl⟩
  have hvalue : frostCondition.evaluate frostInputs frostRecord = .ok (.number 0.5) := by rfl
  obtain ⟨f, hf, heval⟩ := evaluate_toFormula? htranslatable hname htruths
  exact ⟨f, hf, heval.trans hvalue⟩

end Expr

end FuzzyInference
