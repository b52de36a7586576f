import FuzzyInference.Proofs.Logic.Outcome
import FuzzyInference.Proofs.Rule.Parts
import FuzzyInference.Proofs.Rule.Query

/-!
# When conditions have a truth

Every query of a condition is asked: no connective leaves an operand out when
the other one decides, and no function leaves out an argument. Besides queries,
only calls with unsuitable arguments can fail.

Results:

* `queries_of_evaluate`: a condition with a truth has one for each of its queries.
* `evaluate_of_queries`: the other direction, for suitable calls.
* `evaluate_eq_error`: an error comes from a query or from the arguments of a call.
-/

namespace FuzzyInference

variable {α : Type} [Scalar α]

/-! ## Functions -/

namespace RuleFunction

/-- The arguments that suit a function: at least two operands, behind a constant
    between zero and one for `GAMMA`. -/
def Accepts : RuleFunction → List (Expr α) → Prop
  | .sum, args | .product, args => 2 ≤ args.length
  | .gamma, args =>
    ∃ g operands, args = .constant g :: operands ∧ (0 ≤ g ∧ g ≤ 1) ∧ 2 ≤ operands.length

theorem apply_eq_error {f : RuleFunction} {vs : List (Value α)} {e : Error α}
    (h : f.apply vs = .error e) : ∃ fault, e = .argument fault := by
  cases f with
  | sum | product => exact AggregateOp.apply_eq_error h
  | gamma =>
    cases vs with
    | nil =>
      cases h
      exact ⟨_, rfl⟩
    | cons gamma operands => exact gammaMean_eq_error h

theorem Accepts.apply {f : RuleFunction} {args : List (Expr α)} (h : f.Accepts args)
    {inputs : VariableStore α} {record : Record α} {vs : List (Value α)}
    (hvs : List.Forall₂ (fun a v => a.evaluate inputs record = .ok v) args vs) :
    ∃ v, f.apply vs = .ok v := by
  cases f with
  | sum | product => exact AggregateOp.apply_eq_ok _ (hvs.length_eq ▸ h)
  | gamma =>
    obtain ⟨g, operands, rfl, hg, hlength⟩ := h
    cases hvs with
    | cons hgamma hoperands =>
      cases hgamma
      have hresolve : (Value.number g).resolve = some g := rfl
      exact exists_gammaMean hresolve hg (hoperands.length_eq ▸ hlength)

end RuleFunction

/-! ## Conditions -/

namespace Expr

variable {inputs : VariableStore α} {record : Record α}

/-- A condition with a truth has one for each of its queries. -/
theorem queries_of_evaluate {e : Expr α} {v : Value α} (h : e.evaluate inputs record = .ok v)
    {input membership : String} (hquery : Occurs (.query input membership) e) :
    ∃ u, queryTruth inputs record input membership = .ok u := by
  rw [occurs_iff] at hquery
  induction e generalizing v with
  | constant value => simp at hquery
  | query input' membership' =>
    simp only [query.injEq, within_query, or_false] at hquery
    obtain ⟨rfl, rfl⟩ := hquery
    exact ⟨v, h⟩
  | negation e ih =>
    obtain ⟨u, hu, -⟩ := bind_eq_ok.1 h
    exact ih hu (by simpa [occurs_iff] using hquery)
  | logic op l r ihl ihr =>
    obtain ⟨u, hu, h⟩ := bind_eq_ok.1 h
    obtain ⟨w, hw, -⟩ := bind_eq_ok.1 h
    simp only [reduceCtorEq, false_or, within_logic, occurs_iff] at hquery
    exact hquery.elim (ihl hu) (ihr hw)
  | call f args ih =>
    simp only [reduceCtorEq, false_or, within_call, occurs_iff] at hquery
    obtain ⟨a, ha, hquery⟩ := hquery
    obtain ⟨vs, hvs, -⟩ := evaluate_call_eq_ok.1 h
    obtain ⟨u, hu⟩ := exists_mapM_eq_ok.1 ⟨vs, mapM_eq_ok.2 hvs⟩ a ha
    exact ih a ha hu hquery

/-- A condition with suitable calls has a truth if each of its queries has one. -/
theorem evaluate_of_queries {e : Expr α}
    (hcalls : ∀ f args, Occurs (.call f args) e → f.Accepts args)
    (hqueries : ∀ input membership, Occurs (.query input membership) e →
      ∃ u, queryTruth inputs record input membership = .ok u) :
    ∃ v, e.evaluate inputs record = .ok v := by
  induction e with
  | constant value => exact ⟨_, rfl⟩
  | query input membership => exact hqueries input membership (.refl _)
  | negation e ih =>
    obtain ⟨u, hu⟩ := ih (fun f args h => hcalls f args (h.of_operand (.negated e)))
      fun i m h => hqueries i m (h.of_operand (.negated e))
    exact ⟨_, bind_eq_ok.2 ⟨u, hu, rfl⟩⟩
  | logic op l r ihl ihr =>
    obtain ⟨u, hu⟩ := ihl (fun f args h => hcalls f args (h.of_operand (.left op l r)))
      fun i m h => hqueries i m (h.of_operand (.left op l r))
    obtain ⟨w, hw⟩ := ihr (fun f args h => hcalls f args (h.of_operand (.right op l r)))
      fun i m h => hqueries i m (h.of_operand (.right op l r))
    exact ⟨_, bind_eq_ok.2 ⟨u, hu, bind_eq_ok.2 ⟨w, hw, rfl⟩⟩⟩
  | call f args ih =>
    have hargs : ∀ a ∈ args, ∃ u, a.evaluate inputs record = .ok u := fun a ha =>
      ih a ha (fun f' args' h => hcalls f' args' (h.of_operand (.argument f ha)))
        fun i m h => hqueries i m (h.of_operand (.argument f ha))
    obtain ⟨vs, hvs⟩ := exists_mapM_eq_ok.2 hargs
    obtain ⟨v, hv⟩ := (hcalls f args (.refl _)).apply (mapM_eq_ok.1 hvs)
    exact ⟨v, evaluate_call_eq_ok.2 ⟨vs, mapM_eq_ok.1 hvs, hv⟩⟩

/-- The error of a condition is the one of a query, or the arguments of a call are
    unsuitable. -/
theorem evaluate_eq_error {e : Expr α} {fault : Error α}
    (h : e.evaluate inputs record = .error fault) :
    (∃ input membership, Occurs (.query input membership) e ∧
      queryTruth inputs record input membership = .error fault) ∨
    ∃ argument, fault = .argument argument := by
  induction e with
  | constant value => cases h
  | query input membership => exact .inl ⟨input, membership, .refl _, h⟩
  | negation e ih =>
    rcases bind_eq_error.1 h with h | ⟨u, -, h⟩
    · exact (ih h).imp_left fun ⟨i, m, hquery, hfault⟩ =>
        ⟨i, m, hquery.of_operand (.negated e), hfault⟩
    · cases h
  | logic op l r ihl ihr =>
    rcases bind_eq_error.1 h with h | ⟨u, -, h⟩
    · exact (ihl h).imp_left fun ⟨i, m, hquery, hfault⟩ =>
        ⟨i, m, hquery.of_operand (.left op l r), hfault⟩
    · rcases bind_eq_error.1 h with h | ⟨w, -, h⟩
      · exact (ihr h).imp_left fun ⟨i, m, hquery, hfault⟩ =>
          ⟨i, m, hquery.of_operand (.right op l r), hfault⟩
      · cases h
  | call f args ih =>
    rcases bind_eq_error.1 h with h | ⟨vs, -, h⟩
    · rw [evaluateAll_eq_mapM] at h
      obtain ⟨a, ha, h⟩ := mapM_eq_error h
      exact (ih a ha h).imp_left fun ⟨i, m, hquery, hfault⟩ =>
        ⟨i, m, hquery.of_operand (.argument f ha), hfault⟩
    · exact .inr (RuleFunction.apply_eq_error h)

end Expr

end FuzzyInference
