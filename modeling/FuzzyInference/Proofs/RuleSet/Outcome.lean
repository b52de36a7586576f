import FuzzyInference.Proofs.Rule.Outcome
import FuzzyInference.Proofs.RuleSet.Meaning

/-!
# When a rule set has a conclusion

A set without compile errors has a conclusion exactly if it has rules and each
of them contributes; otherwise its error is the one of a rule.

Results:

* `contribution_eq_ok` and `contribution_eq_error`: when a rule contributes.
* `evaluate_cases`: the four ways an evaluation can end.
-/

namespace FuzzyInference.RuleSet

variable {α : Type} [Scalar α] {s : RuleSet α} {record : Record α}

theorem contribution_eq_ok {r : Rule α} {c : Curve α} {v : Value α} :
    s.contribution record r = .ok (c, v) ↔ r.condition.evaluate s.inputs record = .ok v ∧
      s.result.curves.get? r.membership = some c := by
  unfold contribution Rule.clip
  simp only [bind_eq_ok, Variable.curve_eq_ok, pure, Except.pure, Except.ok.injEq, Prod.mk.injEq]
  constructor
  · rintro ⟨v, hv, c, hc, rfl, rfl⟩
    exact ⟨hv, hc⟩
  · rintro ⟨hv, hc⟩
    exact ⟨v, hv, c, hc, rfl, rfl⟩

theorem contribution_eq_error {r : Rule α} {e : Error α} (h : s.contribution record r = .error e) :
    r.condition.evaluate s.inputs record = .error e ∨ s.result.curve r.membership = .error e := by
  rcases bind_eq_error.1 h with h | ⟨v, -, h⟩
  · exact .inl h
  · rcases bind_eq_error.1 h with h | ⟨c, -, h⟩
    · exact .inr h
    · cases h

/-- Behind some contributions, all the other rules contribute, or one of them ends
    the run. -/
theorem uniteFrom_cases (hmin : (s.result.min == s.result.min) = true)
    (hmax : (s.result.max == s.result.max) = true) (cs : List (Curve α × Value α))
    (rs : List (Rule α)) :
    (∃ ds, s.Contributions record rs ds ∧
      s.uniteFrom record (s.total cs) rs = .ok (s.total (cs ++ ds))) ∨
    ∃ r ∈ rs, ∃ e, s.contribution record r = .error e ∧
      s.uniteFrom record (s.total cs) rs = .error e := by
  induction rs generalizing cs with
  | nil => exact .inl ⟨[], .nil, by simp [uniteFrom]⟩
  | cons r rs ih =>
    rcases exists_ok_or_error (s.contribution record r) with ⟨p, hp⟩ | ⟨e, he⟩
    · rw [uniteFrom_cons hmin hmax hp]
      rcases ih (cs ++ [p]) with ⟨ds, hds, hrun⟩ | ⟨r', hr', e, he, hrun⟩
      · exact .inl ⟨p :: ds, .cons hp hds, by rw [hrun, List.append_assoc, List.singleton_append]⟩
      · exact .inr ⟨r', List.mem_cons_of_mem r hr', e, he, hrun⟩
    · exact .inr ⟨r, by simp, e, he, uniteFrom_failure he _ rs⟩

/-- An evaluation reports compile errors, finds no rules, has the error of a rule,
    or concludes what the contributions make together. -/
theorem evaluate_cases (hmin : (s.result.min == s.result.min) = true)
    (hmax : (s.result.max == s.result.max) = true) (record : Record α) :
    (∃ errors, s.errors = some errors ∧ s.evaluate record = .error (.rulesNotCompiled errors)) ∨
    (s.errors = none ∧ s.rules = [] ∧ s.evaluate record = .error .noRules) ∨
    (s.errors = none ∧ ∃ r ∈ s.rules, ∃ e, s.contribution record r = .error e ∧
      s.evaluate record = .error e) ∨
    (s.errors = none ∧ s.rules ≠ [] ∧ ∃ cs, s.Contributions record s.rules cs ∧
      s.evaluate record = .ok (s.combined cs)) := by
  cases herrors : s.errors with
  | some errors => exact .inl ⟨errors, rfl, evaluate_not_compiled herrors record⟩
  | none =>
    right
    by_cases hrules : s.rules = []
    · left
      refine ⟨rfl, hrules, ?_⟩
      simp [evaluate, herrors, hrules, uniteFrom, bind, Except.bind, throw, throwThe,
        MonadExceptOf.throw]
    · right
      rcases uniteFrom_cases hmin hmax [] s.rules with ⟨cs, hcs, -⟩ | ⟨r, hr, e, he, hrun⟩
      · exact .inr ⟨rfl, hrules, cs, hcs, evaluate_combined herrors hmin hmax hrules hcs⟩
      · refine .inl ⟨rfl, r, hr, e, he, ?_⟩
        rw [total, if_pos rfl] at hrun
        simp [evaluate, herrors, hrun, bind, Except.bind]

/-- A conclusion is what the contributions of all rules make together. -/
theorem contributions_of_evaluate (hmin : (s.result.min == s.result.min) = true)
    (hmax : (s.result.max == s.result.max) = true) {i : Implication α}
    (h : s.evaluate record = .ok i) :
    s.errors = none ∧ s.rules ≠ [] ∧ ∃ cs, s.Contributions record s.rules cs ∧
    i = s.combined cs := by
  rcases evaluate_cases hmin hmax record with ⟨errors, -, h'⟩ | ⟨-, -, h'⟩ | ⟨-, r, -, e, -, h'⟩ |
    ⟨herrors, hrules, cs, hcs, h'⟩
  · cases h.symm.trans h'
  · cases h.symm.trans h'
  · cases h.symm.trans h'
  · exact ⟨herrors, hrules, cs, hcs, Except.ok.inj (h.symm.trans h')⟩

/-- Rules contribute exactly if each has a truth and names a membership of the
    result. -/
theorem exists_contributions {rs : List (Rule α)} :
    (∃ cs, s.Contributions record rs cs) ↔ ∀ r ∈ rs,
      (∃ v, r.condition.evaluate s.inputs record = .ok v) ∧
      ∃ c, s.result.curves.get? r.membership = some c := by
  unfold Contributions
  simp only [← mapM_eq_ok, exists_mapM_eq_ok, Prod.exists, contribution_eq_ok, exists_and_left,
    exists_and_right]

end FuzzyInference.RuleSet
