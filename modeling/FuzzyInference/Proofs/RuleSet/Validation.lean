import FuzzyInference.Proofs.Curve.Totality
import FuzzyInference.Proofs.RuleSet.Outcome

/-!
# Validation

Validation looks up what the queries that are listed for the conditions name,
and evaluation what it comes across in the conditions. Both come to the same
names, so validation foretells every error that does not hang on a record.

Results:

* `validate_eq_ok`: what validation accepts.
* `validate_sound_complete`: an accepted set fails on a record's account only,
  and a set that concludes anything is accepted.
-/

namespace FuzzyInference.RuleSet

open FuzzyInference.Expr

variable {α : Type} {s : RuleSet α}

theorem checkQuery_eq_ok {input membership : String} :
    s.checkQuery (input, membership) = .ok () ↔
      ∃ v c, s.inputs.get? input = some v ∧ v.curves.get? membership = some c := by
  unfold checkQuery
  cases s.inputs.get? input with
  | none => simp
  | some v => simp [bind_eq_ok, Variable.curve_eq_ok, pure, Except.pure]

theorem checkRule_eq_ok {r : Rule α} :
    s.checkRule r = .ok () ↔
      (∀ input membership, Occurs (.query input membership) r.condition →
        ∃ v c, s.inputs.get? input = some v ∧ v.curves.get? membership = some c) ∧
      ∃ c, s.result.curves.get? r.membership = some c := by
  have hqueries : r.condition.queries.forM s.checkQuery = .ok () ↔
      ∀ input membership, Occurs (.query input membership) r.condition →
        ∃ v c, s.inputs.get? input = some v ∧ v.curves.get? membership = some c := by
    simp only [forM_eq_ok, Prod.forall, mem_queries_iff, checkQuery_eq_ok]
  unfold checkRule
  rw [bind_eq_ok, ← hqueries]
  constructor
  · rintro ⟨⟨⟩, hall, h⟩
    obtain ⟨c, hc, -⟩ := bind_eq_ok.1 h
    exact ⟨hall, c, Variable.curve_eq_ok.1 hc⟩
  · rintro ⟨hall, c, hc⟩
    exact ⟨(), hall, bind_eq_ok.2 ⟨c, Variable.curve_eq_ok.2 hc, rfl⟩⟩

/-- Validation accepts the sets that compiled and in which every name in a rule is
    known. -/
theorem validate_eq_ok :
    s.validate = .ok () ↔ s.errors = none ∧ ∀ r ∈ s.rules,
      (∀ input membership, Occurs (.query input membership) r.condition →
        ∃ v c, s.inputs.get? input = some v ∧ v.curves.get? membership = some c) ∧
      ∃ c, s.result.curves.get? r.membership = some c := by
  unfold validate
  cases s.errors with
  | some errors => simp
  | none => simp only [forM_eq_ok, checkRule_eq_ok, true_and]

/-- The errors that a rule of an accepted set can have: they hang on the record, or
    on the arguments of a call and the shape of a curve. -/
def IsRecordError : Error α → Prop
  | .missingValue _ | .outOfDomain .. | .segment _ | .argument _ => True
  | _ => False

variable [Scalar α] {record : Record α}

theorem isRecordError_of_query {input membership : String} {v : Variable α} {c : Curve α}
    (hv : s.inputs.get? input = some v) (hc : v.curves.get? membership = some c) {e : Error α}
    (h : queryTruth s.inputs record input membership = .error e) : IsRecordError e := by
  rcases queryTruth_eq_error.1 h with ⟨hnone, -⟩ | ⟨w, hw, ⟨-, rfl⟩ | ⟨value, -, h⟩⟩
  · rw [hv] at hnone
    cases hnone
  · trivial
  · obtain rfl : v = w := Option.some.inj (hv.symm.trans hw)
    rcases Variable.truth_eq_error.1 h with h | ⟨d, x, -, -, h⟩
    · rw [Variable.curve_eq_ok.2 hc] at h
      cases h
    · rcases Curve.evaluate_eq_error h with ⟨y, lo, hi, rfl⟩ | ⟨fault, rfl⟩ | rfl <;> trivial

theorem isRecordError_of_contribution (hvalid : s.validate = .ok ()) {r : Rule α} (hr : r ∈ s.rules)
    {e : Error α} (h : s.contribution record r = .error e) : IsRecordError e := by
  obtain ⟨hqueries, c, hc⟩ := (validate_eq_ok.1 hvalid).2 r hr
  rcases contribution_eq_error h with h | h
  · rcases evaluate_eq_error h with ⟨input, membership, hquery, h⟩ | ⟨fault, rfl⟩
    · obtain ⟨v, d, hv, hd⟩ := hqueries input membership hquery
      exact isRecordError_of_query hv hd h
    · trivial
  · rw [Variable.curve_eq_ok.2 hc] at h
    cases h

/-- Validation resolves names as evaluation does. If a set whose result has numbers
    as bounds is accepted, no record makes its evaluation fail with an unknown input
    or membership, with compile errors or with ranges that differ, nor for want of
    rules unless it has none. And if it has a conclusion for any record, it is
    accepted. -/
theorem validate_sound_complete [ReflexiveNumbers α] (s : RuleSet α)
    (hmin : Scalar.isNaN s.result.min = false) (hmax : Scalar.isNaN s.result.max = false) :
    (s.validate = .ok () → ∀ record e, s.evaluate record = .error e →
      (∀ input, e ≠ .unknownInput input) ∧
      (∀ name membership, e ≠ .unknownMembership name membership) ∧
      (∀ errors, e ≠ .rulesNotCompiled errors) ∧
      (∀ a b c d, e ≠ .rangeMismatch a b c d) ∧
      (e = .noRules → s.rules = [])) ∧
    ((∃ record i, s.evaluate record = .ok i) → s.validate = .ok ()) := by
  have hmin' := ReflexiveNumbers.beq_self s.result.min hmin
  have hmax' := ReflexiveNumbers.beq_self s.result.max hmax
  constructor
  · intro hvalid record e he
    rcases evaluate_cases hmin' hmax' record with ⟨errors, herrors, -⟩ | ⟨-, hrules, h⟩ |
      ⟨-, r, hr, e', he', h⟩ | ⟨-, -, cs, -, h⟩
    · rw [(validate_eq_ok.1 hvalid).1] at herrors
      cases herrors
    · obtain rfl := Except.error.inj (he.symm.trans h)
      exact ⟨nofun, nofun, nofun, nofun, fun _ => hrules⟩
    · obtain rfl := Except.error.inj (he.symm.trans h)
      have hrecord := isRecordError_of_contribution hvalid hr he'
      exact ⟨by rintro _ rfl; exact hrecord, by rintro _ _ rfl; exact hrecord,
        by rintro _ rfl; exact hrecord, by rintro _ _ _ _ rfl; exact hrecord,
        by rintro rfl; exact hrecord.elim⟩
    · rw [he] at h
      cases h
  · rintro ⟨record, i, hi⟩
    obtain ⟨herrors, -, cs, hcs, -⟩ := contributions_of_evaluate hmin' hmax' hi
    refine validate_eq_ok.2 ⟨herrors, fun r hr => ?_⟩
    obtain ⟨⟨v, hv⟩, hmembership⟩ := exists_contributions.1 ⟨cs, hcs⟩ r hr
    refine ⟨fun input membership hquery => ?_, hmembership⟩
    obtain ⟨u, hu⟩ := queries_of_evaluate hv hquery
    obtain ⟨w, value, hw, -, hu⟩ := queryTruth_eq_ok.1 hu
    obtain ⟨c, hc, -⟩ := Variable.truth_eq_ok.1 hu
    exact ⟨w, c, hw, hc⟩

/-- A set with the condition `GAMMA(0.5, NOT wind IS high, wind IS high OR rain IS
    high)`. -/
def ofStorm : RuleSet Float :=
  { make (.ofList [⟨"wind", 0, 100, .ofList [("high", .ramp)]⟩,
        ⟨"rain", 0, 1, .ofList [("high", .tent)]⟩])
      ⟨"risk", 0, 10, .ofList [("high", .ramp)]⟩ with
    rules := [⟨"", .call .gamma [.constant 0.5, .negation (.query "wind" "high"),
      .logic .or (.query "wind" "high") (.query "rain" "high")], "risk", "high", .empty⟩] }

/-- One record with a conclusion shows that no record has an unresolved name. -/
theorem validate_ofStorm :
    ofStorm.validate = .ok () ∧ ∀ record e, ofStorm.evaluate record = .error e →
      (∀ input, e ≠ .unknownInput input) ∧
      ∀ name membership, e ≠ .unknownMembership name membership := by
  have hall := validate_sound_complete ofStorm (by decide) (by decide)
  have hvalid : ofStorm.validate = .ok () :=
    hall.2 ⟨.ofList [("wind", .sentinel .propagating), ("rain", .sentinel .ignoring)], _, rfl⟩
  exact ⟨hvalid, fun record e he =>
    ⟨(hall.1 hvalid record e he).1, (hall.1 hvalid record e he).2.1⟩⟩

end FuzzyInference.RuleSet
