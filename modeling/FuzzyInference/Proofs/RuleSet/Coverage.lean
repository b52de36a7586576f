import FuzzyInference.Proofs.RuleSet.Validation
import FuzzyInference.Proofs.Variable.Store

/-!
# Records that cover a rule set

A record covers the rules of a set if it has a value for every input that is
queried, and each value is missing for good or lies in the range of its input. A
set that passed validation concludes something from the records that cover its
rules, and from no others.

Results:

* `queryTruth_iff_covers`: one query has a truth exactly if its input is covered.
* `evaluate_iff_covered`: a set has a conclusion exactly if all its queries are
  covered.
-/

namespace FuzzyInference

open FuzzyInference.Expr

variable {α : Type} [Scalar α]

/-- A value is a sentinel that stands for no number, or its number lies in a
    variable's range. -/
def Variable.Admits (v : Variable α) (value : Value α) : Prop :=
  value.resolve = none ∨ ∃ x y, value.resolve = some x ∧ inUnit (v.normalize x) = .ok y

/-- A record has a value for an input, which the input admits. -/
def VariableStore.Covers (inputs : VariableStore α) (record : Record α) (input : String) : Prop :=
  ∃ v value, inputs.get? input = some v ∧ record.get? input = some value ∧ v.Admits value

theorem Variable.truth_iff_admits [OrderedNumbers α] {v : Variable α}
    {membership : String} {c : Curve α} (hc : v.curves.get? membership = some c)
    (htotal : c.IsTotal) (value : Value α) :
    (∃ u, v.truth value membership = .ok u) ↔ v.Admits value := by
  unfold Variable.Admits
  constructor
  · rintro ⟨u, hu⟩
    obtain ⟨d, hd, ⟨hnone, -⟩ | ⟨x, y, hx, hy, -⟩⟩ := Variable.truth_eq_ok.1 hu
    · exact .inl hnone
    · obtain rfl : c = d := Option.some.inj (hc.symm.trans hd)
      obtain ⟨x', hx'⟩ := (htotal.evaluate_iff _).1 ⟨y, hy⟩
      exact .inr ⟨x, x', hx, hx'⟩
  · rintro (hnone | ⟨x, x', hx, hx'⟩)
    · exact ⟨value, Variable.truth_eq_ok.2 ⟨c, hc, .inl ⟨hnone, rfl⟩⟩⟩
    · obtain ⟨y, hy⟩ := (htotal.evaluate_iff _).2 ⟨x', hx'⟩
      exact ⟨_, Variable.truth_eq_ok.2 ⟨c, hc, .inr ⟨x, y, hx, hy, rfl⟩⟩⟩

/-- One query has a truth exactly if its input is covered. -/
theorem queryTruth_iff_covers [OrderedNumbers α] {inputs : VariableStore α} {record : Record α}
    {input membership : String} {v : Variable α} {c : Curve α} (hv : inputs.get? input = some v)
    (hc : v.curves.get? membership = some c) (htotal : c.IsTotal) :
    (∃ u, queryTruth inputs record input membership = .ok u) ↔ inputs.Covers record input := by
  constructor
  · rintro ⟨u, hu⟩
    obtain ⟨w, value, hw, hvalue, hu⟩ := queryTruth_eq_ok.1 hu
    obtain rfl : v = w := Option.some.inj (hv.symm.trans hw)
    exact ⟨v, value, hv, hvalue, (Variable.truth_iff_admits hc htotal value).1 ⟨u, hu⟩⟩
  · rintro ⟨w, value, hw, hvalue, hadmits⟩
    obtain rfl : v = w := Option.some.inj (hv.symm.trans hw)
    obtain ⟨u, hu⟩ := (Variable.truth_iff_admits hc htotal value).2 hadmits
    exact ⟨u, queryTruth_eq_ok.2 ⟨v, value, hv, hvalue, hu⟩⟩

namespace RuleSet

variable {s : RuleSet α} {record : Record α}

/-- A valid set with rules has a conclusion exactly if each of its conditions has a
    truth. -/
theorem evaluate_iff_conditions [OrderedNumbers α] (hvalid : s.validate = .ok ())
    (hrules : s.rules ≠ []) (hmin : Scalar.isNaN s.result.min = false)
    (hmax : Scalar.isNaN s.result.max = false) :
    (∃ i, s.evaluate record = .ok i) ↔
      ∀ r ∈ s.rules, ∃ v, r.condition.evaluate s.inputs record = .ok v := by
  obtain ⟨herrors, hnames⟩ := validate_eq_ok.1 hvalid
  have hmin' := ReflexiveNumbers.beq_self s.result.min hmin
  have hmax' := ReflexiveNumbers.beq_self s.result.max hmax
  constructor
  · rintro ⟨i, hi⟩ r hr
    obtain ⟨-, -, cs, hcs, -⟩ := contributions_of_evaluate hmin' hmax' hi
    exact (exists_contributions.1 ⟨cs, hcs⟩ r hr).1
  · intro htruths
    obtain ⟨cs, hcs⟩ := exists_contributions.2 fun r hr => ⟨htruths r hr, (hnames r hr).2⟩
    exact ⟨_, evaluate_combined herrors hmin' hmax' hrules hcs⟩

/-- A record covers the rules, or evaluation fails: take a valid set with rules,
    with numbers as the bounds of its result and with curves from the constructors,
    in whose rules `SUM` and `PRODUCT` have at least two arguments and `GAMMA` has a
    constant between zero and one and at least two more. It has a conclusion exactly
    if every input that is queried anywhere in a condition has a value in the record
    that is a sentinel that stands for no number, or a number in the range of the
    input, up to drift. -/
theorem evaluate_iff_covered [OrderedNumbers α] {s : RuleSet α} (hvalid : s.validate = .ok ())
    (hrules : s.rules ≠ []) (hmin : Scalar.isNaN s.result.min = false)
    (hmax : Scalar.isNaN s.result.max = false)
    (hcurves : ∀ input v membership c, s.inputs.get? input = some v →
      v.curves.get? membership = some c → c.Made)
    (hcalls : ∀ r ∈ s.rules, ∀ f args, Occurs (.call f args) r.condition → f.Accepts args)
    (record : Record α) :
    (∃ i, s.evaluate record = .ok i) ↔
      ∀ r ∈ s.rules, ∀ input membership, Occurs (.query input membership) r.condition →
        s.inputs.Covers record input := by
  rw [evaluate_iff_conditions hvalid hrules hmin hmax]
  refine forall₂_congr fun r hr => ?_
  have hquery : ∀ input membership, Occurs (.query input membership) r.condition →
      ((∃ u, queryTruth s.inputs record input membership = .ok u) ↔
        s.inputs.Covers record input) := by
    intro input membership h
    obtain ⟨v, c, hv, hc⟩ := ((validate_eq_ok.1 hvalid).2 r hr).1 input membership h
    exact queryTruth_iff_covers hv hc (hcurves input v membership c hv hc).isTotal
  constructor
  · rintro ⟨v, hv⟩ input membership h
    exact (hquery input membership h).1 (queries_of_evaluate hv h)
  · intro hcovers
    exact evaluate_of_queries (hcalls r hr) fun input membership h =>
      (hquery input membership h).2 (hcovers input membership h)

/-- A missing reading counts, and one that is not there does not. -/
theorem evaluate_ofStorm_covered :
    (∃ i,
      ofStorm.evaluate (.ofList [("wind", .number 25), ("rain", .sentinel .ignoring)]) = .ok i) ∧
      ¬ ∃ i, ofStorm.evaluate (.ofList [("wind", .number 25)]) = .ok i := by
  have hcurves : ∀ input v membership c, ofStorm.inputs.get? input = some v →
      v.curves.get? membership = some c → c.Made := by
    intro input v membership c hv hc
    simp only [ofStorm, make, VariableStore.ofList, List.foldl] at hv
    rw [VariableStore.get?_add (VariableStore.isNamed_empty.add _),
      VariableStore.get?_add VariableStore.isNamed_empty] at hv
    split at hv
    · cases hv
      simp only [OrderedMap.ofList, List.foldl, OrderedMap.get?_insert] at hc
      split at hc <;> cases hc
      exact .formula rfl
    · split at hv <;> cases hv
      simp only [OrderedMap.ofList, List.foldl, OrderedMap.get?_insert] at hc
      split at hc <;> cases hc
      exact .formula rfl
  have hcalls : ∀ r ∈ ofStorm.rules, ∀ f args, Occurs (.call f args) r.condition →
      f.Accepts args := by
    intro r hr f args h
    obtain rfl := List.mem_singleton.1 hr
    simp [occurs_iff] at h
    obtain ⟨rfl, rfl⟩ := h
    exact ⟨0.5, _, rfl, by decide, by decide⟩
  have hcovered := evaluate_iff_covered (s := ofStorm) rfl (List.cons_ne_nil _ _) (by decide)
    (by decide) hcurves hcalls
  constructor
  · refine (hcovered _).2 ?_
    intro r hr input membership h
    obtain rfl := List.mem_singleton.1 hr
    have hinput : input = "wind" ∨ input = "rain" := by
      simp [occurs_iff] at h
      tauto
    rcases hinput with rfl | rfl
    · exact ⟨_, _, rfl, rfl, .inr ⟨25, _, rfl, inUnit_of_mem (by decide)⟩⟩
    · exact ⟨_, _, rfl, rfl, .inl rfl⟩
  · intro hconclusion
    obtain ⟨v, value, -, hvalue, -⟩ :=
      (hcovered _).1 hconclusion _ (List.mem_singleton.2 rfl) "rain"
      "high" (by simp [occurs_iff])
    cases hvalue

end RuleSet

end FuzzyInference
