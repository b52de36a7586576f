import FuzzyInference.Proofs.Implication.Union
import FuzzyInference.Proofs.RuleSet.Outcome

/-!
# The order of rules

Rules in another order contribute the same curves and clips in another order, so
the conclusion has its terms in another order. Missing conclusions replace each
other, and where they are all of one kind that does not show either.

Results:

* `combined_perm`: contributions in another order make a conclusion that differs
  in the order of terms.
* `evaluate_perm`: so do rules in another order.
* `order_and_grouping`: neither the grouping of unions nor the order of rules
  matters.
-/

namespace FuzzyInference.RuleSet

open Implication

variable {α : Type}

/-- The contributions that are missing give way alike, or none of them does. -/
def MissingAlike (ignore : Bool) (cs : List (Curve α × Value α)) : Prop :=
  ∀ p ∈ cs, ∀ t, p.2 = .sentinel t → t.substitution = none → t.ignore = ignore

theorem lastIgnores_eq {ignore : Bool} {cs : List (Curve α × Value α)} (h : MissingAlike ignore cs)
    (hne : cs ≠ []) (hmissing : clippedTerms cs = []) : lastIgnores cs = ignore := by
  have hlast := List.getLast_mem hne
  rcases hp : cs.getLast hne with ⟨c, v⟩
  rw [hp] at hlast
  have hnone := clippedTerms_eq_nil.1 hmissing _ hlast
  obtain ⟨t, rfl⟩ := resolve_eq_none hnone
  rw [lastIgnores, List.getLast?_eq_some_getLast hne, hp]
  exact h _ hlast t rfl hnone

/-- Contributions in another order make a conclusion that differs in the order of
    terms. -/
theorem combined_perm {s : RuleSet α} {ignore : Bool} {cs ds : List (Curve α × Value α)}
    (hcs : MissingAlike ignore cs) (hperm : cs.Perm ds) :
    Rearranged (s.combined cs) (s.combined ds) := by
  have hterms : (clippedTerms cs).Perm (clippedTerms ds) := hperm.filterMap _
  refine ⟨rfl, rfl, ?_, fun _ => hterms⟩
  show (if clippedTerms cs = [] then _ else _) = if clippedTerms ds = [] then _ else _
  by_cases hmissing : clippedTerms cs = []
  · have hmissing' : clippedTerms ds = [] := List.perm_nil.1 (hmissing ▸ hterms.symm)
    rw [if_pos hmissing, if_pos hmissing']
    by_cases hnil : cs = []
    · subst hnil
      rw [List.nil_perm.1 hperm]
    · have hnil' : ds ≠ [] := fun h => hnil (List.perm_nil.1 (h ▸ hperm))
      have hds : MissingAlike ignore ds := fun p hp => hcs p (hperm.mem_iff.2 hp)
      rw [lastIgnores_eq hcs hnil hmissing, lastIgnores_eq hds hnil' hmissing']
  · have hmissing' : clippedTerms ds ≠ [] := fun h => hmissing (List.perm_nil.1 (h ▸ hterms))
    rw [if_neg hmissing, if_neg hmissing']

variable [Scalar α] {s : RuleSet α} {record : Record α} {rules : List (Rule α)}

theorem missingAlike_of_contributions {ignore : Bool} {cs : List (Curve α × Value α)}
    (h : s.Contributions record rules cs)
    (hclips : ∀ r ∈ rules, ∀ t, r.clip s.inputs record = .ok (.sentinel t) → t.substitution = none →
      t.ignore = ignore) : MissingAlike ignore cs := by
  induction h with
  | nil => exact nofun
  | @cons r p rules cs hp _ ih =>
    rw [List.forall_mem_cons] at hclips
    obtain ⟨c, v⟩ := p
    refine List.forall_mem_cons.2 ⟨?_, ih hclips.2⟩
    rintro t rfl
    exact hclips.1 t (contribution_eq_ok.1 hp).1

/-- Rules in another order contribute the same in another order. -/
theorem contributions_perm {rules' : List (Rule α)} {cs : List (Curve α × Value α)}
    (h : s.Contributions record rules cs) (hperm : rules'.Perm rules) :
    ∃ ds, s.Contributions record rules' ds ∧ ds.Perm cs := List.perm_comp_forall₂ hperm h

theorem range_of_evaluate {r : Rule α} {i : Implication α}
    (h : r.evaluate s.inputs s.result record = .ok i) :
    i.min = s.result.min ∧ i.max = s.result.max := by
  rcases hp : s.contribution record r with e | ⟨c, v⟩
  · rw [evaluate_of_failure hp] at h
    cases h
  · rw [evaluate_of_contribution hp] at h
    cases h
    exact ⟨rfl, rfl⟩

/-- If the range is not equal to itself, a second rule ends the evaluation. -/
theorem rules_eq_singleton
    (hrange : ¬ (s.result.min == s.result.min && s.result.max == s.result.max) = true)
    {i : Implication α} (h : s.evaluate record = .ok i) : ∃ r, s.rules = [r] := by
  unfold evaluate at h
  split at h
  · cases h
  · obtain ⟨total, htotal, h⟩ := bind_eq_ok.1 h
    match hrules : s.rules with
    | [] =>
      rw [hrules] at htotal
      cases htotal
      cases h
    | [r] => exact ⟨r, rfl⟩
    | r₁ :: r₂ :: rs =>
      rw [hrules] at htotal
      obtain ⟨i₁, hi₁, htotal⟩ := bind_eq_ok.1 htotal
      obtain ⟨i₁', h₁', htotal⟩ := bind_eq_ok.1 htotal
      cases h₁'
      obtain ⟨i₂, hi₂, htotal⟩ := bind_eq_ok.1 htotal
      obtain ⟨both, hboth, -⟩ := bind_eq_ok.1 htotal
      have hdiffer : ¬ (i₁.min == i₂.min && i₁.max == i₂.max) = true := by
        rw [(range_of_evaluate hi₁).1, (range_of_evaluate hi₁).2, (range_of_evaluate hi₂).1,
          (range_of_evaluate hi₂).2]
        exact hrange
      unfold Implication.union at hboth
      rw [if_neg hdiffer] at hboth
      cases hboth

/-- Rules in another order have a conclusion too, which differs in the order of
    terms. -/
theorem evaluate_perm {ignore : Bool} (hperm : rules.Perm s.rules)
    (hclips : ∀ r ∈ s.rules, ∀ t, r.clip s.inputs record = .ok (.sentinel t) →
      t.substitution = none →
      t.ignore = ignore) {i : Implication α} (h : s.evaluate record = .ok i) :
    ∃ j, { s with rules }.evaluate record = .ok j ∧ Rearranged i j := by
  by_cases hrange : (s.result.min == s.result.min && s.result.max == s.result.max) = true
  · obtain ⟨hmin, hmax⟩ := Bool.and_eq_true_iff.1 hrange
    obtain ⟨herrors, hrules, cs, hcs, rfl⟩ := contributions_of_evaluate hmin hmax h
    obtain ⟨ds, hds, hdsperm⟩ := contributions_perm hcs hperm
    have hrules' : rules ≠ [] := fun hnil => hrules (List.nil_perm.1 (hnil ▸ hperm))
    refine ⟨s.combined ds, ?_,
      combined_perm (missingAlike_of_contributions hcs hclips) hdsperm.symm⟩
    exact evaluate_combined (s := { s with rules }) herrors hmin hmax hrules' hds
  · obtain ⟨r, hr⟩ := rules_eq_singleton hrange h
    rw [hr] at hperm
    obtain rfl : rules = s.rules := (List.perm_singleton.1 hperm).trans hr.symm
    exact ⟨i, h, rfl, rfl, rfl, fun _ => .refl _⟩

/-- Neither the order nor the grouping of unions matters, nor does the order of
    rules. Take implications over one range of numbers, the missing ones of which
    carry one sentinel. United in any order and with any bracketing they agree at
    every position: where one union has a value so has the other, and it is the same
    one, numbers being compared as equal when they are zeros of either sign. Hence a
    set and the same set with its rules in another order, for a record whose rules
    are clipped at one kind of sentinel that stands for no number, both have a
    conclusion or both have none. Each method, with each number of samples, reduces
    both conclusions to the very same value, or neither of them. -/
theorem order_and_grouping [OrderedNumbers α] [SignedZeros α] :
    (∀ (min max : α) (missing : Sentinel α) (g h : Grouping α), Scalar.isNaN min = false →
      Scalar.isNaN max = false → (∀ m ∈ g.members, Over min max missing m) →
      g.members.Perm h.members →
      ∃ i j, g.unite = .ok i ∧ h.unite = .ok j ∧ ∀ x,
        (∀ u, i.valueAt x = .ok u → ∃ v, j.valueAt x = .ok v ∧ u.Alike v) ∧
        (∀ v, j.valueAt x = .ok v → ∃ u, i.valueAt x = .ok u ∧ v.Alike u)) ∧
    (∀ (s : RuleSet α) (rules : List (Rule α)) (record : Record α) (ignore : Bool),
      rules.Perm s.rules →
      (∀ r ∈ s.rules, ∀ t, r.clip s.inputs record = .ok (.sentinel t) → t.substitution = none →
        t.ignore = ignore) →
      ((∃ i, s.evaluate record = .ok i) ↔ ∃ j, { s with rules }.evaluate record = .ok j) ∧
      ∀ i j, s.evaluate record = .ok i → { s with rules }.evaluate record = .ok j →
        ∀ method count v, i.defuzzify method count = .ok v ↔ j.defuzzify method count = .ok v) := by
  constructor
  · intro min max missing g h hmin hmax hover hperm
    have hmin' := ReflexiveNumbers.beq_self min hmin
    have hmax' := ReflexiveNumbers.beq_self max hmax
    obtain ⟨i, hi, hcollects⟩ := unite_collects hmin' hmax' g hover
    obtain ⟨j, hj, hcollects'⟩ := unite_collects hmin' hmax' h fun m hm =>
      hover m (hperm.mem_iff.2 hm)
    have hrearranged := rearranged_of_perm hcollects hcollects' hperm
    exact ⟨i, j, hi, hj, fun x => ⟨fun u => hrearranged.valueAt, fun v => hrearranged.symm.valueAt⟩⟩
  · intro s rules record ignore hperm hclips
    have hclips' : ∀ r ∈ rules, ∀ t, r.clip s.inputs record = .ok (.sentinel t) →
        t.substitution = none → t.ignore = ignore := fun r hr => hclips r (hperm.mem_iff.1 hr)
    refine ⟨⟨fun ⟨i, hi⟩ => ?_, fun ⟨j, hj⟩ => ?_⟩, fun i j hi hj method count v => ?_⟩
    · obtain ⟨j, hj, -⟩ := evaluate_perm hperm hclips hi
      exact ⟨j, hj⟩
    · obtain ⟨i, hi, -⟩ := evaluate_perm (s := { s with rules }) hperm.symm hclips' hj
      exact ⟨i, hi⟩
    · obtain ⟨j', hj', hrearranged⟩ := evaluate_perm hperm hclips hi
      obtain rfl := Except.ok.inj (hj.symm.trans hj')
      exact ⟨hrearranged.defuzzify, hrearranged.symm.defuzzify⟩

/-- `wind IS high` clips the first membership of the result, `rain IS high` the
    second one. -/
def ofBreeze : RuleSet Float :=
  { make (.ofList [⟨"wind", 0, 100, .ofList [("high", .ramp)]⟩,
        ⟨"rain", 0, 1, .ofList [("high", .tent)]⟩])
      ⟨"risk", 0, 10, .ofList [("high", .ramp), ("low", .tent)]⟩ with
    rules := [⟨"", .query "wind" "high", "risk", "high", .empty⟩,
      ⟨"", .query "rain" "high", "risk", "low", .empty⟩] }

/-- Two conclusions and one without data between them, united from the left. -/
def breezeGrouping : Grouping Float :=
  .both (.both (.one (.ofClip 0 10 .ramp (.number 0.25)))
    (.one (.ofClip 0 10 .tent (.sentinel .ignoring)))) (.one (.ofClip 0 10 .tent (.number 1)))

/-- The same conclusions in another order, united from the right. -/
def breezeRegrouping : Grouping Float :=
  .both (.one (.ofClip 0 10 .tent (.number 1)))
    (.both (.one (.ofClip 0 10 .ramp (.number 0.25)))
      (.one (.ofClip 0 10 .tent (.sentinel .ignoring))))

/-- A conclusion without data between two others, and a rule without data behind or
    before another. -/
theorem order_of_ofBreeze :
    (∃ i j, breezeGrouping.unite = .ok i ∧ breezeRegrouping.unite = .ok j ∧
      ∀ x u, i.valueAt x = .ok u → ∃ v, j.valueAt x = .ok v ∧ u.Alike v) ∧
    ∃ i j,
      ofBreeze.evaluate (.ofList [("wind", .number 25), ("rain", .sentinel .ignoring)]) = .ok i ∧
      { ofBreeze with rules := ofBreeze.rules.reverse }.evaluate
        (.ofList [("wind", .number 25), ("rain", .sentinel .ignoring)]) = .ok j ∧
      ∀ method count v, i.defuzzify method count = .ok v ↔ j.defuzzify method count = .ok v := by
  obtain ⟨hgrouping, horder⟩ := order_and_grouping (α := Float)
  constructor
  · have hover : ∀ m ∈ breezeGrouping.members, Over 0 10 .ignoring m := by
      intro m hm
      simp only [breezeGrouping, Grouping.members, List.cons_append, List.nil_append, List.mem_cons,
        List.not_mem_nil, or_false] at hm
      rcases hm with rfl | rfl | rfl
      · exact over_ofClip_number 0 10 .ramp 0.25
      · exact over_ofClip_sentinel 0 10 .tent (t := .ignoring) rfl
      · exact over_ofClip_number 0 10 .tent 1
    obtain ⟨i, j, hi, hj, hagree⟩ := hgrouping 0 10 .ignoring breezeGrouping breezeRegrouping
      (by decide) (by decide) hover List.perm_append_comm
    exact ⟨i, j, hi, hj, fun x => (hagree x).1⟩
  · have hclips : ∀ r ∈ ofBreeze.rules, ∀ t, r.clip ofBreeze.inputs
        (.ofList [("wind", .number 25), ("rain", .sentinel .ignoring)]) = .ok (.sentinel t) →
        t.substitution = none → t.ignore = true := by
      intro r hr t ht _
      rcases List.mem_cons.1 hr with rfl | hr
      · cases ht
      · rcases List.mem_singleton.1 hr with rfl
        cases ht
        rfl
    obtain ⟨hboth, hreduced⟩ :=
      horder ofBreeze ofBreeze.rules.reverse _ true (List.reverse_perm _) hclips
    obtain ⟨i, hi⟩ : ∃ i, ofBreeze.evaluate
        (.ofList [("wind", .number 25), ("rain", .sentinel .ignoring)]) = .ok i := ⟨_, rfl⟩
    obtain ⟨j, hj⟩ := hboth.1 ⟨i, hi⟩
    exact ⟨i, j, hi, hj, hreduced i j hi hj⟩

end FuzzyInference.RuleSet
