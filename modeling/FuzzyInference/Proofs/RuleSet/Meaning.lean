import FuzzyInference.Proofs.Scalar.Order
import FuzzyInference.RuleSet
import Mathlib.Data.List.Forall2

/-!
# What a rule set concludes

The rules of a set are evaluated in order, and the conclusions so far are kept as
one implication. Missing conclusions give way in the union, replace another
missing one or vanish beside a present one. The outcome is described without any
of this, from the list of what each rule contributes.

Results:

* `union_combined`: one more conclusion is one more contribution.
* `evaluate_meaning`: errors in rule order, the terms of the conclusion, its
  sentinel, and its height everywhere.
* `evaluate_ofTwoRules`: a case of it on 64-bit numbers.
-/

namespace FuzzyInference.RuleSet

variable {α : Type}

/-- The contributions whose clip is a number or stands for one, in order. -/
def clippedTerms (cs : List (Curve α × Value α)) : List (Clipped α) :=
  cs.filterMap fun p => p.2.resolve.map fun h => ⟨p.1, h⟩

/-- Whether the last contribution is clipped at a sentinel that gives way. -/
def lastIgnores (cs : List (Curve α × Value α)) : Bool :=
  match cs.getLast? with
  | some (_, .sentinel t) => t.ignore
  | _ => false

/-- The conclusion that contributions make together. -/
def combined (s : RuleSet α) (cs : List (Curve α × Value α)) : Implication α where
  min := s.result.min
  max := s.result.max
  terms := clippedTerms cs
  noData := if clippedTerms cs = [] then some ⟨lastIgnores cs, none⟩ else none

/-- The conclusion of contributions, if there are any. -/
def total (s : RuleSet α) (cs : List (Curve α × Value α)) : Option (Implication α) :=
  if cs = [] then none else some (s.combined cs)

theorem total_append (s : RuleSet α) (cs : List (Curve α × Value α)) (p : Curve α × Value α) :
    s.total (cs ++ [p]) = some (s.combined (cs ++ [p])) := by
  simp [total]

theorem clippedTerms_append (cs ds : List (Curve α × Value α)) :
    clippedTerms (cs ++ ds) = clippedTerms cs ++ clippedTerms ds := by
  simp [clippedTerms]

theorem combined_singleton (s : RuleSet α) (c : Curve α) (v : Value α) :
    s.combined [(c, v)] = .ofClip s.result.min s.result.max c v := by
  cases v with
  | number h => simp [combined, clippedTerms, Value.resolve, Implication.ofClip]
  | sentinel t =>
    cases ht : t.substitution <;>
      simp [combined, clippedTerms, Value.resolve, Implication.ofClip, ht, lastIgnores]

variable [Scalar α]

/-- What a rule contributes: the curve that it concludes and the truth that the
    curve is clipped at. -/
def contribution (s : RuleSet α) (record : Record α) (r : Rule α) :
    Result α (Curve α × Value α) := do
  let clip ← r.clip s.inputs record
  let c ← s.result.curve r.membership
  return (c, clip)

/-- The rules of a list contribute, one after the other. -/
def Contributions (s : RuleSet α) (record : Record α) (rs : List (Rule α))
    (cs : List (Curve α × Value α)) : Prop :=
  List.Forall₂ (fun r p => s.contribution record r = .ok p) rs cs

/-! ## One conclusion -/

theorem evaluate_of_contribution {s : RuleSet α} {record : Record α} {r : Rule α} {c : Curve α}
    {v : Value α} (h : s.contribution record r = .ok (c, v)) :
    r.evaluate s.inputs s.result record = .ok (s.combined [(c, v)]) := by
  rw [combined_singleton]
  unfold contribution at h
  unfold Rule.evaluate Variable.implication
  cases hclip : r.clip s.inputs record with
  | error e => simp [hclip, bind, Except.bind] at h
  | ok u =>
    cases hcurve : s.result.curve r.membership with
    | error e => simp [hclip, hcurve, bind, Except.bind] at h
    | ok d =>
      simp only [hclip, hcurve, bind, Except.bind, pure, Except.pure, Except.ok.injEq,
        Prod.mk.injEq] at h
      obtain ⟨rfl, rfl⟩ := h
      simp [bind, Except.bind, pure, Except.pure]

theorem evaluate_of_failure {s : RuleSet α} {record : Record α} {r : Rule α} {e : Error α}
    (h : s.contribution record r = .error e) :
    r.evaluate s.inputs s.result record = .error e := by
  unfold contribution at h
  unfold Rule.evaluate Variable.implication
  cases hclip : r.clip s.inputs record with
  | error e' => simpa [hclip, bind, Except.bind] using h
  | ok u =>
    cases hcurve : s.result.curve r.membership with
    | error e' => simpa [hclip, hcurve, bind, Except.bind] using h
    | ok d => simp [hclip, hcurve, bind, Except.bind, pure, Except.pure] at h

/-! ## Union -/

/-- Behind contributions without a clip the next one decides, and behind one with a
    clip a missing one is not seen. -/
theorem union_combined {s : RuleSet α} (hmin : (s.result.min == s.result.min) = true)
    (hmax : (s.result.max == s.result.max) = true) (cs : List (Curve α × Value α)) (c : Curve α)
    (v : Value α) :
    (s.combined cs).union (s.combined [(c, v)]) = .ok (s.combined (cs ++ [(c, v)])) := by
  -- Both conclusions have the same range, but an undefined bound would differ from itself.
  have hrange : ((s.combined cs).min == (s.combined [(c, v)]).min &&
      (s.combined cs).max == (s.combined [(c, v)]).max) = true := by
    simp [combined, hmin, hmax]
  by_cases hcs : clippedTerms cs = []
  · have hmissing : (s.combined cs).noData.isSome = true := by simp [combined, hcs]
    rw [Implication.union_noData_left hrange hmissing]
    simp [combined, clippedTerms_append, hcs, lastIgnores]
  · have hpresent : (s.combined cs).noData = none := by simp [combined, hcs]
    unfold Implication.union
    rw [if_pos hrange]
    simp only [hpresent, Option.isSome_none, Bool.false_eq_true, if_false]
    by_cases hv : clippedTerms [(c, v)] = []
    · simp [combined, clippedTerms_append, hv, hcs]
    · simp [combined, clippedTerms_append, hv, hcs]

/-- One step of the loop: a contribution joins the ones before it. -/
theorem uniteFrom_cons {s : RuleSet α} (hmin : (s.result.min == s.result.min) = true)
    (hmax : (s.result.max == s.result.max) = true) {record : Record α} {r : Rule α}
    {p : Curve α × Value α} (hp : s.contribution record r = .ok p) (cs : List (Curve α × Value α))
    (rs : List (Rule α)) :
    s.uniteFrom record (s.total cs) (r :: rs) = s.uniteFrom record (s.total (cs ++ [p])) rs := by
  rw [uniteFrom, evaluate_of_contribution hp, total_append]
  by_cases hcs : cs = []
  · subst hcs
    rfl
  · obtain ⟨c, v⟩ := p
    simp only [total, hcs, if_false, bind, Except.bind, union_combined hmin hmax]

theorem uniteFrom_contributions {s : RuleSet α} (hmin : (s.result.min == s.result.min) = true)
    (hmax : (s.result.max == s.result.max) = true) {record : Record α} {rs : List (Rule α)}
    {ds : List (Curve α × Value α)} (h : s.Contributions record rs ds)
    (cs : List (Curve α × Value α)) (more : List (Rule α)) :
    s.uniteFrom record (s.total cs) (rs ++ more) =
      s.uniteFrom record (s.total (cs ++ ds)) more := by
  induction h generalizing cs with
  | nil => simp
  | cons hp _ ih =>
    rw [List.cons_append, uniteFrom_cons hmin hmax hp, ih, List.append_assoc, List.singleton_append]

theorem uniteFrom_failure {s : RuleSet α} {record : Record α} {r : Rule α} {e : Error α}
    (h : s.contribution record r = .error e) (earlier : Option (Implication α))
    (rs : List (Rule α)) : s.uniteFrom record earlier (r :: rs) = .error e := by
  rw [uniteFrom, evaluate_of_failure h]
  rfl

/-! ## Heights -/

/-- The largest of zero and the heights of clipped curves, given the values of the
    curves. -/
def largestHeight (value : Curve α → α) (ts : List (Clipped α)) : α :=
  (ts.map fun t => Scalar.minimum (value t.curve) t.clip).foldl Scalar.maximum 0

theorem heightFrom_eq {n : α} {value : Curve α → α} {ts : List (Clipped α)}
    (h : ∀ t ∈ ts, t.curve.evaluate n = .ok (value t.curve)) (height : α) :
    Implication.heightFrom n height ts = .ok
        ((ts.map fun t => Scalar.minimum (value t.curve) t.clip).foldl Scalar.maximum height) := by
  induction ts generalizing height with
  | nil => rfl
  | cons t ts ih =>
    have ht := h t (by simp)
    have hts := ih fun u hu => h u (List.mem_cons_of_mem t hu)
    simp only [Implication.heightFrom, ht, bind, Except.bind, List.map_cons, List.foldl_cons]
    exact hts _

theorem valueAt_combined {s : RuleSet α} {cs : List (Curve α × Value α)}
    (hcs : clippedTerms cs ≠ []) {x : α} {value : Curve α → α}
    (h : ∀ t ∈ clippedTerms cs, t.curve.evaluate (s.result.normalize x) = .ok (value t.curve)) :
    (s.combined cs).valueAt x = .ok (.number (largestHeight value (clippedTerms cs))) := by
  have hpresent : (s.combined cs).noData = none := by simp [combined, hcs]
  have hheight := heightFrom_eq h 0
  unfold Variable.normalize at hheight
  unfold Implication.valueAt
  simp only [hpresent]
  simp only [combined, hheight, bind, Except.bind, pure, Except.pure, largestHeight]

/-! ## The whole set -/

omit [Scalar α] in
theorem clippedTerms_eq_nil {cs : List (Curve α × Value α)} :
    clippedTerms cs = [] ↔ ∀ p ∈ cs, p.2.resolve = none := by
  simp [clippedTerms, List.filterMap_eq_nil_iff]

omit [Scalar α] in
theorem resolve_eq_none {v : Value α} (h : v.resolve = none) :
    ∃ t : Sentinel α, v = .sentinel t := by
  cases v with
  | number a => cases h
  | sentinel t => exact ⟨t, rfl⟩

theorem contributions_of_forall {s : RuleSet α} {record : Record α} {rs : List (Rule α)}
    (h : ∀ r ∈ rs, ∃ p, s.contribution record r = .ok p) : ∃ cs, s.Contributions record rs cs := by
  induction rs with
  | nil => exact ⟨[], .nil⟩
  | cons r rs ih =>
    obtain ⟨p, hp⟩ := h r (by simp)
    obtain ⟨cs, hcs⟩ := ih fun r' hr' => h r' (List.mem_cons_of_mem r hr')
    exact ⟨p :: cs, .cons hp hcs⟩

theorem evaluate_combined {s : RuleSet α} (herrors : s.errors = none)
    (hmin : (s.result.min == s.result.min) = true) (hmax : (s.result.max == s.result.max) = true)
    {record : Record α} {cs : List (Curve α × Value α)} (hrules : s.rules ≠ [])
    (h : s.Contributions record s.rules cs) : s.evaluate record = .ok (s.combined cs) := by
  have hrun := uniteFrom_contributions hmin hmax h [] []
  have hcs : cs ≠ [] := by
    rintro rfl
    exact hrules (List.forall₂_nil_right_iff.1 h)
  rw [List.append_nil, List.nil_append] at hrun
  simp only [total, if_true, hcs, if_false, uniteFrom] at hrun
  simp [evaluate, herrors, hrun, bind, Except.bind, pure, Except.pure]

/-- What a set without compile errors concludes, if its result's bounds are numbers.
    Without rules it concludes nothing; otherwise the first rule that has no clip or
    names no membership of the result decides with its error. When every rule
    contributes, the conclusion lies over the result's range and has the
    contributions with a clip as its terms, in the order of the rules. It is missing
    only if there are none, and then everywhere, as the last contribution is.
    Otherwise its height is the largest of zero and the clipped curves. -/
theorem evaluate_meaning [ReflexiveNumbers α] {s : RuleSet α} (herrors : s.errors = none)
    (hmin : Scalar.isNaN s.result.min = false) (hmax : Scalar.isNaN s.result.max = false)
    (record : Record α) :
    (s.rules = [] → s.evaluate record = .error .noRules) ∧
    (∀ before r after e, s.rules = before ++ r :: after →
      (∀ p ∈ before, ∃ c, s.contribution record p = .ok c) → s.contribution record r = .error e →
      s.evaluate record = .error e) ∧
    (s.rules ≠ [] → (∀ r ∈ s.rules, ∃ c, s.contribution record r = .ok c) →
      ∃ cs i, s.Contributions record s.rules cs ∧ s.evaluate record = .ok i ∧
        i.min = s.result.min ∧ i.max = s.result.max ∧ i.terms = clippedTerms cs ∧
        ((∃ c ∈ cs, c.2.resolve ≠ none) → i.noData = none ∧
          ∀ x value,
            (∀ t ∈ i.terms, t.curve.evaluate (s.result.normalize x) = .ok (value t.curve)) →
            i.valueAt x = .ok (.number (largestHeight value i.terms))) ∧
        ((∀ c ∈ cs, c.2.resolve = none) →
          ∃ c t, cs.getLast? = some (c, .sentinel t) ∧ i.noData = some ⟨t.ignore, none⟩ ∧
            ∀ x, i.valueAt x = .ok (.sentinel ⟨t.ignore, none⟩))) := by
  have hmin' := ReflexiveNumbers.beq_self s.result.min hmin
  have hmax' := ReflexiveNumbers.beq_self s.result.max hmax
  refine ⟨?_, ?_, ?_⟩
  · intro hrules
    simp [evaluate, herrors, hrules, uniteFrom, bind, Except.bind, throw, throwThe,
      MonadExceptOf.throw]
  · intro before r after e hrules hbefore hfail
    obtain ⟨cs, hcs⟩ := contributions_of_forall hbefore
    have hrun := uniteFrom_contributions hmin' hmax' hcs [] (r :: after)
    rw [uniteFrom_failure hfail] at hrun
    simp only [total, if_true] at hrun
    simp [evaluate, herrors, hrules, hrun, bind, Except.bind]
  · intro hrules hall
    obtain ⟨cs, hcs⟩ := contributions_of_forall hall
    refine ⟨cs, s.combined cs, hcs, evaluate_combined herrors hmin' hmax' hrules hcs, rfl, rfl, rfl,
      ?_, ?_⟩
    · rintro ⟨c, hc, hclip⟩
      have hterms : clippedTerms cs ≠ [] := fun hnil => hclip (clippedTerms_eq_nil.1 hnil c hc)
      exact ⟨by simp [combined, hterms], fun x value hvalue => valueAt_combined hterms hvalue⟩
    · intro hmissing
      have hterms : clippedTerms cs = [] := clippedTerms_eq_nil.2 hmissing
      have hne : cs ≠ [] := by
        rintro rfl
        exact hrules (List.forall₂_nil_right_iff.1 hcs)
      obtain ⟨t, ht⟩ := resolve_eq_none (hmissing _ (List.getLast_mem hne))
      have hlast : cs.getLast? = some ((cs.getLast hne).1, .sentinel t) := by
        rw [List.getLast?_eq_some_getLast hne, ← ht]
      have hsentinel : (s.combined cs).noData = some ⟨t.ignore, none⟩ := by
        simp [combined, hterms, lastIgnores, hlast]
      exact ⟨_, t, hlast, hsentinel, fun x => Implication.valueAt_noData hsentinel x⟩

/-- A set of two rules, the first of which asks for an input. -/
def ofTwoRules : RuleSet Float :=
  { make (VariableStore.empty.add ⟨"x", 0, 1, .ofList [("low", .ramp)]⟩)
      ⟨"y", 0, 1, .ofList [("high", .ramp), ("mid", .tent)]⟩ with
    rules := [⟨"", .query "x" "low", "y", "high", .empty⟩, ⟨"", .constant 1, "y", "mid", .empty⟩] }

/-- A rule without data leaves the conclusion to the other one. -/
theorem evaluate_ofTwoRules :
    ∃ i, ofTwoRules.evaluate (.ofList [("x", .sentinel .propagating)]) = .ok i ∧
      i.terms = [⟨Curve.tent, 1⟩] ∧ i.noData = none := by
  have hfirst : ofTwoRules.contribution (.ofList [("x", .sentinel .propagating)])
      ⟨"", .query "x" "low", "y", "high", .empty⟩ = .ok (Curve.ramp, .sentinel .propagating) := rfl
  have hsecond : ofTwoRules.contribution (.ofList [("x", .sentinel .propagating)])
      ⟨"", .constant 1, "y", "mid", .empty⟩ = .ok (Curve.tent, .number 1) := rfl
  obtain ⟨-, -, hconclude⟩ := evaluate_meaning (s := ofTwoRules) rfl (by decide) (by decide)
    (.ofList [("x", .sentinel .propagating)])
  obtain ⟨cs, i, hcs, heval, -, -, hterms, hpresent, -⟩ := hconclude (List.cons_ne_nil _ _) (by
    intro r hr
    rcases List.mem_cons.1 hr with rfl | hr
    · exact ⟨_, hfirst⟩
    · rcases List.mem_singleton.1 hr with rfl
      exact ⟨_, hsecond⟩)
  have hlist : cs = [(Curve.ramp, .sentinel .propagating), (Curve.tent, .number 1)] := by
    cases hcs with
    | cons h₁ hcs =>
      cases hcs with
      | cons h₂ hcs =>
        cases hcs with
        | nil =>
          rw [hfirst] at h₁
          rw [hsecond] at h₂
          cases h₁
          cases h₂
          rfl
  subst hlist
  exact ⟨i, heval, hterms, (hpresent ⟨(Curve.tent, .number 1), by simp, by simp [Value.resolve]⟩).1⟩

end FuzzyInference.RuleSet
