import FuzzyInference.Proofs.Implication.Rescaling
import FuzzyInference.Proofs.Logic.Truth
import FuzzyInference.Proofs.Rule.Parts
import FuzzyInference.Proofs.Rule.Query

/-!
# Truths stay between zero and one

A condition is made of constants and queries by operators that keep truths between
zero and one. A gamma that it computes is a truth as well, so no call finds it out of
range, however calls are nested. And the truth that a curve is clipped at bounds the
implication, whatever the curve gives.

Results:

* `keeps_evaluate`: conditions.
* `isTruth_valueAt`: heights of implications that are clipped at truths.
* `evaluate_truth`: what a condition says about a result, if its constants and queries
  are truths.
-/

namespace FuzzyInference

open OrderedNumbers Scalar

variable {α : Type} [Scalar α]

/-! ## Conditions -/

namespace Expr

variable {inputs : VariableStore α} {record : Record α}

/-- The constants of a condition are truths, and so is what its queries find in a
    record, unless it is missing and stands for no number. -/
structure AsksTruths (inputs : VariableStore α) (record : Record α) (e : Expr α) : Prop where
  constants : ∀ value, Occurs (.constant value) e → IsTruth value
  queries : ∀ input membership, Occurs (.query input membership) e →
    ∀ u, queryTruth inputs record input membership = .ok u → u.Holds IsTruth

theorem AsksTruths.operand {a e : Expr α} (h : e.AsksTruths inputs record) (ha : IsOperand a e) :
    a.AsksTruths inputs record where
  constants value hvalue := h.constants value (hvalue.of_operand ha)
  queries input membership hquery := h.queries input membership (hquery.of_operand ha)

theorem keeps_evaluate [OrderedNumbers α] [TruthNumbers α]
    (hpow : ∀ x y : α, IsTruth x → IsTruth y → IsTruth (Scalar.pow x y)) {e : Expr α}
    (h : e.AsksTruths inputs record) : Keeps (Value.Holds IsTruth) (e.evaluate inputs record) := by
  induction e with
  | constant value => exact keeps_ok (Value.holds_number.2 (h.constants value (.refl _)))
  | query input membership =>
    -- The errors of queries are about names and curves, and none of them is about a gamma.
    exact ⟨h.queries input membership (.refl _), isOfQuery_of_queryTruth⟩
  | negation e ih => exact (ih (h.operand (.negated e))).bind fun u hu => keeps_ok (holds_negate hu)
  | logic op l r ihl ihr =>
    refine (ihl (h.operand (.left op l r))).bind fun u hu => ?_
    exact (ihr (h.operand (.right op l r))).bind fun v hv => keeps_ok (holds_logic op hu hv)
  | call f args ih =>
    rw [evaluate, evaluateAll_eq_mapM]
    refine (keeps_mapM fun a ha => ih a ha (h.operand (.argument f ha))).bind fun vs hvs => ?_
    exact keeps_apply hpow f hvs

end Expr

/-! ## Implications -/

namespace Implication

variable [OrderedNumbers α]

/-- A curve that is clipped at a truth raises a truth to a truth at most, even where
    it is undefined. -/
theorem isTruth_raised {height clip : α} (hheight : IsTruth height) (hclip : IsTruth clip) (y : α) :
    IsTruth (maximum height (minimum y clip)) := by
  have hclipped : minimum y clip ≤ 1 :=
    le_trans (minimum_le_right y (defined_of_le hclip.2).1) hclip.2
  have hraised : height ≤ maximum height (minimum y clip) :=
    le_maximum_left (defined_of_le hheight.1).2 _
  exact ⟨le_trans hheight.1 hraised, maximum_le hheight.2 hclipped⟩

theorem isTruth_heightFrom {n height y : α} {terms : List (Clipped α)}
    (hterms : ∀ t ∈ terms, IsTruth t.clip) (hheight : IsTruth height)
    (h : heightFrom n height terms = .ok y) : IsTruth y := by
  induction terms generalizing height with
  | nil =>
    cases h
    exact hheight
  | cons t ts ih =>
    rw [List.forall_mem_cons] at hterms
    obtain ⟨z, -, h⟩ := bind_eq_ok.1 h
    exact ih hterms.2 (isTruth_raised hheight hterms.1 z) h

theorem isTruth_valueAt {i : Implication α} (hterms : ∀ t ∈ i.terms, IsTruth t.clip) {x y : α}
    (h : i.valueAt x = .ok (.number y)) : IsTruth y := by
  unfold valueAt at h
  split at h
  · cases h
  · obtain ⟨z, hz, h⟩ := bind_eq_ok.1 h
    cases h
    exact isTruth_heightFrom hterms isTruth_zero hz

omit [Scalar α] [OrderedNumbers α] in
/-- The only clip of an implication is what the truth stands for. -/
theorem clip_ofClip {P : α → Prop} {min max : α} {c : Curve α} {clip : Value α}
    (hclip : clip.Holds P) : ∀ t ∈ (ofClip min max c clip).terms, P t.clip := by
  unfold ofClip
  split
  · exact List.forall_mem_singleton.2 (Value.holds_number.1 hclip)
  · split
    · rename_i h hh
      exact List.forall_mem_singleton.2 (hclip h hh)
    · exact List.forall_mem_nil _

end Implication

/-! ## What a condition says about a result -/

namespace Expr

/-- A condition with truths for constants, about a record in which its queries find
    truths or missing data, does not fail for a gamma out of range, and the number
    it gives is a truth. Whatever membership of a result is clipped at what it
    gives, no height of the implication is below zero or above one. -/
theorem evaluate_truth [OrderedNumbers α] [TruthNumbers α]
    (hpow : ∀ x y : α, IsTruth x → IsTruth y → IsTruth (Scalar.pow x y)) {inputs : VariableStore α}
    {record : Record α} {e : Expr α} (h : e.AsksTruths inputs record) :
    e.evaluate inputs record ≠ .error (.argument .gammaOutOfRange) ∧
    (∀ x, e.evaluate inputs record = .ok (.number x) → 0 ≤ x ∧ x ≤ 1) ∧
    ∀ clip, e.evaluate inputs record = .ok clip →
      ∀ (result : Variable α) membership i, result.implication membership clip = .ok i →
        ∀ x y, i.valueAt x = .ok (.number y) → 0 ≤ y ∧ y ≤ 1 := by
  have hkeeps := keeps_evaluate hpow h
  refine ⟨hkeeps.in_range, fun x hx => hkeeps.of_ok _ hx x rfl, ?_⟩
  intro clip hclip result membership i hi x y hy
  obtain ⟨c, -, hi⟩ := bind_eq_ok.1 hi
  cases hi
  exact Implication.isTruth_valueAt (Implication.clip_ofClip (hkeeps.of_ok clip hclip)) hy

end Expr

/-! ## Readings that are truths -/

namespace Variable

theorem settleTruth_of_isTruth [OrderedNumbers α] {y : α} (h : IsTruth y) : settleTruth y = y := by
  rw [settleTruth, if_neg fun hhigh => (lt_iff.1 hhigh.1).2 h.2,
    if_neg fun hlow => (lt_iff.1 hlow.1).2 h.1]

/-- A variable over `[0, 1]` with a membership that is as true as its value is
    large. -/
noncomputable def gauge (name membership : String) : Variable Exact :=
  ⟨name, 0, 1, .ofList [(membership, .ramp)]⟩

variable {name membership : String}

theorem get?_curves_gauge : (gauge name membership).curves.get? membership = some .ramp := by
  simp [gauge, OrderedMap.ofList, OrderedMap.get?_insert]

theorem normalize_gauge (x : ℝ) : (gauge name membership).normalize (x : Exact) = x := by
  simp [gauge, normalize, Exact.real_div]

theorem truth_gauge {x : ℝ} (hx : x ∈ Set.Icc (0 : ℝ) 1) :
    (gauge name membership).truth (.number x) membership = .ok (.number x) := by
  refine truth_eq_ok.2 ⟨_, get?_curves_gauge, .inr ⟨x, x, rfl, ?_, ?_⟩⟩
  · rw [normalize_gauge, Implication.evaluate_ramp hx]
  · rw [settleTruth_of_isTruth (Exact.isTruth_iff.2 ⟨x, hx, rfl⟩)]

end Variable

namespace Expr

/-- Two inputs whose readings are truths. -/
noncomputable def gauges : VariableStore Exact :=
  .ofList [.gauge "rain" "heavy", .gauge "wind" "strong"]

/-- A record with a value for each of two inputs. -/
noncomputable def readings (rain wind : Value Exact) : Record Exact :=
  .ofList [("rain", rain), ("wind", wind)]

theorem queryTruth_rain {x : ℝ} (hx : x ∈ Set.Icc (0 : ℝ) 1) (wind : Value Exact) :
    queryTruth gauges (readings (.number x) wind) "rain" "heavy" = .ok (.number x) :=
  queryTruth_eq_ok.2 ⟨_, _, rfl, rfl, Variable.truth_gauge hx⟩

theorem queryTruth_wind {x : ℝ} (hx : x ∈ Set.Icc (0 : ℝ) 1) (rain : Value Exact) :
    queryTruth gauges (readings rain (.number x)) "wind" "strong" = .ok (.number x) :=
  queryTruth_eq_ok.2 ⟨_, _, rfl, rfl, Variable.truth_gauge hx⟩

theorem queryTruth_wind_missing (rain : Value Exact) {s : Sentinel Exact}
    (hs : s.substitution = none) :
    queryTruth gauges (readings rain (.sentinel s)) "wind" "strong" = .ok (.sentinel s) :=
  queryTruth_eq_ok.2 ⟨_, _, rfl, rfl,
    Variable.truth_of_passing (Variable.curve_eq_ok.2 Variable.get?_curves_gauge) hs⟩

/-- `GAMMA(rain IS heavy, NOT rain IS heavy, SUM(wind IS strong, 0.5))` -/
noncomputable def storm : Expr Exact :=
  .call .gamma [.query "rain" "heavy", .negation (.query "rain" "heavy"),
    .call .sum [.query "wind" "strong", .constant (.real 0.5)]]

/-- A quarter of rain, and no wind to be heeded. -/
noncomputable def calm : Record Exact := readings (.number (.real 0.25)) (.sentinel .ignoring)

theorem asksTruths_storm : storm.AsksTruths gauges calm where
  constants value h := by
    have hvalue : value = .real 0.5 := by simpa [storm, occurs_iff] using h
    exact Exact.isTruth_iff.2 ⟨0.5, by norm_num, hvalue⟩
  queries input membership h u hu := by
    have hquery : input = "rain" ∧ membership = "heavy" ∨ input = "wind" ∧
        membership = "strong" := by
      simpa [storm, occurs_iff] using h
    rcases hquery with ⟨rfl, rfl⟩ | ⟨rfl, rfl⟩
    · rw [calm, queryTruth_rain (by norm_num)] at hu
      cases hu
      exact Value.holds_number.2 (Exact.isTruth_iff.2 ⟨0.25, by norm_num, rfl⟩)
    · rw [calm, queryTruth_wind_missing _ rfl] at hu
      cases hu
      exact Value.holds_of_resolve rfl

/-- The exponent is a truth of the record, and one operand of the sum gives way. -/
theorem exists_storm : ∃ x, storm.evaluate gauges calm = .ok (.number x) := by
  have hlow : 0 ≤ Exact.real 0.25 := (Exact.isTruth_iff.2 ⟨0.25, by norm_num, rfl⟩).1
  have hhigh : Exact.real 0.25 ≤ 1 := (Exact.isTruth_iff.2 ⟨0.25, by norm_num, rfl⟩).2
  have hrain : (query "rain" "heavy").evaluate gauges calm = .ok (.number (.real 0.25)) :=
    queryTruth_rain (by norm_num) _
  have hdry : (negation (query "rain" "heavy")).evaluate gauges calm =
      .ok (.number (1 - .real 0.25)) :=
    bind_eq_ok.2 ⟨_, hrain, rfl⟩
  have hwind : (query "wind" "strong").evaluate gauges calm = .ok (.sentinel .ignoring) :=
    queryTruth_wind_missing _ rfl
  have hsomething : .sentinel .propagating ∉
      [Value.sentinel .ignoring, .number (Exact.real 0.5)] := by
    simp [Sentinel.ignoring, Sentinel.propagating]
  obtain ⟨s, hs⟩ := AggregateOp.apply_present .sum le_rfl hsomething
  have hsum : (call .sum [.query "wind" "strong", .constant (.real 0.5)]).evaluate gauges calm =
      .ok (.number s) :=
    evaluate_call_eq_ok.2 ⟨_, .cons hwind (.cons rfl .nil), hs⟩
  have hgamma : (Value.number (Exact.real 0.25)).resolve = some (.real 0.25) := rfl
  have hlength : 2 ≤ [Value.number (1 - Exact.real 0.25), .number s].length := le_rfl
  obtain ⟨y, z, -, -, hmean⟩ := gammaMean_present hgamma hlength hlow hhigh (by simp)
  exact ⟨_, evaluate_call_eq_ok.2 ⟨_, .cons hrain (.cons hdry (.cons hsum .nil)), hmean⟩⟩

theorem evaluate_storm :
    (∀ x y : Exact, IsTruth x → IsTruth y → IsTruth (Scalar.pow x y)) ∧
    storm.AsksTruths gauges calm ∧
    ∃ x, storm.evaluate gauges calm = .ok (.number x) ∧ (0 ≤ x ∧ x ≤ 1) ∧
      ∃ i, (Variable.gauge "risk" "high").implication "high" (.number x) = .ok i ∧
        ∃ y, i.valueAt (.real 0.5) = .ok (.number y) ∧ 0 ≤ y ∧ y ≤ 1 := by
  have hpow : ∀ x y : Exact, IsTruth x → IsTruth y → IsTruth (Scalar.pow x y) :=
    fun _ _ => Exact.isTruth_pow
  obtain ⟨-, hnumber, hheights⟩ := evaluate_truth hpow asksTruths_storm
  obtain ⟨x, hx⟩ := exists_storm
  have hcurve : (Variable.gauge "risk" "high").curve "high" = .ok .ramp :=
    Variable.curve_eq_ok.2 Variable.get?_curves_gauge
  have hi : (Variable.gauge "risk" "high").implication "high" (.number x) =
      .ok (.ofClip 0 1 .ramp (.number x)) :=
    bind_eq_ok.2 ⟨_, hcurve, rfl⟩
  have hramp : (Curve.ramp : Curve Exact).evaluate
      ((Variable.gauge "risk" "high").normalize (.real 0.5)) =
      .ok (.real 0.5) := by
    rw [Variable.normalize_gauge, Implication.evaluate_ramp (by norm_num)]
  have hy : (Implication.ofClip 0 1 .ramp (.number x)).valueAt (.real 0.5) =
      .ok (.number (maximum 0 (minimum (.real 0.5) x))) :=
    bind_eq_ok.2 ⟨_, bind_eq_ok.2 ⟨_, hramp, rfl⟩, rfl⟩
  exact ⟨hpow, asksTruths_storm, x, hx, hnumber x hx, _, hi, _, hy, hheights _ hx _ _ _ hi _ _ hy⟩

end Expr

end FuzzyInference
