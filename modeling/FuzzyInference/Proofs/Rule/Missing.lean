import FuzzyInference.Proofs.Logic.Outcome
import FuzzyInference.Proofs.Rule.Parts
import FuzzyInference.Proofs.Rule.Query
import FuzzyInference.Proofs.Scalar.Order

/-!
# Missing data in conditions

Where every sentinel of a record propagates, the truth of a condition is missing
exactly if one of its queries asks for missing data. Each operation gets there
its own way: a complement passes a sentinel on, the operators of two values let
one through from either side, the smaller and the larger of two values find it
at the end of the order, and a missing gamma ends its call.

Results:

* `MissingIff.apply_logic` and `MissingIff.apply_function`: what connectives and
  functions make of missing operands.
* `evaluate_propagates_iff`: the truth of a whole condition.
-/

namespace FuzzyInference

variable {α : Type}

/-- A value is the propagating sentinel if a statement holds, and a number if
    not. -/
def Value.MissingIff (v : Value α) (p : Prop) : Prop :=
  p ∧ v = .sentinel .propagating ∨ ¬ p ∧ ∃ x, v = .number x

namespace Value.MissingIff

variable {u v : Value α} {p q : Prop}

theorem congr (h : v.MissingIff p) (hpq : p ↔ q) : v.MissingIff q := propext hpq ▸ h

theorem number (x : α) : (Value.number x).MissingIff False := .inr ⟨id, x, rfl⟩

/-- A sentinel on either side of an operator is its value. -/
theorem binary (hu : u.MissingIff p) (hv : v.MissingIff q) (op : α → α → α) :
    (binary op u v).MissingIff (p ∨ q) := by
  rcases hu with ⟨hp, rfl⟩ | ⟨hp, x, rfl⟩
  · exact .inl ⟨.inl hp, rfl⟩
  · rcases hv with ⟨hq, rfl⟩ | ⟨hq, y, rfl⟩
    · exact .inl ⟨.inr hq, rfl⟩
    · exact .inr ⟨by tauto, op x y, rfl⟩

theorem settle_eq (h : v.MissingIff p) : v.settle = v := by
  rcases h with ⟨-, rfl⟩ | ⟨-, x, rfl⟩ <;> rfl

/-- Choosing between two values keeps missing data if the missing one is chosen. -/
theorem choice (hu : u.MissingIff p) (hv : v.MissingIff q) {b : Bool} (hb : q → ¬ p → b = true)
    (hb' : p → ¬ q → b = false) : (if b then v else u).settle.MissingIff (p ∨ q) := by
  cases b with
  | true =>
    have hpq : p → q := fun hp => by_contra fun hq => nomatch hb' hp hq
    rw [if_pos rfl, hv.settle_eq]
    exact hv.congr (by tauto)
  | false =>
    have hqp : q → p := fun hq => by_contra fun hp => nomatch hb hq hp
    rw [if_neg Bool.false_ne_true, hu.settle_eq]
    exact hu.congr (by tauto)

variable [Scalar α]

theorem negate (h : v.MissingIff p) : (negate v).MissingIff p := by
  rcases h with ⟨hp, rfl⟩ | ⟨hp, x, rfl⟩
  · exact .inl ⟨hp, rfl⟩
  · exact .inr ⟨hp, 1 - x, rfl⟩

/-! ## Connectives -/

/-- A value is finite if it is a number that meets a sentinel. An infinite one could
    tie with it. -/
def FiniteIf (v : Value α) (p : Prop) : Prop :=
  ∀ x, v = .number x → p → Scalar.isFinite x = true

section

variable [OrderedNumbers α]

omit [OrderedNumbers α] in
/-- The better of two values is missing if one of them is, where missing data beats
    finite numbers. -/
theorem preferred (better : α → α → Bool) {key : Value α → α} (hkey : ∀ x, key (.number x) = x)
    (hbeats : ∀ x, Scalar.isFinite x = true → better (key (.sentinel .propagating)) x = true ∧
      better x (key (.sentinel .propagating)) = false)
    (hu : u.MissingIff p) (hv : v.MissingIff q) (hfu : FiniteIf u q) (hfv : FiniteIf v p) :
    (if better (key v) (key u) then v else u).settle.MissingIff (p ∨ q) := by
  refine hu.choice hv ?_ ?_
  · intro hq hp
    obtain ⟨x, rfl⟩ := (hu.resolve_left fun h => hp h.1).2
    obtain rfl := (hv.resolve_right fun h => h.1 hq).2
    rw [hkey]
    exact (hbeats x (hfu x rfl hq)).1
  · intro hp hq
    obtain rfl := (hu.resolve_right fun h => h.1 hp).2
    obtain ⟨y, rfl⟩ := (hv.resolve_left fun h => hq h.1).2
    rw [hkey]
    exact (hbeats y (hfv y rfl hp)).2

theorem both (hu : u.MissingIff p) (hv : v.MissingIff q) (hfu : FiniteIf u q) (hfv : FiniteIf v p) :
    (LogicOp.both u v).MissingIff (p ∨ q) :=
  preferred (fun x y => decide (x < y)) (fun _ => rfl)
    (fun _ hx => Scalar.decide_lt_of_lt (OrderedNumbers.negInfinity_lt hx)) hu hv hfu hfv

theorem either (hu : u.MissingIff p) (hv : v.MissingIff q) (hfu : FiniteIf u q)
    (hfv : FiniteIf v p) : (LogicOp.either u v).MissingIff (p ∨ q) :=
  preferred (fun x y => decide (y < x)) (fun _ => rfl)
    (fun _ hx => Scalar.decide_lt_of_lt (OrderedNumbers.lt_infinity hx)) hu hv hfu hfv

/-- Both operands of the outer minimum of `XOR` are missing, or none is. -/
theorem apply_logic (hu : u.MissingIff p) (hv : v.MissingIff q) (hfu : FiniteIf u q)
    (hfv : FiniteIf v p) (op : LogicOp) : (op.apply u v).MissingIff (p ∨ q) := by
  cases op with
  | and => exact hu.both hv hfu hfv
  | or => exact hu.either hv hfu hfv
  | xor =>
    have hleft := (hu.both hv hfu hfv).negate
    have hright := hu.either hv hfu hfv
    refine (hleft.both hright ?_ ?_).congr (or_self_iff)
    · intro x hx hpq
      rcases hleft with ⟨-, h⟩ | ⟨h, -⟩
      · rw [hx] at h
        cases h
      · exact absurd hpq h
    · intro x hx hpq
      rcases hright with ⟨-, h⟩ | ⟨h, -⟩
      · rw [hx] at h
        cases h
      · exact absurd hpq h

end

/-! ## Functions -/

section

variable {β : Type} {bs : List β} {vs : List (Value α)} {missing : β → Prop}

theorem foldl_mul (h : List.Forall₂ (fun b v => v.MissingIff (missing b)) bs vs) {acc : Value α}
    (hacc : acc.MissingIff p) : (vs.foldl (· * ·) acc).MissingIff (p ∨ ∃ b ∈ bs, missing b) := by
  induction h generalizing p acc with
  | nil => exact hacc.congr (by simp)
  | cons hv _ ih => exact (ih (hacc.binary hv (· * ·))).congr (by simp [or_assoc])

theorem productOf (h : List.Forall₂ (fun b v => v.MissingIff (missing b)) bs vs) :
    (AggregateOp.productOf vs).MissingIff (∃ b ∈ bs, missing b) :=
  (foldl_mul h (number 1)).congr (by simp)

theorem sumOf (h : List.Forall₂ (fun b v => v.MissingIff (missing b)) bs vs) :
    (AggregateOp.sumOf vs).MissingIff (∃ b ∈ bs, missing b) := by
  have hrest : List.Forall₂ (fun b v => v.MissingIff (missing b)) bs
      (vs.map fun v => Value.number 1 - v) := by
    rw [List.forall₂_map_right_iff]
    exact h.imp fun b v hv => ((number 1).binary hv (· - ·)).congr (by simp)
  exact ((number 1).binary (productOf hrest) (· - ·)).congr (by simp)

theorem apply_aggregate (h : List.Forall₂ (fun b v => v.MissingIff (missing b)) bs vs)
    {op : AggregateOp} (hv : op.apply vs = .ok v) : v.MissingIff (∃ b ∈ bs, missing b) :=
  AggregateOp.apply_induction (motive := fun _ v => v.MissingIff (∃ b ∈ bs, missing b))
    (productOf h) (sumOf h) hv

theorem gammaMean {gamma : Value α} (hgamma : gamma.MissingIff p)
    (h : List.Forall₂ (fun b v => v.MissingIff (missing b)) bs vs)
    (hv : FuzzyInference.gammaMean gamma vs = .ok v) : v.MissingIff (p ∨ ∃ b ∈ bs, missing b) := by
  rcases gammaMean_eq_ok.1 hv with ⟨hnone, rfl⟩ | ⟨g, sum, product, hg, -, hsum, hproduct, rfl⟩
  · rcases hgamma with ⟨hp, rfl⟩ | ⟨-, x, rfl⟩
    · exact .inl ⟨.inl hp, rfl⟩
    · cases hnone
  · have hp : ¬ p := by
      rcases hgamma with ⟨-, rfl⟩ | ⟨hp, -⟩
      · cases hg
      · exact hp
    have hs := (apply_aggregate h hsum).binary (number g) Scalar.pow
    have hp' := (apply_aggregate h hproduct).binary (number (1 - g)) Scalar.pow
    exact (hs.binary hp' (· * ·)).congr (by simp [hp])

theorem apply_function (h : List.Forall₂ (fun b v => v.MissingIff (missing b)) bs vs)
    {f : RuleFunction} (hv : f.apply vs = .ok v) : v.MissingIff (∃ b ∈ bs, missing b) := by
  cases f with
  | sum => exact apply_aggregate h hv
  | product => exact apply_aggregate h hv
  | gamma =>
    cases h with
    | nil => cases hv
    | cons hgamma hoperands => exact (hgamma.gammaMean hoperands hv).congr (by simp)

end

end Value.MissingIff

/-! ## Conditions -/

namespace Expr

/-- A query of a condition asks for an input that the record has no data for. -/
def AsksMissing (record : Record α) (e : Expr α) : Prop :=
  ∃ input membership s, Occurs (.query input membership) e ∧ record.get? input = some (.sentinel s)

/-- Every number that a part of a condition has as its truth is finite. -/
def PartsFinite [Scalar α] (inputs : VariableStore α) (record : Record α) (e : Expr α) : Prop :=
  ∀ p x, Within p e → p.evaluate inputs record = .ok (.number x) → Scalar.isFinite x = true

section

variable {record : Record α}

theorem asksMissing_constant (value : α) : ¬ (constant value).AsksMissing record := by
  simp [AsksMissing, occurs_iff]

theorem asksMissing_query (input membership : String) :
    (query input membership).AsksMissing record ↔ ∃ s, record.get? input = some (.sentinel s) := by
  simp [AsksMissing, occurs_iff]

theorem asksMissing_negation (e : Expr α) :
    (negation e).AsksMissing record ↔ e.AsksMissing record := by
  simp [AsksMissing, occurs_iff (e := .negation e)]

theorem asksMissing_logic (op : LogicOp) (l r : Expr α) :
    (logic op l r).AsksMissing record ↔ l.AsksMissing record ∨ r.AsksMissing record := by
  simp only [AsksMissing, occurs_iff (e := .logic op l r), reduceCtorEq, false_or, within_logic,
    or_and_right, exists_or]

theorem asksMissing_call (f : RuleFunction) (args : List (Expr α)) :
    (call f args).AsksMissing record ↔ ∃ a ∈ args, a.AsksMissing record := by
  simp only [AsksMissing, occurs_iff (e := .call f args), reduceCtorEq, false_or, within_call]
  constructor
  · rintro ⟨input, membership, s, ⟨a, ha, hoccurs⟩, hs⟩
    exact ⟨a, ha, input, membership, s, hoccurs, hs⟩
  · rintro ⟨a, ha, input, membership, s, hoccurs, hs⟩
    exact ⟨input, membership, s, ⟨a, ha, hoccurs⟩, hs⟩

end

variable [Scalar α] {inputs : VariableStore α} {record : Record α}

theorem PartsFinite.operand {a e : Expr α} (h : e.PartsFinite inputs record) (ha : IsOperand a e) :
    a.PartsFinite inputs record := fun p x hp => h p x (hp.occurs.within ha)

theorem PartsFinite.finite {a e : Expr α} (h : e.PartsFinite inputs record) (ha : IsOperand a e)
    {x : α} (hx : a.evaluate inputs record = .ok (.number x)) : Scalar.isFinite x = true :=
  h a x ((Occurs.refl a).within ha) hx

/-- A query is missing exactly if the value that it asks for is. -/
theorem queryTruth_missingIff
    (hrecord : ∀ input s, record.get? input = some (.sentinel s) → s = .propagating)
    {input membership : String} {v : Value α}
    (h : queryTruth inputs record input membership = .ok v) :
    v.MissingIff (∃ s, record.get? input = some (.sentinel s)) := by
  obtain ⟨w, value, -, hvalue, h⟩ := queryTruth_eq_ok.1 h
  obtain ⟨c, -, h⟩ := Variable.truth_eq_ok.1 h
  cases value with
  | number x =>
    obtain ⟨-, y, -, -, rfl⟩ := h.resolve_left fun h => nomatch h.1
    exact .inr ⟨by simp [hvalue], _, rfl⟩
  | sentinel s =>
    obtain rfl := hrecord input s hvalue
    obtain ⟨-, rfl⟩ := h.resolve_right fun ⟨x, y, h, _⟩ => nomatch h
    exact .inl ⟨⟨_, hvalue⟩, rfl⟩

theorem evaluate_missingIff [OrderedNumbers α]
    (hrecord : ∀ input s, record.get? input = some (.sentinel s) → s = .propagating) {e : Expr α}
    (hfinite : e.PartsFinite inputs record) {v : Value α} (h : e.evaluate inputs record = .ok v) :
    v.MissingIff (e.AsksMissing record) := by
  induction e generalizing v with
  | constant value =>
    cases h
    exact .inr ⟨asksMissing_constant value, value, rfl⟩
  | query input membership =>
    exact (queryTruth_missingIff hrecord h).congr (asksMissing_query input membership).symm
  | negation e ih =>
    obtain ⟨u, hu, h⟩ := bind_eq_ok.1 h
    cases h
    exact (ih (hfinite.operand (.negated e)) hu).negate.congr (asksMissing_negation e).symm
  | logic op l r ihl ihr =>
    obtain ⟨u, hu, h⟩ := bind_eq_ok.1 h
    obtain ⟨w, hw, h⟩ := bind_eq_ok.1 h
    cases h
    have hl := ihl (hfinite.operand (.left op l r)) hu
    have hr := ihr (hfinite.operand (.right op l r)) hw
    refine (hl.apply_logic hr ?_ ?_ op).congr (asksMissing_logic op l r).symm
    · rintro x rfl -
      exact hfinite.finite (.left op l r) hu
    · rintro x rfl -
      exact hfinite.finite (.right op l r) hw
  | call f args ih =>
    obtain ⟨vs, hvs, h⟩ := evaluate_call_eq_ok.1 h
    have hargs : List.Forall₂
        (fun (a : Expr α) u => u.MissingIff (a.AsksMissing record)) args vs := by
      refine List.forall₂_iff_zip.2 ⟨hvs.length_eq, fun hmem => ?_⟩
      have ha := (List.of_mem_zip hmem).1
      exact ih _ ha (hfinite.operand (.argument f ha)) (List.forall₂_zip hvs hmem)
    exact (Value.MissingIff.apply_function hargs h).congr (asksMissing_call f args).symm

/-- Missing data is neither lost nor invented: where every sentinel of the record
    propagates and every part of a condition that is a number is a finite one, the
    truth of the condition is the propagating sentinel exactly if one of its queries
    is about an input without data, and a number otherwise. -/
theorem evaluate_propagates_iff [OrderedNumbers α]
    (hrecord : ∀ input s, record.get? input = some (.sentinel s) → s = .propagating) {e : Expr α}
    (hfinite : ∀ p x, Within p e → p.evaluate inputs record = .ok (.number x) →
      Scalar.isFinite x = true)
    {v : Value α} (h : e.evaluate inputs record = .ok v) :
    (v = .sentinel .propagating ↔ ∃ input membership s, Occurs (.query input membership) e ∧
      record.get? input = some (.sentinel s)) ∧
    ((¬ ∃ input membership s, Occurs (.query input membership) e ∧
      record.get? input = some (.sentinel s)) → ∃ x, v = .number x) := by
  have hv := evaluate_missingIff hrecord hfinite h
  rcases hv with ⟨hmissing, rfl⟩ | ⟨hpresent, x, rfl⟩
  · exact ⟨iff_of_true rfl hmissing, fun hpresent => absurd hmissing hpresent⟩
  · exact ⟨iff_of_false (by simp) hpresent, fun _ => ⟨x, rfl⟩⟩

/-- Two inputs, of which `weatherRecord` has data for the second one. -/
def weatherInputs : VariableStore Float :=
  .ofList [⟨"rain", 0, 1, .ofList [("low", .ramp)]⟩, ⟨"heat", 0, 40, .ofList [("high", .ramp)]⟩]

/-- A rain that is missing, and a heat. -/
def weatherRecord : Record Float :=
  .ofList [("rain", .sentinel .propagating), ("heat", .number 10)]

/-- `GAMMA(rain IS low, heat IS high, NOT heat IS high) XOR 0.5` -/
def weatherCondition : Expr Float :=
  .logic .xor (.call .gamma [.query "rain" "low", .query "heat" "high",
    .negation (.query "heat" "high")]) (.constant 0.5)

/-- A gamma without data reaches through both connectives of an `XOR`. -/
theorem evaluate_weatherCondition :
    weatherCondition.evaluate weatherInputs weatherRecord = .ok (.sentinel .propagating) := by
  have hheat : (query "heat" "high").evaluate weatherInputs weatherRecord = .ok (.number 0.25) :=
    rfl
  have hnot : (negation (query "heat" "high")).evaluate weatherInputs weatherRecord =
      .ok (.number (1 - 0.25)) := rfl
  have hrecord : ∀ input s, weatherRecord.get? input = some (.sentinel s) → s = .propagating := by
    intro input s h
    simp only [weatherRecord, Record.get?, Record.ofList, OrderedMap.ofList, List.foldl,
      OrderedMap.get?_insert] at h
    split at h
    · cases h
    · split at h
      · cases h
        rfl
      · cases h
  have hfinite : ∀ p x, Within p weatherCondition →
      p.evaluate weatherInputs weatherRecord = .ok (.number x) → Scalar.isFinite x = true := by
    intro p x hp hx
    simp only [weatherCondition, within_logic, within_call, List.mem_cons, List.not_mem_nil,
      or_false, exists_eq_or_imp, exists_eq_left, occurs_iff, within_query, within_negation,
      within_constant] at hp
    rcases hp with (rfl | rfl | rfl | rfl | rfl) | rfl
    · cases hx
    · cases hx
    · obtain rfl := Value.number.inj (Except.ok.inj (hheat.symm.trans hx))
      decide
    · obtain rfl := Value.number.inj (Except.ok.inj (hnot.symm.trans hx))
      decide
    · obtain rfl := Value.number.inj (Except.ok.inj (hheat.symm.trans hx))
      decide
    · cases hx
      decide
  obtain ⟨v, hv⟩ : ∃ v, weatherCondition.evaluate weatherInputs weatherRecord = .ok v := ⟨_, rfl⟩
  have hmissing := (evaluate_propagates_iff hrecord hfinite hv).1.2
    ⟨"rain", "low", .propagating, by simp [weatherCondition, occurs_iff], rfl⟩
  rw [hv, hmissing]

end Expr

end FuzzyInference
