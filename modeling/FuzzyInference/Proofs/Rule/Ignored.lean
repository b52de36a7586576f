import FuzzyInference.Proofs.Logic.Outcome
import FuzzyInference.Proofs.Rule.Parts
import FuzzyInference.Proofs.Rule.Query
import FuzzyInference.Proofs.Scalar.Order

/-!
# Ignored data in conditions

An operator ignores a sentinel by giving way to its other operand. Where a
condition has no constants and all data that it asks for is to be ignored, the
connectives have nothing to give way to, and the truth stays ignored. The
functions have: `SUM` and `PRODUCT` start from one and drop the operands that are
ignored, so they come to the truth of an empty disjunction and an empty
conjunction, which are zero and one. What is computed from such truths is zero
or one again.

Results:

* `Stands.apply_logic` and `Stands.apply_function`: connectives and functions on
  truths of this kind compute as on optional booleans.
* `evaluate_ignored`: the truth of a whole condition over ignored data.
* `evaluate_product_ignored`: such a truth can be one.
-/

namespace FuzzyInference

variable {α : Type}

/-! ## Zero and one -/

/-- The number of a truth that is false or true. -/
def Scalar.ofTruth [Scalar α] (b : Bool) : α := if b then 1 else 0

/-- Scalars that compute with zero and one as with truths. -/
class CrispNumbers (α : Type) [Scalar α] : Prop where
  one_sub : ∀ b, (1 : α) - Scalar.ofTruth b = Scalar.ofTruth (!b)
  mul : ∀ b c, (Scalar.ofTruth b : α) * Scalar.ofTruth c = Scalar.ofTruth (b && c)
  isFinite : ∀ b, Scalar.isFinite (Scalar.ofTruth b : α) = true
  lt_iff : ∀ b c, (Scalar.ofTruth b : α) < Scalar.ofTruth c ↔ b = false ∧ c = true

/-- 64-bit zeros and ones compute as truths do. -/
instance : CrispNumbers Float where
  one_sub := by decide +kernel
  mul := by decide +kernel
  isFinite := by decide +kernel
  lt_iff := by decide +kernel

/-- Zero and one raised to zero are one, and raised to one they stay what they
    are. -/
def CrispPowers (α : Type) [Scalar α] : Prop :=
  ∀ b, Scalar.pow (Scalar.ofTruth b : α) 0 = 1 ∧
    Scalar.pow (Scalar.ofTruth b : α) 1 = Scalar.ofTruth b

/-! ## Optional truths -/

/-- A connective on truths that may be missing because they are ignored. An
    exclusive or with one of them is the other one and its complement at once. -/
def LogicOp.onTruths : LogicOp → Option Bool → Option Bool → Option Bool
  | .and, o, p => o.merge (· && ·) p
  | .or, o, p => o.merge (· || ·) p
  | .xor, some b, some c => some (b ^^ c)
  | .xor, none, none => none
  | .xor, _, _ => some false

/-- An aggregation of truths of which the missing ones are dropped. -/
def AggregateOp.onTruths : AggregateOp → List (Option Bool) → Bool
  | .product, os => os.all (·.getD true)
  | .sum, os => os.any (·.getD false)

/-- A function on truths that may be missing. -/
def RuleFunction.onTruths : RuleFunction → List (Option Bool) → Option Bool
  | .sum, os => some (AggregateOp.sum.onTruths os)
  | .product, os => some (AggregateOp.product.onTruths os)
  | .gamma, some g :: os =>
    some (if g then AggregateOp.sum.onTruths os else AggregateOp.product.onTruths os)
  | .gamma, _ => none

namespace Expr

mutual

/-- The truth that a condition without constants has when all its data is ignored,
    if it has one. -/
def idleTruth : Expr α → Option Bool
  | .constant _ => none
  | .query _ _ => none
  | .negation e => (idleTruth e).map (!·)
  | .logic op l r => op.onTruths (idleTruth l) (idleTruth r)
  | .call f args => f.onTruths (idleTruths args)

/-- The truths of several conditions when all their data is ignored. -/
def idleTruths : List (Expr α) → List (Option Bool)
  | [] => []
  | e :: es => idleTruth e :: idleTruths es

end

theorem idleTruths_eq_map (es : List (Expr α)) : idleTruths es = es.map idleTruth := by
  induction es with
  | nil => rfl
  | cons e es ih => rw [idleTruths, List.map_cons, ih]

/-- Only a function makes a truth out of ignored data. -/
theorem idleTruth_eq_none {e : Expr α} (h : ∀ f args, ¬ Occurs (.call f args) e) :
    e.idleTruth = none := by
  induction e with
  | constant value => rfl
  | query input membership => rfl
  | negation e ih =>
    rw [idleTruth, ih fun f args hp => h f args (hp.of_operand (.negated e))]
    rfl
  | logic op l r ihl ihr =>
    rw [idleTruth, ihl fun f args hp => h f args (hp.of_operand (.left op l r)),
      ihr fun f args hp => h f args (hp.of_operand (.right op l r))]
    cases op <;> rfl
  | call f args _ => exact absurd (Occurs.refl _) (h f args)

end Expr

/-! ## Values that stand for optional truths -/

namespace Value

variable [Scalar α]

/-- A value is zero or one as a truth says, or a sentinel that is to be ignored
    where there is none. -/
def Stands (v : Value α) : Option Bool → Prop
  | none => ∃ s, s.ignore = true ∧ v = .sentinel s
  | some b => v = .number (Scalar.ofTruth b)

namespace Stands

variable {u v w : Value α} {o p : Option Bool}

/-- A reading of values that is known for ignored sentinels and for truths. -/
theorem read_eq {β : Type} (read : Value α → β) {ignored : β} {truth : Bool → β}
    (hignored : ∀ s : Sentinel α, s.ignore = true → read (.sentinel s) = ignored)
    (htruth : ∀ b, read (.number (Scalar.ofTruth b)) = truth b) (h : v.Stands o) :
    read v = o.elim ignored truth := by
  cases o with
  | none =>
    obtain ⟨s, hs, rfl⟩ := h
    exact hignored s hs
  | some b =>
    cases h
    exact htruth b

theorem resolve_eq (h : v.Stands o) : v.resolve = o.map Scalar.ofTruth := by
  rw [h.read_eq resolve (fun _ hs => if_pos hs) fun _ => rfl]
  cases o <;> rfl

theorem settle_eq (h : v.Stands o) : v.settle = v := by
  rw [settle, h.resolve_eq]
  cases o with
  | none => rfl
  | some b =>
    cases h
    rfl

theorem choice {b : Bool} (hu : b = false → u.Stands o) (hv : b = true → v.Stands o) :
    (if b then v else u).settle.Stands o := by
  cases b with
  | true =>
    rw [if_pos rfl, (hv rfl).settle_eq]
    exact hv rfl
  | false =>
    rw [if_neg Bool.false_ne_true, (hu rfl).settle_eq]
    exact hu rfl

theorem minKey_eq (h : v.Stands o) : v.minKey = o.elim Scalar.infinity Scalar.ofTruth :=
  h.read_eq minKey (fun _ hs => if_pos hs) fun _ => rfl

theorem maxKey_eq (h : v.Stands o) : v.maxKey = o.elim (-Scalar.infinity) Scalar.ofTruth :=
  h.read_eq maxKey (fun _ hs => if_pos hs) fun _ => rfl

variable [CrispNumbers α]

theorem negate (h : v.Stands o) : (negate v).Stands (o.map (!·)) := by
  cases o with
  | none =>
    obtain ⟨s, hs, rfl⟩ := h
    have hnegate : FuzzyInference.negate (.sentinel s : Value α) = .sentinel s := by
      show mapM _ _ = _
      rw [mapM, Stands.resolve_eq (o := none) ⟨s, hs, rfl⟩]
      rfl
    exact ⟨s, hs, hnegate⟩
  | some b =>
    cases h
    exact congrArg Value.number (CrispNumbers.one_sub b)

/-! ### Connectives -/

variable [OrderedNumbers α]

omit [CrispNumbers α] [OrderedNumbers α] in
/-- The better of two values, where every truth is better than the key of ignored
    values, is that of the truths that there are. -/
theorem preferred (better : α → α → Bool) {worst : α} {op : Bool → Bool → Bool}
    (hasymm : ∀ x y, better x y = true → better y x = false)
    (hworst : ∀ b, better (Scalar.ofTruth b) worst = true)
    (hop : ∀ b c, op b c = if better (Scalar.ofTruth c) (Scalar.ofTruth b) then c else b)
    (hu : u.Stands o) (hv : v.Stands p) :
    (if better (p.elim worst Scalar.ofTruth) (o.elim worst Scalar.ofTruth)
      then v else u).settle.Stands (o.merge op p) := by
  refine choice (fun hlost => ?_) (fun hwon => ?_)
  · rcases o with _ | b <;> rcases p with _ | c
    · exact hu
    · cases (hworst c).symm.trans hlost
    · exact hu
    · simp only [Option.elim_some] at hlost
      rw [Option.merge_some_some, hop, hlost, if_neg Bool.false_ne_true]
      exact hu
  · rcases o with _ | b <;> rcases p with _ | c
    · exact hv
    · exact hv
    · cases (hasymm _ _ (hworst b)).symm.trans hwon
    · simp only [Option.elim_some] at hwon
      rw [Option.merge_some_some, hop, hwon, if_pos rfl]
      exact hv

theorem both (hu : u.Stands o) (hv : v.Stands p) :
    (LogicOp.both u v).Stands (o.merge (· && ·) p) := by
  show (if decide (v.minKey < u.minKey) then v else u).settle.Stands _
  rw [hu.minKey_eq, hv.minKey_eq]
  refine preferred (fun x y => decide (x < y)) ?_ ?_ ?_ hu hv
  · exact fun x y h => (Scalar.decide_lt_of_lt (of_decide_eq_true h)).2
  · exact fun b => decide_eq_true (OrderedNumbers.lt_infinity (CrispNumbers.isFinite b))
  · intro b c
    simp only [CrispNumbers.lt_iff]
    cases b <;> cases c <;> rfl

theorem either (hu : u.Stands o) (hv : v.Stands p) :
    (LogicOp.either u v).Stands (o.merge (· || ·) p) := by
  show (if decide (u.maxKey < v.maxKey) then v else u).settle.Stands _
  rw [hu.maxKey_eq, hv.maxKey_eq]
  refine preferred (fun x y => decide (y < x)) ?_ ?_ ?_ hu hv
  · exact fun x y h => (Scalar.decide_lt_of_lt (of_decide_eq_true h)).2
  · exact fun b => decide_eq_true (OrderedNumbers.negInfinity_lt (CrispNumbers.isFinite b))
  · intro b c
    simp only [CrispNumbers.lt_iff]
    cases b <;> cases c <;> rfl

theorem apply_logic (hu : u.Stands o) (hv : v.Stands p) (op : LogicOp) :
    (op.apply u v).Stands (op.onTruths o p) := by
  cases op with
  | and => exact hu.both hv
  | or => exact hu.either hv
  | xor =>
    have hxor := (hu.both hv).negate.both (hu.either hv)
    rcases o with _ | b <;> rcases p with _ | c
    · exact hxor
    · cases c <;> exact hxor
    · cases b <;> exact hxor
    · cases b <;> cases c <;> exact hxor

/-! ### Functions -/

omit [OrderedNumbers α]

omit [Scalar α] [CrispNumbers α] in
theorem binary_ignored (op : α → α → α) {a : α} {s : Sentinel α} (hs : s.ignore = true) :
    binary op (.number a) (.sentinel s) = .number a := if_pos hs

theorem mul (b : Bool) (h : v.Stands o) :
    (Value.number (Scalar.ofTruth b) * v).Stands (some (b && o.getD true)) := by
  cases o with
  | none =>
    obtain ⟨s, hs, rfl⟩ := h
    rw [Option.getD_none, Bool.and_true]
    exact binary_ignored (· * ·) hs
  | some c =>
    cases h
    exact congrArg Value.number (CrispNumbers.mul b c)

theorem one_sub (h : v.Stands o) : (Value.number 1 - v).Stands (some (!o.getD false)) := by
  cases o with
  | none =>
    obtain ⟨s, hs, rfl⟩ := h
    exact binary_ignored (· - ·) hs
  | some c =>
    cases h
    exact congrArg Value.number (CrispNumbers.one_sub c)

variable {vs : List (Value α)} {os : List (Option Bool)}

theorem foldl_mul (h : List.Forall₂ Stands vs os) (b : Bool) :
    (vs.foldl (· * ·) (Value.number (Scalar.ofTruth b))).Stands
      (some (b && os.all (·.getD true))) := by
  induction h generalizing b with
  | nil =>
    rw [List.all_nil, Bool.and_true]
    rfl
  | @cons v o vs os hv _ ih =>
    have hstep : Value.number (Scalar.ofTruth b) * v =
        .number (Scalar.ofTruth (b && o.getD true)) :=
      mul b hv
    rw [List.foldl_cons, hstep, List.all_cons, ← Bool.and_assoc]
    exact ih _

theorem productOf (h : List.Forall₂ Stands vs os) :
    (AggregateOp.productOf vs).Stands (some (AggregateOp.product.onTruths os)) :=
  foldl_mul h true

theorem sumOf (h : List.Forall₂ Stands vs os) :
    (AggregateOp.sumOf vs).Stands (some (AggregateOp.sum.onTruths os)) := by
  have hrest : List.Forall₂ Stands (vs.map fun v => Value.number 1 - v)
      (os.map fun o => some (!o.getD false)) := by
    rw [List.forall₂_map_left_iff, List.forall₂_map_right_iff]
    exact h.imp fun v o hv => hv.one_sub
  have hsum := (productOf hrest).one_sub
  have htruth : (!(AggregateOp.product.onTruths (os.map fun o => some (!o.getD false)))) =
      AggregateOp.sum.onTruths os := by
    simp [AggregateOp.onTruths, List.all_map, List.not_all_eq_any_not, Function.comp_def]
  rw [← htruth]
  exact hsum

theorem apply_aggregate (h : List.Forall₂ Stands vs os) {op : AggregateOp}
    (hv : op.apply vs = .ok v) : v.Stands (some (op.onTruths os)) := by
  exact AggregateOp.apply_induction (motive := fun op v => v.Stands (some (op.onTruths os)))
    (productOf h) (sumOf h) hv

/-- A gamma of one takes the sum, and a gamma of zero the product. -/
theorem pow_mul_pow (hpow : CrispPowers α) {s p : Bool} (hu : u.Stands (some s))
    (hv : v.Stands (some p)) (g : Bool) :
    (u.pow (.number (Scalar.ofTruth g)) * v.pow (.number (1 - Scalar.ofTruth g))).Stands
      (some (if g then s else p)) := by
  cases hu
  cases hv
  rw [CrispNumbers.one_sub]
  cases g with
  | false =>
    show Value.number
      (Scalar.pow (Scalar.ofTruth s : α) 0 * Scalar.pow (Scalar.ofTruth p : α) 1) = _
    rw [(hpow s).1, (hpow p).2]
    exact congrArg Value.number (CrispNumbers.mul true p)
  | true =>
    show Value.number
      (Scalar.pow (Scalar.ofTruth s : α) 1 * Scalar.pow (Scalar.ofTruth p : α) 0) = _
    rw [(hpow s).2, (hpow p).1]
    refine (congrArg Value.number (CrispNumbers.mul s true)).trans ?_
    rw [Bool.and_true]
    rfl

theorem gammaMean (hpow : CrispPowers α) (hw : w.Stands o) (h : List.Forall₂ Stands vs os)
    (hv : gammaMean w vs = .ok v) : v.Stands (RuleFunction.gamma.onTruths (o :: os)) := by
  rcases gammaMean_eq_ok.1 hv with ⟨hnone, rfl⟩ | ⟨g, sum, product, hg, -, hsum, hproduct, rfl⟩
  · rw [hw.resolve_eq, Option.map_eq_none_iff] at hnone
    rw [hnone] at hw ⊢
    exact hw
  · rw [hw.resolve_eq] at hg
    cases o with
    | none => cases hg
    | some b =>
      cases hg
      exact pow_mul_pow hpow (apply_aggregate h hsum) (apply_aggregate h hproduct) b

theorem apply_function {f : RuleFunction} (hpow : f = .gamma → CrispPowers α)
    (h : List.Forall₂ Stands vs os) (hv : f.apply vs = .ok v) : v.Stands (f.onTruths os) := by
  cases f with
  | sum => exact apply_aggregate h hv
  | product => exact apply_aggregate h hv
  | gamma =>
    cases h with
    | nil => cases hv
    | cons hw h => exact gammaMean (hpow rfl) hw h hv

end Stands

end Value

/-! ## Conditions -/

namespace Expr

variable [Scalar α] {inputs : VariableStore α} {record : Record α}

/-- The value of an input that a query asks for is to be ignored. -/
def AsksIgnored (record : Record α) (e : Expr α) : Prop :=
  ∀ input membership, Occurs (.query input membership) e →
    ∃ s, record.get? input = some (.sentinel s) ∧ s.ignore = true

omit [Scalar α] in
theorem AsksIgnored.operand {a e : Expr α} (h : e.AsksIgnored record) (ha : IsOperand a e) :
    a.AsksIgnored record := fun input membership hquery => h input membership (hquery.of_operand ha)

theorem stands_of_queryTruth {input membership : String} {s : Sentinel α}
    (hvalue : record.get? input = some (.sentinel s)) (hs : s.ignore = true) {v : Value α}
    (h : queryTruth inputs record input membership = .ok v) : v.Stands none := by
  obtain ⟨w, value, -, hfound, h⟩ := queryTruth_eq_ok.1 h
  obtain rfl := Option.some.inj (hvalue.symm.trans hfound)
  obtain ⟨c, -, h⟩ := Variable.truth_eq_ok.1 h
  rcases h with ⟨-, rfl⟩ | ⟨x, y, hx, -, -⟩
  · exact ⟨s, hs, rfl⟩
  · rw [Value.Stands.resolve_eq (o := none) ⟨s, hs, rfl⟩] at hx
    cases hx

theorem evaluate_stands [OrderedNumbers α] [CrispNumbers α] {e : Expr α}
    (hconstants : ∀ value, ¬ Occurs (.constant value) e) (hrecord : e.AsksIgnored record)
    (hpow : (∃ args, Occurs (.call .gamma args) e) → CrispPowers α) {v : Value α}
    (h : e.evaluate inputs record = .ok v) : v.Stands e.idleTruth := by
  induction e generalizing v with
  | constant value => exact absurd (Occurs.refl _) (hconstants value)
  | query input membership =>
    obtain ⟨s, hvalue, hs⟩ := hrecord input membership (.refl _)
    exact stands_of_queryTruth hvalue hs h
  | negation e ih =>
    have hoperand := IsOperand.negated e
    obtain ⟨u, hu, h⟩ := bind_eq_ok.1 h
    cases h
    exact (ih (fun value hp => hconstants value (hp.of_operand hoperand)) (hrecord.operand hoperand)
      (fun ⟨args, hp⟩ => hpow ⟨args, hp.of_operand hoperand⟩) hu).negate
  | logic op l r ihl ihr =>
    have hleft := IsOperand.left op l r
    have hright := IsOperand.right op l r
    obtain ⟨u, hu, h⟩ := bind_eq_ok.1 h
    obtain ⟨w, hw, h⟩ := bind_eq_ok.1 h
    cases h
    have hl := ihl (fun value hp => hconstants value (hp.of_operand hleft)) (hrecord.operand hleft)
      (fun ⟨args, hp⟩ => hpow ⟨args, hp.of_operand hleft⟩) hu
    have hr :=
      ihr (fun value hp => hconstants value (hp.of_operand hright)) (hrecord.operand hright)
      (fun ⟨args, hp⟩ => hpow ⟨args, hp.of_operand hright⟩) hw
    exact hl.apply_logic hr op
  | call f args ih =>
    obtain ⟨vs, hvs, h⟩ := evaluate_call_eq_ok.1 h
    have hargs : List.Forall₂ Value.Stands vs (idleTruths args) := by
      rw [idleTruths_eq_map, List.forall₂_map_right_iff]
      refine (List.forall₂_iff_zip.2 ⟨hvs.length_eq, fun hmem => ?_⟩ :
        List.Forall₂ (fun (a : Expr α) u => u.Stands a.idleTruth) args vs).flip
      have ha := (List.of_mem_zip hmem).1
      have hoperand := IsOperand.argument f ha
      exact ih _ ha (fun value hp => hconstants value (hp.of_operand hoperand))
        (hrecord.operand hoperand) (fun ⟨args, hp⟩ => hpow ⟨args, hp.of_operand hoperand⟩)
        (List.forall₂_zip hvs hmem)
    refine Value.Stands.apply_function (fun hf => ?_) hargs h
    subst hf
    exact hpow ⟨args, .refl _⟩

/-- Without constants and with all data ignored, the truth of a condition is ignored
    itself as far as only connectives are at work. Its functions drop what is
    ignored, and the truth that is left is zero or one, the same for all data: `SUM`
    of nothing is zero, and `PRODUCT` of nothing is one. -/
theorem evaluate_ignored [OrderedNumbers α] [CrispNumbers α] {e : Expr α}
    (hconstants : ∀ value, ¬ Occurs (.constant value) e)
    (hrecord : ∀ input membership, Occurs (.query input membership) e →
      ∃ s, record.get? input = some (.sentinel s) ∧ s.ignore = true)
    (hpow : (∃ args, Occurs (.call .gamma args) e) → CrispPowers α) {v : Value α}
    (h : e.evaluate inputs record = .ok v) :
    (e.idleTruth = none → ∃ s, s.ignore = true ∧ v = .sentinel s) ∧
    (∀ b, e.idleTruth = some b → v = .number (if b then 1 else 0)) ∧
    ((∀ f args, ¬ Occurs (.call f args) e) → e.idleTruth = none) := by
  have hstands := evaluate_stands hconstants hrecord hpow h
  refine ⟨fun hnone => ?_, fun b hsome => ?_, idleTruth_eq_none⟩
  · rw [hnone] at hstands
    exact hstands
  · rw [hsome] at hstands
    exact hstands

/-- Two inputs, for neither of which `staleRecord` has data that counts. -/
def staleInputs : VariableStore Float :=
  .ofList [⟨"rain", 0, 1, .ofList [("low", .ramp)]⟩, ⟨"wind", 0, 10, .ofList [("strong", .ramp)]⟩]

/-- A rain and a wind that are to be ignored; the wind has a substitute, which does
    not count. -/
def staleRecord : Record Float :=
  .ofList [("rain", .sentinel .ignoring), ("wind", .sentinel ⟨true, some 3⟩)]

/-- `PRODUCT(rain IS low, wind IS strong)` -/
def staleProduct : Expr Float := .call .product [.query "rain" "low", .query "wind" "strong"]

theorem asksIgnored_stale {e : Expr Float} (h : ∀ q ∈ e.queries, q.1 = "rain" ∨ q.1 = "wind") :
    e.AsksIgnored staleRecord := by
  intro input membership hquery
  rcases h _ (mem_queries_iff.2 hquery) with rfl | rfl
  · exact ⟨.ignoring, rfl, rfl⟩
  · exact ⟨⟨true, some 3⟩, rfl, rfl⟩

/-- `PRODUCT(rain IS low, wind IS strong) AND NOT rain IS low` -/
def staleCondition : Expr Float := .logic .and staleProduct (.negation (.query "rain" "low"))

/-- The part that stays ignored gives way to the product. -/
theorem evaluate_staleCondition :
    staleCondition.idleTruth = some true ∧
    staleCondition.evaluate staleInputs staleRecord = .ok (.number 1) := by
  have hconstants : ∀ value, ¬ Occurs (.constant value) staleCondition := by
    simp [staleCondition, staleProduct, occurs_iff]
  have hrecord : staleCondition.AsksIgnored staleRecord := asksIgnored_stale (by decide)
  have hpow : (∃ args, Occurs (.call .gamma args) staleCondition) → CrispPowers Float := by
    simp [staleCondition, staleProduct, occurs_iff]
  obtain ⟨v, hv⟩ : ∃ v, staleCondition.evaluate staleInputs staleRecord = .ok v := ⟨_, rfl⟩
  refine ⟨rfl, ?_⟩
  rw [hv, (evaluate_ignored hconstants hrecord hpow hv).2.1 true rfl]
  rfl

/-- Ignored data turns into a truth: the product of two ignored truths is one. -/
theorem evaluate_product_ignored :
    (∀ value, ¬ Occurs (.constant value) staleProduct) ∧
    (∀ input membership, Occurs (.query input membership) staleProduct →
      ∃ s, staleRecord.get? input = some (.sentinel s) ∧ s.ignore = true) ∧
    staleProduct.evaluate staleInputs staleRecord = .ok (.number 1) := by
  have hconstants : ∀ value, ¬ Occurs (.constant value) staleProduct := by
    simp [staleProduct, occurs_iff]
  exact ⟨hconstants, asksIgnored_stale (by decide), rfl⟩

end Expr

end FuzzyInference
