import FuzzyInference.Proofs.Logic.Duality
import FuzzyInference.Proofs.Rule.Outcome
import FuzzyInference.Proofs.Rule.Truths

/-!
# Conditions rise with their queries

Over exact scalars a condition of constants, queries, `NOT`, `AND`, `OR`, `SUM` and
`PRODUCT` is monotone. Two records are compared at once: a complement turns the
comparison around, and all other operators keep it. So a query pulls the condition
in its own direction below an even number of complements, and in the other one below
an odd number.

`SUM` is the complement of a product of complements, which turns the comparison
around twice. That products keep it needs factors that are not negative, so it is
carried along that both truths are between zero and one.

Results:

* `Rising`: how two truths compare, and what operations make of them.
* `rises_aggregate`: the same for aggregations of values.
* `Below`: occurrences and the number of complements above them.
* `evaluate_mono`: a condition rises with its queries.
-/

namespace FuzzyInference

open Scalar

/-! ## Two truths -/

/-- Two numbers between zero and one, the second of which is not below the first. -/
structure Rising (x y : ℝ) : Prop where
  nonneg : 0 ≤ x
  le : x ≤ y
  le_one : y ≤ 1

section

variable {x y x' y' : ℝ}

theorem rising_one : Rising 1 1 := ⟨zero_le_one, le_rfl, le_rfl⟩

theorem Rising.one_sub (h : Rising x y) : Rising (1 - y) (1 - x) :=
  ⟨sub_nonneg.2 h.le_one, sub_le_sub_left h.le 1, sub_le_self 1 h.nonneg⟩

theorem Rising.mul (h : Rising x y) (h' : Rising x' y') : Rising (x * x') (y * y') where
  nonneg := mul_nonneg h.nonneg h'.nonneg
  le := mul_le_mul h.le h'.le h'.nonneg (h.nonneg.trans h.le)
  le_one := mul_le_one₀ h.le_one (h'.nonneg.trans h'.le) h'.le_one

theorem Rising.min (h : Rising x y) (h' : Rising x' y') : Rising (min x x') (min y y') :=
  ⟨le_min h.nonneg h'.nonneg, min_le_min h.le h'.le, (min_le_left y y').trans h.le_one⟩

theorem Rising.max (h : Rising x y) (h' : Rising x' y') : Rising (max x x') (max y y') :=
  ⟨h.nonneg.trans (le_max_left x x'), max_le_max h.le h'.le, max_le h.le_one h'.le_one⟩

variable {xs ys : List ℝ}

theorem rising_prod (h : List.Forall₂ Rising xs ys) : Rising xs.prod ys.prod := by
  induction h with
  | nil => exact rising_one
  | cons hxy _ ih =>
    rw [List.prod_cons, List.prod_cons]
    exact hxy.mul ih

/-- Complements turn the comparison around twice, at the factors and at their
    product. -/
theorem rising_onReals (op : AggregateOp) (h : List.Forall₂ Rising xs ys) :
    Rising (op.onReals xs) (op.onReals ys) := by
  cases op with
  | product => exact rising_prod h
  | sum =>
    have hcomplements : List.Forall₂ Rising (ys.map (1 - ·)) (xs.map (1 - ·)) := by
      rw [List.forall₂_map_left_iff, List.forall₂_map_right_iff]
      exact (h.imp fun _ _ hxy => hxy.one_sub).flip
    exact (rising_prod hcomplements).one_sub

end

/-! ## Two values -/

/-- Two values that are truths, the second of which is not below the first. -/
def Rises (u v : Value Exact) : Prop := ∃ x y : ℝ, u = .number x ∧ v = .number y ∧ Rising x y

section

variable {u v u' v' : Value Exact}

theorem Rises.negate (h : Rises u v) : Rises (negate v) (negate u) := by
  obtain ⟨x, y, rfl, rfl, h⟩ := h
  exact ⟨1 - y, 1 - x, negate_of_resolve rfl, negate_of_resolve rfl, h.one_sub⟩

theorem Rises.both (h : Rises u v) (h' : Rises u' v') :
    Rises (LogicOp.both u u') (LogicOp.both v v') := by
  obtain ⟨x, y, rfl, rfl, h⟩ := h
  obtain ⟨x', y', rfl, rfl, h'⟩ := h'
  exact ⟨_, _, both_of_resolve rfl rfl, both_of_resolve rfl rfl, h.min h'⟩

theorem Rises.either (h : Rises u v) (h' : Rises u' v') :
    Rises (LogicOp.either u u') (LogicOp.either v v') := by
  obtain ⟨x, y, rfl, rfl, h⟩ := h
  obtain ⟨x', y', rfl, rfl, h'⟩ := h'
  exact ⟨_, _, either_of_resolve rfl rfl, either_of_resolve rfl rfl, h.max h'⟩

/-- The values of real numbers. -/
def numbersOf (xs : List ℝ) : List (Value Exact) := xs.map fun x : ℝ => .number x

theorem exists_numbersOf {us vs : List (Value Exact)} (h : List.Forall₂ Rises us vs) :
    ∃ xs ys, us = numbersOf xs ∧ vs = numbersOf ys ∧ List.Forall₂ Rising xs ys := by
  induction h with
  | nil => exact ⟨[], [], rfl, rfl, .nil⟩
  | cons huv _ ih =>
    obtain ⟨x, y, rfl, rfl, hxy⟩ := huv
    obtain ⟨xs, ys, rfl, rfl, h⟩ := ih
    exact ⟨x :: xs, y :: ys, rfl, rfl, .cons hxy h⟩

theorem apply_numbersOf {op : AggregateOp} {xs : List ℝ} (h : op.apply (numbersOf xs) = .ok u) :
    u = .number (op.onReals xs : ℝ) := by
  have hpresent : .sentinel .propagating ∉ numbersOf xs := by simp [numbersOf]
  have hresolve : (numbersOf xs).filterMap Value.resolve = xs.map Exact.real := by
    rw [numbersOf, List.filterMap_map, ← List.filterMap_eq_map]
    rfl
  rw [AggregateOp.apply_numbers op (AggregateOp.two_le_length h) hpresent, hresolve,
    AggregateOp.onNumbers_real] at h
  exact (Except.ok.inj h).symm

theorem rises_aggregate {op : AggregateOp} {us vs : List (Value Exact)}
    (h : List.Forall₂ Rises us vs) (hu : op.apply us = .ok u) (hv : op.apply vs = .ok v) :
    Rises u v := by
  obtain ⟨xs, ys, rfl, rfl, hrising⟩ := exists_numbersOf h
  exact ⟨_, _, apply_numbersOf hu, apply_numbersOf hv, rising_onReals op hrising⟩

end

/-! ## Conditions -/

namespace Expr

/-- A condition occurs in another one, below a number of complements. -/
inductive Below {α : Type} : ℕ → Expr α → Expr α → Prop
  | here (e : Expr α) : Below 0 e e
  | negated {n : ℕ} {p e : Expr α} (h : Below n p e) : Below (n + 1) p (.negation e)
  | left {n : ℕ} {p l : Expr α} (op : LogicOp) (r : Expr α) (h : Below n p l) :
      Below n p (.logic op l r)
  | right {n : ℕ} {p r : Expr α} (op : LogicOp) (l : Expr α) (h : Below n p r) :
      Below n p (.logic op l r)
  | argument {n : ℕ} {p a : Expr α} (f : RuleFunction) {args : List (Expr α)} (ha : a ∈ args)
    (h : Below n p a) : Below n p (.call f args)

theorem exists_below_iff {α : Type} {p e : Expr α} : (∃ n, Below n p e) ↔ Occurs p e := by
  constructor
  · rintro ⟨n, h⟩
    induction h with
    | here e => exact .refl e
    | negated _ ih => exact ih.of_operand (.negated _)
    | left op r _ ih => exact ih.of_operand (.left op _ r)
    | right op l _ ih => exact ih.of_operand (.right op l _)
    | argument f ha _ ih => exact ih.of_operand (.argument f ha)
  · intro h
    induction h with
    | refl => exact ⟨0, .here p⟩
    | tail _ hoperand ih =>
      obtain ⟨n, hn⟩ := ih
      cases hoperand with
      | negated => exact ⟨n + 1, .negated hn⟩
      | left op _ r => exact ⟨n, .left op r hn⟩
      | right op l _ => exact ⟨n, .right op l hn⟩
      | argument f ha => exact ⟨n, .argument f ha hn⟩

/-- A condition that is made of truths and queries by `NOT`, `AND`, `OR`, `SUM` and
    `PRODUCT`. -/
structure IsMonotone (e : Expr Exact) : Prop where
  constants : ∀ value, Occurs (.constant value) e → IsTruth value
  no_xor : ∀ l r, ¬ Occurs (.logic .xor l r) e
  no_gamma : ∀ args, ¬ Occurs (.call .gamma args) e

theorem IsMonotone.operand {a e : Expr Exact} (h : e.IsMonotone) (ha : IsOperand a e) :
    a.IsMonotone where
  constants value hvalue := h.constants value (hvalue.of_operand ha)
  no_xor l r hxor := h.no_xor l r (hxor.of_operand ha)
  no_gamma args hgamma := h.no_gamma args (hgamma.of_operand ha)

/-- In two records the queries of a condition find numbers between zero and one.
    Below an even number of complements the one in the second record is not smaller,
    and below an odd number it is not greater. -/
def Favoured (inputs : VariableStore Exact) (first second : Record Exact) (e : Expr Exact) : Prop :=
  ∀ n input membership, Below n (.query input membership) e →
    ∃ t ∈ Set.Icc (0 : ℝ) 1, ∃ t' ∈ Set.Icc (0 : ℝ) 1,
      queryTruth inputs first input membership = .ok (.number t) ∧
      queryTruth inputs second input membership = .ok (.number t') ∧
      (Even n → t ≤ t') ∧ (Odd n → t' ≤ t)

variable {inputs : VariableStore Exact} {first second : Record Exact}

/-- Below a complement the records change places. -/
theorem Favoured.negated {e : Expr Exact} (h : (negation e).Favoured inputs first second) :
    e.Favoured inputs second first := by
  intro n input membership hquery
  obtain ⟨t, ht, t', ht', hfirst, hsecond, heven, hodd⟩ :=
    h (n + 1) input membership (.negated hquery)
  exact ⟨t', ht', t, ht, hsecond, hfirst, fun hn => hodd hn.add_one, fun hn => heven hn.add_one⟩

/-- What each argument makes of two records is so of the lists that their values
    form. -/
theorem forall₂_evaluate {R : Value Exact → Value Exact → Prop} {args : List (Expr Exact)}
    {us vs : List (Value Exact)}
    (hus : List.Forall₂ (fun a u => a.evaluate inputs first = .ok u) args us)
    (hvs : List.Forall₂ (fun a v => a.evaluate inputs second = .ok v) args vs)
    (h : ∀ a ∈ args, ∀ u v, a.evaluate inputs first = .ok u →
      a.evaluate inputs second = .ok v → R u v) : List.Forall₂ R us vs := by
  induction hus generalizing vs with
  | nil =>
    cases hvs
    exact .nil
  | cons hu _ ih =>
    rw [List.forall_mem_cons] at h
    cases hvs with
    | cons hv hvs => exact .cons (h.1 _ _ hu hv) (ih hvs h.2)

/-- Negations compare the second record with the first one, so both records are
    general in the induction. -/
theorem rises_evaluate {e : Expr Exact} (he : e.IsMonotone) (h : e.Favoured inputs first second)
    {u v : Value Exact} (hu : e.evaluate inputs first = .ok u)
    (hv : e.evaluate inputs second = .ok v) : Rises u v := by
  induction e generalizing first second u v with
  | constant value =>
    cases hu
    cases hv
    obtain ⟨x, hx, rfl⟩ := Exact.isTruth_iff.1 (he.constants value (.refl _))
    exact ⟨x, x, rfl, rfl, hx.1, le_rfl, hx.2⟩
  | query input membership =>
    obtain ⟨t, ht, t', ht', hfirst, hsecond, heven, -⟩ := h 0 input membership (.here _)
    cases hu.symm.trans hfirst
    cases hv.symm.trans hsecond
    exact ⟨t, t', rfl, rfl, ht.1, heven ⟨0, rfl⟩, ht'.2⟩
  | negation e ih =>
    obtain ⟨u', hu', hu⟩ := bind_eq_ok.1 hu
    obtain ⟨v', hv', hv⟩ := bind_eq_ok.1 hv
    cases hu
    cases hv
    -- The operand is compared from the second record to the first one.
    exact (ih (he.operand (.negated e)) h.negated hv' hu').negate
  | logic op l r ihl ihr =>
    obtain ⟨u₁, hu₁, hu⟩ := bind_eq_ok.1 hu
    obtain ⟨u₂, hu₂, hu⟩ := bind_eq_ok.1 hu
    obtain ⟨v₁, hv₁, hv⟩ := bind_eq_ok.1 hv
    obtain ⟨v₂, hv₂, hv⟩ := bind_eq_ok.1 hv
    cases hu
    cases hv
    have hleft : Rises u₁ v₁ :=
      ihl (he.operand (.left op l r)) (fun n i m hquery => h n i m (.left op r hquery)) hu₁ hv₁
    have hright : Rises u₂ v₂ :=
      ihr (he.operand (.right op l r)) (fun n i m hquery => h n i m (.right op l hquery)) hu₂ hv₂
    cases op with
    | and => exact hleft.both hright
    | or => exact hleft.either hright
    | xor => exact absurd (.refl _) (he.no_xor l r)
  | call f args ih =>
    obtain ⟨us, hus, hu⟩ := evaluate_call_eq_ok.1 hu
    obtain ⟨vs, hvs, hv⟩ := evaluate_call_eq_ok.1 hv
    have hargs : List.Forall₂ Rises us vs := forall₂_evaluate hus hvs fun a ha u v =>
      ih a ha (he.operand (.argument f ha)) fun n i m hquery => h n i m (.argument f ha hquery)
    cases f with
    | sum => exact rises_aggregate hargs hu hv
    | product => exact rises_aggregate hargs hu hv
    | gamma => exact absurd (.refl _) (he.no_gamma args)

/-- A condition that is made of truths and queries by monotone operators rises with
    its queries: what it gives for two records, the second of which favours it, are
    numbers between zero and one, and the second one is at least the first one. -/
theorem evaluate_mono {e : Expr Exact} (he : e.IsMonotone) (h : e.Favoured inputs first second)
    {u v : Value Exact} (hu : e.evaluate inputs first = .ok u)
    (hv : e.evaluate inputs second = .ok v) :
    ∃ x y : ℝ, u = .number x ∧ v = .number y ∧ 0 ≤ x ∧ x ≤ y ∧ y ≤ 1 := by
  obtain ⟨x, y, hx, hy, hxy⟩ := rises_evaluate he h hu hv
  exact ⟨x, y, hx, hy, hxy.nonneg, hxy.le, hxy.le_one⟩

/-- `SUM(rain IS heavy, 0.5) AND NOT (wind IS strong AND NOT rain IS heavy)` -/
noncomputable def drizzle : Expr Exact :=
  .logic .and (.call .sum [.query "rain" "heavy", .constant (.real 0.5)])
    (.negation (.logic .and (.query "wind" "strong") (.negation (.query "rain" "heavy"))))

theorem isMonotone_drizzle : drizzle.IsMonotone where
  constants value h := by
    have hvalue : value = .real 0.5 := by simpa [drizzle, occurs_iff] using h
    exact Exact.isTruth_iff.2 ⟨0.5, by norm_num, hvalue⟩
  no_xor l r := by simp [drizzle, occurs_iff]
  no_gamma args := by simp [drizzle, occurs_iff]

/-- Rain is asked for below no and below two complements, wind below one. -/
theorem below_drizzle {n : ℕ} {input membership : String}
    (h : Below n (.query input membership) drizzle) :
    (Even n ∧ input = "rain" ∧ membership = "heavy") ∨
    (Odd n ∧ input = "wind" ∧ membership = "strong") := by
  cases h with
  | left _ _ h =>
    cases h with
    | argument _ ha h =>
      rcases List.mem_pair.1 ha with rfl | rfl
      · cases h
        exact .inl ⟨⟨0, rfl⟩, rfl, rfl⟩
      · cases h
  | right _ _ h =>
    cases h with
    | negated h =>
      cases h with
      | left _ _ h =>
        cases h
        exact .inr ⟨odd_one, rfl, rfl⟩
      | right _ _ h =>
        cases h with
        | negated h =>
          cases h
          exact .inl ⟨even_two, rfl, rfl⟩

/-- More rain and less wind favour the condition. -/
theorem favoured_drizzle {rain rain' wind wind' : ℝ} (hrain : Rising rain rain')
    (hwind : Rising wind' wind) :
    drizzle.Favoured gauges (readings (.number rain) (.number wind))
      (readings (.number rain') (.number wind')) := by
  intro n input membership h
  have hlow : rain ∈ Set.Icc (0 : ℝ) 1 := ⟨hrain.nonneg, hrain.le.trans hrain.le_one⟩
  have hhigh : rain' ∈ Set.Icc (0 : ℝ) 1 := ⟨hrain.nonneg.trans hrain.le, hrain.le_one⟩
  have hlow' : wind' ∈ Set.Icc (0 : ℝ) 1 := ⟨hwind.nonneg, hwind.le.trans hwind.le_one⟩
  have hhigh' : wind ∈ Set.Icc (0 : ℝ) 1 := ⟨hwind.nonneg.trans hwind.le, hwind.le_one⟩
  rcases below_drizzle h with ⟨hn, rfl, rfl⟩ | ⟨hn, rfl, rfl⟩
  · exact ⟨rain, hlow, rain', hhigh, queryTruth_rain hlow _, queryTruth_rain hhigh _,
      fun _ => hrain.le, fun hodd => absurd hn (Nat.not_even_iff_odd.2 hodd)⟩
  · exact ⟨wind, hhigh', wind', hlow', queryTruth_wind hhigh' _, queryTruth_wind hlow' _,
      fun heven => absurd heven (Nat.not_even_iff_odd.2 hn), fun _ => hwind.le⟩

theorem exists_drizzle {rain wind : ℝ} (hrain : rain ∈ Set.Icc (0 : ℝ) 1)
    (hwind : wind ∈ Set.Icc (0 : ℝ) 1) :
    ∃ v, drizzle.evaluate gauges (readings (.number rain) (.number wind)) = .ok v := by
  refine evaluate_of_queries (fun f args h => ?_) fun input membership h => ?_
  · have hcall : f = .sum ∧ args = [.query "rain" "heavy", .constant (.real 0.5)] := by
      simpa [drizzle, occurs_iff] using h
    rw [hcall.1, hcall.2]
    exact le_rfl
  · obtain ⟨n, h⟩ := exists_below_iff.2 h
    rcases below_drizzle h with ⟨-, rfl, rfl⟩ | ⟨-, rfl, rfl⟩
    · exact ⟨_, queryTruth_rain hrain _⟩
    · exact ⟨_, queryTruth_wind hwind _⟩

theorem evaluate_drizzle :
    drizzle.IsMonotone ∧
    drizzle.Favoured gauges (readings (.number (.real 0.25)) (.number (.real 0.75)))
      (readings (.number (.real 0.5)) (.number (.real 0.5))) ∧
    ∃ x y : ℝ,
      drizzle.evaluate gauges (readings (.number (.real 0.25)) (.number (.real 0.75))) =
        .ok (.number x) ∧
      drizzle.evaluate gauges (readings (.number (.real 0.5)) (.number (.real 0.5))) =
        .ok (.number y) ∧
      0 ≤ x ∧ x ≤ y ∧ y ≤ 1 := by
  have hrain : Rising 0.25 0.5 := ⟨by norm_num, by norm_num, by norm_num⟩
  have hwind : Rising 0.5 0.75 := ⟨by norm_num, by norm_num, by norm_num⟩
  have hfavoured := favoured_drizzle hrain hwind
  have hquarter : (0.25 : ℝ) ∈ Set.Icc (0 : ℝ) 1 := by norm_num
  have hhalf : (0.5 : ℝ) ∈ Set.Icc (0 : ℝ) 1 := by norm_num
  have hmost : (0.75 : ℝ) ∈ Set.Icc (0 : ℝ) 1 := by norm_num
  obtain ⟨u, hu⟩ := exists_drizzle hquarter hmost
  obtain ⟨v, hv⟩ := exists_drizzle hhalf hhalf
  obtain ⟨x, y, rfl, rfl, hxy⟩ := evaluate_mono isMonotone_drizzle hfavoured hu hv
  exact ⟨isMonotone_drizzle, hfavoured, x, y, hu, hv, hxy⟩

end Expr

end FuzzyInference
