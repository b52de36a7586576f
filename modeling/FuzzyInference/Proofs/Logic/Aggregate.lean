import FuzzyInference.Logic.Connective
import FuzzyInference.Proofs.Scalar.Exact

/-!
# Products and sums of truth values

The product of values is a pass from the left that starts with the number one. The
first value that is missing ends it: from there on it is missing. Up to there a
value either is a factor, itself or by its substitute, or gives way. The sum takes
two such passes, one through the complements, where a value that gives way is the
complement one and so no factor either.

Over exact scalars the factors can be exchanged, so only the numbers count that
the operands stand for, in whatever order.

Results:

* `foldl_mul_missing` and `foldl_mul_map`: the pass.
* `AggregateOp.apply_missing` and `AggregateOp.apply_present`: an aggregation is missing exactly
  if an operand is.
* `Exact.multiplied_perm`: exact factors can be exchanged.
* `AggregateOp.apply_congr`: what an aggregation depends on.
* `AggregateOp.closed_form`: the values of both aggregations.
-/

namespace FuzzyInference

open Value

/-! ## The pass -/

namespace Value

variable {α : Type}

/-- A number with a value that is not missing is the number itself or one with the
    number that the value stands for. -/
theorem number_binary (op : α → α → α) (a : α) {v : Value α} (hv : v ≠ sentinel .propagating) :
    binary op (number a) v = number (v.resolve.elim a (op a)) := by
  rcases v with x | ⟨_ | _, _ | k⟩
  · rfl
  · exact absurd rfl hv
  all_goals rfl

variable [Scalar α] {vs : List (Value α)}

theorem number_mul (a : α) {v : Value α} (hv : v ≠ sentinel .propagating) :
    number a * v = number (v.resolve.elim a (a * ·)) :=
  number_binary (· * ·) a hv

theorem number_sub (a : α) {v : Value α} (hv : v ≠ sentinel .propagating) :
    number a - v = number (v.resolve.elim a (a - ·)) :=
  number_binary (· - ·) a hv

/-- A missing value is a missing product, whatever is in front of it and behind
    it. -/
theorem foldl_mul_missing (h : sentinel .propagating ∈ vs) (a : α) :
    vs.foldl (· * ·) (number a) = sentinel .propagating := by
  induction vs generalizing a with
  | nil => exact absurd h List.not_mem_nil
  | cons v vs ih =>
    rw [List.foldl_cons]
    by_cases hv : v = sentinel .propagating
    · rw [hv]
      exact List.foldl_fixed' (binary_propagating _) vs
    · rw [number_mul a hv]
      exact ih ((List.mem_cons.1 h).resolve_left (Ne.symm hv)) _

/-- A pass over what a function makes of values. Without missing values the factors
    are what it makes of the numbers that the values stand for, as long as what it
    makes of a value that gives way is no factor. -/
theorem foldl_mul_map {f : Value α → Value α} {g : α → α}
    (hf : ∀ v, v ≠ sentinel .propagating → ∀ a,
      number a * f v = number (v.resolve.elim a (a * g ·)))
    (h : sentinel .propagating ∉ vs) (a : α) :
    (vs.map f).foldl (· * ·) (number a) =
      number (((vs.filterMap resolve).map g).foldl (· * ·) a) := by
  induction vs generalizing a with
  | nil => rfl
  | cons v vs ih =>
    have hv : v ≠ sentinel .propagating := (List.ne_of_not_mem_cons h).symm
    have hrest := List.not_mem_of_not_mem_cons h
    rw [List.map_cons, List.foldl_cons, hf v hv, ih hrest]
    cases hx : v.resolve with
    | some x => rw [List.filterMap_cons_some hx, List.map_cons, List.foldl_cons, Option.elim_some]
    | none => rw [List.filterMap_cons_none hx, Option.elim_none]

theorem foldl_mul_numbers (h : sentinel .propagating ∉ vs) (a : α) :
    vs.foldl (· * ·) (number a) = number ((vs.filterMap resolve).foldl (· * ·) a) := by
  have hmap := foldl_mul_map (f := id) (g := id) (fun v hv a => number_mul a hv) h a
  rwa [List.map_id, List.map_id] at hmap

theorem foldl_mul_complements (hone : ∀ a : α, a * 1 = a) (h : sentinel .propagating ∉ vs) (a : α) :
    (vs.map (number 1 - ·)).foldl (· * ·) (number a) =
      number (((vs.filterMap resolve).map (1 - ·)).foldl (· * ·) a) := by
  refine foldl_mul_map (fun v hv b => ?_) h a
  rw [number_sub 1 hv]
  cases v.resolve with
  | some x => rfl
  | none => exact congrArg number (hone b)

end Value

/-! ## Exact factors -/

namespace Exact

/-- Whether a product is negative. -/
theorem decide_mul_neg {x y : ℝ} (hx : x ≠ 0) (hy : y ≠ 0) :
    decide (x * y < 0) = (decide (x < 0) ^^ decide (y < 0)) := by
  rcases hx.lt_or_gt with hx | hx <;> rcases hy.lt_or_gt with hy | hy <;>
    simp [mul_neg_iff, hx, hy, not_lt_of_gt]

theorem mul_real_one (a : Exact) : a * (1 : ℝ) = a := by
  cases a with
  | real x => rw [real_mul, mul_one]
  | infinite s =>
    change unbounded s 1 = infinite s
    rw [unbounded, if_neg one_ne_zero, decide_eq_false (not_lt.2 zero_le_one), Bool.xor_false]
  | undefined => rfl

theorem unbounded_mul_real (s : Bool) (x y : ℝ) :
    unbounded s x * (y : Exact) = unbounded s (x * y) := by
  by_cases hx : x = 0
  · rw [unbounded, unbounded, if_pos hx, if_pos (by rw [hx, zero_mul])]
    rfl
  by_cases hy : y = 0
  · rw [unbounded, unbounded, if_neg hx, if_pos (by rw [hy, mul_zero])]
    exact if_pos hy
  rw [unbounded, unbounded, if_neg hx, if_neg (mul_ne_zero hx hy), decide_mul_neg hx hy,
    ← Bool.xor_assoc]
  exact if_neg hy

theorem unbounded_mul_infinite (s t : Bool) (x : ℝ) :
    unbounded s x * infinite t = unbounded (s ^^ t) x := by
  by_cases hx : x = 0
  · rw [unbounded, unbounded, if_pos hx, if_pos hx]
    rfl
  · rw [unbounded, unbounded, if_neg hx, if_neg hx]
    exact congrArg infinite (Bool.xor_right_comm _ _ _)

@[simp] theorem undefined_mul (a : Exact) : undefined * a = undefined := by
  cases a <;> rfl

@[simp] theorem mul_undefined (a : Exact) : a * undefined = undefined := by
  cases a <;> rfl

theorem mul_real_mul_infinite (a : Exact) (y : ℝ) (t : Bool) :
    a * (y : Exact) * infinite t = a * infinite t * (y : Exact) := by
  cases a with
  | real x => exact (unbounded_mul_real t x y).symm
  | infinite s => exact unbounded_mul_infinite s t y
  | undefined => rw [undefined_mul, undefined_mul, undefined_mul]

/-- Exact factors can be exchanged. -/
theorem mul_mul_exchange (a b c : Exact) : a * b * c = a * c * b := by
  cases b with
  | undefined => rw [mul_undefined, mul_undefined, undefined_mul]
  | real y => cases c with
    | undefined => rw [mul_undefined, mul_undefined, undefined_mul]
    | infinite t => exact mul_real_mul_infinite a y t
    | real z => cases a with
      | real x => exact congrArg real (mul_right_comm x y z)
      | infinite r =>
        calc unbounded r y * (z : Exact)
            = unbounded r (y * z) := unbounded_mul_real r y z
          _ = unbounded r (z * y) := by rw [mul_comm]
          _ = unbounded r z * (y : Exact) := (unbounded_mul_real r z y).symm
      | undefined => rw [undefined_mul, undefined_mul, undefined_mul]
  | infinite s => cases c with
    | undefined => rw [mul_undefined, mul_undefined, undefined_mul]
    | real z => exact (mul_real_mul_infinite a z s).symm
    | infinite t => cases a with
      | real x =>
        calc unbounded s x * infinite t
            = unbounded (s ^^ t) x := unbounded_mul_infinite s t x
          _ = unbounded (t ^^ s) x := by rw [Bool.xor_comm]
          _ = unbounded t x * infinite s := (unbounded_mul_infinite t s x).symm
      | infinite r => exact congrArg infinite (Bool.xor_right_comm r s t)
      | undefined => rw [undefined_mul, undefined_mul, undefined_mul]

instance : RightCommutative fun a b : Exact => a * b := ⟨mul_mul_exchange⟩

/-- The product of exact numbers. -/
noncomputable def multiplied (as : List Exact) : Exact := as.foldl (· * ·) 1

theorem multiplied_perm {as bs : List Exact} (h : as.Perm bs) : multiplied as = multiplied bs :=
  h.foldl_eq 1

theorem foldl_mul_real (rs : List ℝ) (x : ℝ) :
    (rs.map real).foldl (· * ·) (x : Exact) = ((x * rs.prod : ℝ) : Exact) := by
  induction rs generalizing x with
  | nil => rw [List.prod_nil, mul_one, List.map_nil, List.foldl_nil]
  | cons r rs ih => rw [List.map_cons, List.foldl_cons, real_mul, ih, List.prod_cons, mul_assoc]

theorem multiplied_real (rs : List ℝ) : multiplied (rs.map real) = ((rs.prod : ℝ) : Exact) := by
  rw [multiplied, one_eq, foldl_mul_real, one_mul]

theorem map_one_sub_real (rs : List ℝ) : (rs.map real).map (1 - ·) = (rs.map (1 - ·)).map real := by
  rw [List.map_map, List.map_map]
  exact List.map_congr_left fun r _ => by
    rw [Function.comp_apply, Function.comp_apply, one_eq, real_sub]

end Exact

/-! ## Aggregations -/

namespace AggregateOp

/-- The number that an aggregation makes of the numbers its operands stand for. -/
noncomputable def onNumbers : AggregateOp → List Exact → Exact
  | .product, as => Exact.multiplied as
  | .sum, as => 1 - Exact.multiplied (as.map (1 - ·))

/-- The same for real numbers. -/
noncomputable def onReals : AggregateOp → List ℝ → ℝ
  | .product, rs => rs.prod
  | .sum, rs => 1 - (rs.map (1 - ·)).prod

theorem onNumbers_real (op : AggregateOp) (rs : List ℝ) :
    op.onNumbers (rs.map Exact.real) = (op.onReals rs : ℝ) := by
  cases op with
  | product => exact Exact.multiplied_real rs
  | sum =>
    rw [onNumbers, Exact.map_one_sub_real, Exact.multiplied_real, Exact.one_eq, Exact.real_sub]
    rfl

section

variable {α : Type} [Scalar α] {vs : List (Value α)}

theorem apply_missing (op : AggregateOp) (hlength : 2 ≤ vs.length)
    (h : .sentinel .propagating ∈ vs) : op.apply vs = .ok (.sentinel .propagating) := by
  unfold apply
  rw [if_neg (not_lt.2 hlength)]
  cases op with
  | product => exact congrArg Except.ok (foldl_mul_missing h 1)
  | sum =>
    have hmem : sentinel .propagating ∈ vs.map (number 1 - ·) := List.mem_map_of_mem h
    exact congrArg (fun v => Except.ok (number 1 - v)) (foldl_mul_missing hmem 1)

theorem apply_present (op : AggregateOp) (hlength : 2 ≤ vs.length)
    (h : .sentinel .propagating ∉ vs) : ∃ x, op.apply vs = .ok (.number x) := by
  unfold apply
  rw [if_neg (not_lt.2 hlength)]
  cases op with
  | product => exact ⟨_, congrArg Except.ok (foldl_mul_numbers h 1)⟩
  | sum =>
    have hcomplements : sentinel .propagating ∉ vs.map (number 1 - ·) := by
      intro hmem
      obtain ⟨v, hv, hsub⟩ := List.mem_map.1 hmem
      cases (number_sub 1 (ne_of_mem_of_not_mem hv h)).symm.trans hsub
    exact ⟨_, congrArg (fun v => Except.ok (number 1 - v)) (foldl_mul_numbers hcomplements 1)⟩

end

variable {vs ws : List (Value Exact)}

theorem onNumbers_perm (op : AggregateOp) {as bs : List Exact} (h : as.Perm bs) :
    op.onNumbers as = op.onNumbers bs := by
  cases op with
  | product => exact Exact.multiplied_perm h
  | sum => exact congrArg (1 - ·) (Exact.multiplied_perm (h.map (1 - ·)))

theorem apply_numbers (op : AggregateOp) (hlength : 2 ≤ vs.length)
    (h : .sentinel .propagating ∉ vs) :
    op.apply vs = .ok (.number (op.onNumbers (vs.filterMap resolve))) := by
  unfold apply
  rw [if_neg (not_lt.2 hlength)]
  cases op with
  | product => exact congrArg Except.ok (foldl_mul_numbers h 1)
  | sum =>
    have hone (a : Exact) : a * 1 = a := by rw [Exact.one_eq, Exact.mul_real_one]
    exact congrArg (fun v => Except.ok (number 1 - v)) (foldl_mul_complements hone h 1)

/-- An aggregation depends on whether an operand is missing, and on the numbers
    there are in whatever order. -/
theorem apply_congr (op : AggregateOp) (hvs : 2 ≤ vs.length) (hws : 2 ≤ ws.length)
    (hmissing : .sentinel .propagating ∈ vs ↔ .sentinel .propagating ∈ ws)
    (hnumbers : (vs.filterMap resolve).Perm (ws.filterMap resolve)) :
    op.apply vs = op.apply ws := by
  by_cases h : .sentinel .propagating ∈ vs
  · rw [apply_missing op hvs h, apply_missing op hws (hmissing.1 h)]
  · rw [apply_numbers op hvs h, apply_numbers op hws (hmissing.not.1 h), onNumbers_perm op hnumbers]

theorem apply_insert_ignored (op : AggregateOp) {s : Sentinel Exact} (hs : s.ignore = true)
    {xs ys : List (Value Exact)} (hlength : 2 ≤ (xs ++ ys).length) :
    op.apply (xs ++ .sentinel s :: ys) = op.apply (xs ++ ys) := by
  have hne : sentinel .propagating ≠ sentinel s := by
    rintro ⟨⟩
    cases hs
  have hresolve : (sentinel s).resolve = none := if_pos hs
  refine apply_congr op ?_ hlength ?_ ?_
  · rw [List.length_append] at hlength ⊢
    exact hlength.trans (Nat.add_le_add_left (Nat.le_succ _) _)
  · rw [List.mem_append, List.mem_append, List.mem_cons, or_iff_right hne]
  · rw [List.filterMap_append, List.filterMap_append, List.filterMap_cons_none hresolve]

/-- Over exact scalars a missing operand is the product and the sum of at least two
    values. Without one the product is the product of the numbers that the operands
    stand for, and the sum is the complement of the product of their complements.
    Neither depends on the order of the operands or on those that give way. -/
theorem closed_form (vs : List (Value Exact)) (hlength : 2 ≤ vs.length) :
    (.sentinel .propagating ∈ vs → ∀ op : AggregateOp, op.apply vs = .ok (.sentinel .propagating)) ∧
    (.sentinel .propagating ∉ vs →
      product.apply vs = .ok (.number (Exact.multiplied (vs.filterMap resolve))) ∧
      sum.apply vs = .ok (.number (1 - Exact.multiplied ((vs.filterMap resolve).map (1 - ·)))) ∧
      ∀ rs : List ℝ, vs.filterMap resolve = rs.map Exact.real →
        product.apply vs = .ok (.number (rs.prod : ℝ)) ∧
        sum.apply vs = .ok (.number (1 - (rs.map (1 - ·)).prod : ℝ))) ∧
    (∀ (op : AggregateOp) (ws : List (Value Exact)), vs.Perm ws → op.apply ws = op.apply vs) ∧
    ∀ (op : AggregateOp) (s : Sentinel Exact) (xs ys : List (Value Exact)), s.ignore = true →
      vs = xs ++ ys →
      op.apply (xs ++ .sentinel s :: ys) = op.apply vs := by
  refine ⟨fun h op => apply_missing op hlength h, fun h => ?_, fun op ws h => ?_, ?_⟩
  · have hproduct := apply_numbers product hlength h
    have hsum := apply_numbers sum hlength h
    refine ⟨hproduct, hsum, fun rs hrs => ?_⟩
    rw [hproduct, hsum, hrs, onNumbers_real, onNumbers_real]
    exact ⟨rfl, rfl⟩
  · exact apply_congr op (h.length_eq ▸ hlength) hlength h.symm.mem_iff (h.symm.filterMap resolve)
  · rintro op s xs ys hs rfl
    exact apply_insert_ignored op hs hlength

/-- A half, a value that gives way, and a missing one that stands for a quarter. -/
noncomputable def halfAndQuarter : List (Value Exact) :=
  [.number (0.5 : ℝ), .sentinel .ignoring, .sentinel (.substituting (0.25 : ℝ))]

theorem aggregate_halfAndQuarter :
    2 ≤ halfAndQuarter.length ∧ .sentinel .propagating ∉ halfAndQuarter ∧
    product.apply halfAndQuarter = .ok (.number (0.125 : ℝ)) ∧
    sum.apply halfAndQuarter.reverse = .ok (.number (0.625 : ℝ)) ∧
    product.apply (.sentinel .propagating :: halfAndQuarter) = .ok (.sentinel .propagating) := by
  have hlength : 2 ≤ halfAndQuarter.length := Nat.le_succ 2
  have hpresent : .sentinel .propagating ∉ halfAndQuarter := by
    simp [halfAndQuarter, Sentinel.propagating, Sentinel.ignoring, Sentinel.substituting]
  obtain ⟨-, hnumbers, hperm, -⟩ := closed_form halfAndQuarter hlength
  obtain ⟨hproduct, hsum⟩ := (hnumbers hpresent).2.2 [0.5, 0.25] rfl
  have hlonger : 2 ≤ (sentinel .propagating :: halfAndQuarter).length := Nat.le_add_left 2 2
  refine ⟨hlength, hpresent, ?_, ?_, (closed_form _ hlonger).1 List.mem_cons_self product⟩
  · rw [hproduct]
    norm_num
  · rw [hperm sum _ (List.reverse_perm _).symm, hsum]
    norm_num

end AggregateOp

end FuzzyInference
