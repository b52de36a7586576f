import FuzzyInference.Proofs.Logic.Aggregate
import FuzzyInference.Proofs.Logic.Outcome
import FuzzyInference.Proofs.Scalar.SignedZero

/-!
# The mean of sum and product

A gamma raises the sum to itself and the product to its complement. At its ends
one of the two exponents is one and the other one zero, which leaves one of the
two aggregations. Both are missing, or none of them is, so missing data comes
through whatever gamma is.

The sign of a zero gamma does not matter: it is between zero and one, and its
complement is one.

Results:

* `UnitComplements`: the complements of zero and one.
* `gammaMean_missing` and `gammaMean_present`: a gamma between zero and one.
* `gammaMean_ends`: what a gamma of every kind makes of its operands.
-/

namespace FuzzyInference

open OrderedNumbers

/-- Scalars in which one and a zero of either sign are the complements of each
    other. -/
class UnitComplements (α : Type) [Scalar α] : Prop where
  one_sub_one : ∀ {a : α}, (a == 1) = true → (1 - a == 0) = true
  one_sub_zero : ∀ {a : α}, (a == 0) = true → (1 - a == 1) = true

/-- Raising a number to one keeps it, raising it to zero gives one, and one as a
    factor changes nothing. -/
structure PlainPowers {α : Type} [Scalar α] (x : α) : Prop where
  pow_one : ∀ y : α, (y == 1) = true → Scalar.pow x y = x
  pow_zero : ∀ y : α, (y == 0) = true → Scalar.pow x y = 1
  mul_one : x * 1 = x
  one_mul : 1 * x = x

section

variable {α : Type} [Scalar α] {gamma : Value α} {g : α} {vs : List (Value α)}

/-! ## Gammas between zero and one -/

theorem gammaMean_missing (hgamma : gamma.resolve = some g) (hlength : 2 ≤ vs.length) (hlow : 0 ≤ g)
    (hhigh : g ≤ 1) (h : .sentinel .propagating ∈ vs) :
    gammaMean gamma vs = .ok (.sentinel .propagating) :=
  gammaMean_eq hgamma ⟨hlow, hhigh⟩ (AggregateOp.apply_missing _ hlength h)
    (AggregateOp.apply_missing _ hlength h)

theorem gammaMean_present (hgamma : gamma.resolve = some g) (hlength : 2 ≤ vs.length) (hlow : 0 ≤ g)
    (hhigh : g ≤ 1) (h : .sentinel .propagating ∉ vs) :
    ∃ s p, AggregateOp.sum.apply vs = .ok (.number s) ∧
      AggregateOp.product.apply vs = .ok (.number p) ∧
      gammaMean gamma vs = .ok (.number (Scalar.pow s g * Scalar.pow p (1 - g))) := by
  obtain ⟨s, hsum⟩ := AggregateOp.apply_present .sum hlength h
  obtain ⟨p, hproduct⟩ := AggregateOp.apply_present .product hlength h
  exact ⟨s, p, hsum, hproduct, gammaMean_eq hgamma ⟨hlow, hhigh⟩ hsum hproduct⟩

/-! ## Other gammas -/

theorem gammaMean_outside (hgamma : gamma.resolve = some g) (h : ¬ (0 ≤ g ∧ g ≤ 1))
    (vs : List (Value α)) :
    gammaMean gamma vs =
      .error (.argument (if vs.length < 2 then .gammaTooFewOperands else .gammaOutOfRange)) := by
  rw [gammaMean, hgamma]
  simp only [if_neg h]
  split_ifs <;> rfl

theorem not_mem_unit [OrderedNumbers α] (h : g < 0 ∨ 1 < g ∨ Scalar.isNaN g = true) :
    ¬ (0 ≤ g ∧ g ≤ 1) := by
  rintro ⟨hlow, hhigh⟩
  rcases h with h | h | h
  · exact (lt_iff.1 h).2 hlow
  · exact (lt_iff.1 h).2 hhigh
  · cases h.symm.trans (defined_of_le hlow).2

/-! ## The ends -/

section

variable [OrderedNumbers α] [UnitComplements α]

omit [OrderedNumbers α] [UnitComplements α] in
/-- A gamma mean is an aggregation if the weighted powers of the sum and the product
    come to it. -/
theorem gammaMean_eq_apply (hgamma : gamma.resolve = some g) (hlength : 2 ≤ vs.length)
    (hlow : 0 ≤ g) (hhigh : g ≤ 1) {op : AggregateOp}
    (hpowers : ∀ s p, AggregateOp.sum.apply vs = .ok (.number s) →
      AggregateOp.product.apply vs = .ok (.number p) →
      op.apply vs = .ok (.number (Scalar.pow s g * Scalar.pow p (1 - g)))) :
    gammaMean gamma vs = op.apply vs := by
  by_cases h : .sentinel .propagating ∈ vs
  · rw [gammaMean_missing hgamma hlength hlow hhigh h, AggregateOp.apply_missing _ hlength h]
  · obtain ⟨s, p, hsum, hproduct, hmean⟩ := gammaMean_present hgamma hlength hlow hhigh h
    rw [hmean, hpowers s p hsum hproduct]

theorem gammaMean_one (hgamma : gamma.resolve = some g) (hlength : 2 ≤ vs.length)
    (hg : (g == 1) = true)
    (hpowers : ∀ (op : AggregateOp) x, op.apply vs = .ok (.number x) → PlainPowers x) :
    gammaMean gamma vs = AggregateOp.sum.apply vs := by
  obtain ⟨hhigh, hone⟩ := beq_iff.1 hg
  have hlow : 0 ≤ g := le_trans OrderedNumbers.zero_le_one hone
  refine gammaMean_eq_apply hgamma hlength hlow hhigh fun s p hsum hproduct => ?_
  rw [hsum, (hpowers .sum s hsum).pow_one g hg,
    (hpowers .product p hproduct).pow_zero (1 - g) (UnitComplements.one_sub_one hg),
    (hpowers .sum s hsum).mul_one]

theorem gammaMean_zero (hgamma : gamma.resolve = some g) (hlength : 2 ≤ vs.length)
    (hg : (g == 0) = true)
    (hpowers : ∀ (op : AggregateOp) x, op.apply vs = .ok (.number x) → PlainPowers x) :
    gammaMean gamma vs = AggregateOp.product.apply vs := by
  obtain ⟨hzero, hlow⟩ := beq_iff.1 hg
  have hhigh : g ≤ 1 := le_trans hzero OrderedNumbers.zero_le_one
  refine gammaMean_eq_apply hgamma hlength hlow hhigh fun s p hsum hproduct => ?_
  rw [hproduct, (hpowers .sum s hsum).pow_zero g hg,
    (hpowers .product p hproduct).pow_one (1 - g) (UnitComplements.one_sub_zero hg),
    (hpowers .product p hproduct).one_mul]

end

end

/-! ## 64-bit numbers -/

namespace Binary64

theorem eq_of_beq_one {x : Float} (h : (x == 1) = true) : x = 1 := by
  rcases alike_of_beq h with h | ⟨-, h⟩
  · exact h
  · exact absurd h (by decide)

theorem eq_of_beq_zero {x : Float} (h : (x == 0) = true) : x = 0 ∨ x = -0 := by
  obtain ⟨s, hs⟩ := beq_zero_iff.1 h
  rw [← pack_unpack_model x, hs]
  cases s with
  | positive => exact .inl (by decide)
  | negative => exact .inr (by decide)

/-- The complements of zero and one among 64-bit numbers. -/
instance : UnitComplements Float where
  one_sub_one h := by
    rw [eq_of_beq_one h]
    decide
  one_sub_zero h := by
    rcases eq_of_beq_zero h with rfl | rfl <;> decide

end Binary64

/-! ## Exact numbers -/

namespace Exact

theorem eq_real_of_beq {a : Exact} {x : ℝ} (h : (a == (x : Exact)) = true) : a = x := by
  cases a with
  | real y => rw [real_beq.1 h]
  | infinite s => cases h
  | undefined => cases h

theorem pow_real {x y : ℝ} (h : (x, y) ∈ powers) :
    Scalar.pow (x : Exact) (y : Exact) = ((x ^ y : ℝ) : Exact) :=
  if_pos h

/-- The same of exact numbers. -/
instance : UnitComplements Exact where
  one_sub_one h := by
    rw [one_eq] at h
    rw [eq_real_of_beq h, one_eq, zero_eq, real_sub, real_beq, sub_self]
  one_sub_zero h := by
    rw [zero_eq] at h
    rw [eq_real_of_beq h, one_eq, real_sub, real_beq, sub_zero]

/-- Powers of real numbers are plain. -/
theorem plainPowers_real (x : ℝ) : PlainPowers (x : Exact) where
  pow_one y hy := by
    rw [one_eq] at hy
    have hpower : (x, (1 : ℝ)) ∈ powers := by
      rcases eq_or_ne x 0 with hx | hx
      · exact .inr (.inl ⟨hx, zero_le_one⟩)
      · exact .inr (.inr ⟨hx, 1, Int.cast_one.symm⟩)
    rw [eq_real_of_beq hy, pow_real hpower, Real.rpow_one]
  pow_zero y hy := by
    rw [zero_eq] at hy
    have hpower : (x, (0 : ℝ)) ∈ powers := by
      rcases eq_or_ne x 0 with hx | hx
      · exact .inr (.inl ⟨hx, le_rfl⟩)
      · exact .inr (.inr ⟨hx, 0, Int.cast_zero.symm⟩)
    rw [eq_real_of_beq hy, pow_real hpower, Real.rpow_zero, one_eq]
  mul_one := by rw [one_eq, real_mul, mul_one]
  one_mul := by rw [one_eq, real_mul, one_mul]

end Exact

/-! ## Gammas of every kind -/

/-- What the mean of at least two operands is, whether gamma is a number or a
    sentinel that stands for one: the sum if gamma is one and the product if gamma
    is zero, as long as powers of the two aggregations are plain; and for a gamma
    between zero and one a sentinel exactly if an operand is the propagating one. A
    gamma outside of that range, or an undefined one, is an error about arguments,
    and a sentinel that stands for no number is handed on, however many operands
    there are. -/
theorem gammaMean_ends {α : Type} [Scalar α] [OrderedNumbers α] [UnitComplements α]
    (gamma : Value α) (vs : List (Value α)) :
    (∀ g, gamma.resolve = some g → 2 ≤ vs.length →
      ((∀ (op : AggregateOp) x, op.apply vs = .ok (.number x) → PlainPowers x) →
        ((g == 1) = true → gammaMean gamma vs = AggregateOp.sum.apply vs) ∧
        ((g == 0) = true → gammaMean gamma vs = AggregateOp.product.apply vs)) ∧
      (0 ≤ g → g ≤ 1 → ∃ v, gammaMean gamma vs = .ok v ∧
        (v.isSentinel = true ↔ .sentinel .propagating ∈ vs))) ∧
    (∀ g, gamma.resolve = some g → g < 0 ∨ 1 < g ∨ Scalar.isNaN g = true →
      gammaMean gamma vs =
        .error (.argument (if vs.length < 2 then .gammaTooFewOperands else .gammaOutOfRange))) ∧
    (gamma.resolve = none → gammaMean gamma vs = .ok gamma) := by
  refine ⟨fun g hgamma hlength => ⟨fun hpowers => ?_, fun hlow hhigh => ?_⟩,
    fun g hgamma h => ?_, fun h => ?_⟩
  · exact ⟨fun hg => gammaMean_one hgamma hlength hg hpowers,
      fun hg => gammaMean_zero hgamma hlength hg hpowers⟩
  · by_cases h : .sentinel .propagating ∈ vs
    · exact ⟨_, gammaMean_missing hgamma hlength hlow hhigh h, iff_of_true rfl h⟩
    · obtain ⟨s, p, -, -, hmean⟩ := gammaMean_present hgamma hlength hlow hhigh h
      exact ⟨_, hmean, iff_of_false Bool.false_ne_true h⟩
  · exact gammaMean_outside hgamma (not_mem_unit h) vs
  · exact gammaMean_of_missing h vs

section

open AggregateOp

theorem apply_halfAndQuarter (op : AggregateOp) :
    op.apply halfAndQuarter = .ok (.number (op.onReals [0.5, 0.25] : ℝ)) := by
  have hlength : 2 ≤ halfAndQuarter.length := Nat.le_succ 2
  have hpresent : .sentinel .propagating ∉ halfAndQuarter := by
    simp [halfAndQuarter, Sentinel.propagating, Sentinel.ignoring, Sentinel.substituting]
  rw [apply_numbers op hlength hpresent, ← onNumbers_real]
  rfl

/-- Both ends, one of them by way of a substitute, a gamma in between and missing
    data, a gamma that is too large, and a missing gamma that has no operands. -/
theorem gammaMean_halfAndQuarter :
    2 ≤ halfAndQuarter.length ∧
    (∀ (op : AggregateOp) x, op.apply halfAndQuarter = .ok (.number x) → PlainPowers x) ∧
    gammaMean (.sentinel (.substituting 1)) halfAndQuarter = .ok (.number (0.625 : ℝ)) ∧
    gammaMean (.number 0) halfAndQuarter = .ok (.number (0.125 : ℝ)) ∧
    (∃ v, gammaMean (.number (.real 0.5)) (.sentinel .propagating :: halfAndQuarter) = .ok v ∧
      v.isSentinel = true) ∧
    gammaMean (.number (.real 2)) halfAndQuarter = .error (.argument .gammaOutOfRange) ∧
    gammaMean (.sentinel .ignoring) ([] : List (Value Exact)) = .ok (.sentinel .ignoring) := by
  have hlength : 2 ≤ halfAndQuarter.length := Nat.le_succ 2
  have hlonger : 2 ≤ (Value.sentinel .propagating :: halfAndQuarter).length := Nat.le_add_left 2 2
  have hpowers : ∀ (op : AggregateOp) x, op.apply halfAndQuarter = .ok (.number x) →
      PlainPowers x := by
    intro op x hx
    rw [apply_halfAndQuarter op] at hx
    rw [← Value.number.inj (Except.ok.inj hx)]
    exact Exact.plainPowers_real _
  have hone : ((1 : Exact) == 1) = true := by simp
  have hzero : ((0 : Exact) == 0) = true := by simp
  have hlow : 0 ≤ Exact.real 0.5 := by
    rw [Exact.zero_eq, Exact.real_le]
    norm_num
  have hhigh : Exact.real 0.5 ≤ 1 := by
    rw [Exact.one_eq, Exact.real_le]
    norm_num
  have hlarge : 1 < Exact.real 2 := by
    rw [Exact.one_eq, Exact.real_lt]
    norm_num
  refine ⟨hlength, hpowers, ?_, ?_, ?_, ?_, (gammaMean_ends _ _).2.2 rfl⟩
  · rw [(((gammaMean_ends _ _).1 1 rfl hlength).1 hpowers).1 hone, apply_halfAndQuarter]
    norm_num [onReals]
  · rw [(((gammaMean_ends _ _).1 0 rfl hlength).1 hpowers).2 hzero, apply_halfAndQuarter]
    norm_num [onReals]
  · obtain ⟨v, hv, hmissing⟩ :=
      ((gammaMean_ends (.number (.real 0.5)) _).1 _ rfl hlonger).2 hlow hhigh
    exact ⟨v, hv, hmissing.2 List.mem_cons_self⟩
  · exact (gammaMean_ends (.number (.real 2)) halfAndQuarter).2.1 _ rfl (.inr (.inl hlarge))

end

end FuzzyInference
