import FuzzyInference.Proofs.Scalar.Order
import Mathlib

/-!
# Exact arithmetic

The real numbers as scalars. No operation rounds or overflows, and zero has no
sign, so what holds of curves and samples over these scalars is the mathematics
that 64-bit numbers approximate. The two infinities and the undefined number are
there for what the library does with them: infinities are the ends of the order,
and a division by zero gives one of the three.

An elementary function has a value at the real numbers of its domain, and is
undefined elsewhere.

A real result does not tell that there was no division by zero, because a minimum or
a comparison hides what it gave. So the result of dividing by zero can be left open:
a computation that comes to the same however such divisions turn out makes none.

Results:

* `real_add`, `real_sub`, `real_mul`, `real_div`: arithmetic of real numbers is
  the one of real numbers.
* `real_le`, `real_lt`, `real_beq`, `maximum_real`, `minimum_real`: so is their
  order.
* the laws of the order, `OrderedNumbers`.
* `NoZeroDivision`: computations that do not depend on dividing by zero.
* `eq_of_forall_dividing`, `noZeroDivision_of_forall`: one that has a single result
  is such a computation, and has this result.
-/

namespace FuzzyInference

/-- A real number, one of the two infinities, or the undefined number. -/
inductive Exact where
  | real (x : ℝ)
  | infinite (negative : Bool)
  | undefined

namespace Exact

instance : Coe ℝ Exact := ⟨real⟩

noncomputable section

open Classical

/-! ## Operations -/

/-- Where a defined scalar stands among the real numbers and their two ends. -/
def place? : Exact → Option EReal
  | real x => some x
  | infinite true => some ⊥
  | infinite false => some ⊤
  | undefined => none

/-- An infinity times a real number. -/
def unbounded (negative : Bool) (x : ℝ) : Exact :=
  if x = 0 then undefined else infinite (negative ^^ decide (x < 0))

/-- Infinities of different signs have no sum. -/
def add : Exact → Exact → Exact
  | real x, real y => real (x + y)
  | real _, infinite s => infinite s
  | infinite s, real _ => infinite s
  | infinite s, infinite t => if s = t then infinite s else undefined
  | _, _ => undefined

/-- The negative of a number. -/
def neg : Exact → Exact
  | real x => real (-x)
  | infinite s => infinite (!s)
  | undefined => undefined

/-- Zero times an infinity is undefined. -/
def mul : Exact → Exact → Exact
  | real x, real y => real (x * y)
  | real x, infinite s => unbounded s x
  | infinite s, real y => unbounded s y
  | infinite s, infinite t => infinite (s ^^ t)
  | _, _ => undefined

/-- Division; zero divides like a positive number that vanishes. -/
def div : Exact → Exact → Exact
  | real x, real y => if y = 0 then unbounded false x else real (x / y)
  | real _, infinite _ => real 0
  | infinite s, real y => if y = 0 then infinite s else unbounded s y
  | _, _ => undefined

/-- A function of real numbers that keeps the infinities apart. -/
def onReals (f : ℝ → ℝ) : Exact → Exact
  | real x => real (f x)
  | a => a

/-- An elementary function with its domain. -/
def onDomain (domain : Set ℝ) (f : ℝ → ℝ) : Exact → Exact
  | real x => if x ∈ domain then real (f x) else undefined
  | _ => undefined

/-- An elementary function of two numbers with its domain. -/
def onDomain₂ (domain : Set (ℝ × ℝ)) (f : ℝ → ℝ → ℝ) : Exact → Exact → Exact
  | real x, real y => if (x, y) ∈ domain then real (f x y) else undefined
  | _, _ => undefined

/-- The nearest whole number, a half going to the even one. -/
def roundHalfEven (x : ℝ) : ℝ :=
  if Int.fract x = 1 / 2 ∧ Even ⌊x⌋ then ⌊x⌋ else round x

/-- A whole number without the fraction of a real number. -/
def truncated (x : ℝ) : ℝ := if x < 0 then ⌈x⌉ else ⌊x⌋

/-- Where a power of a real number is one: a negative base needs a whole
    exponent. -/
def powers : Set (ℝ × ℝ) := {p | 0 < p.1 ∨ (p.1 = 0 ∧ 0 ≤ p.2) ∨ p.1 ≠ 0 ∧ ∃ n : ℤ, p.2 = n}

/-- Real numbers with infinities and an undefined number are scalars. -/
instance : Scalar Exact where
  add := add
  sub a b := add a (neg b)
  mul := mul
  div := div
  neg := neg
  lt a b := ∃ x y, a.place? = some x ∧ b.place? = some y ∧ x < y
  le a b := ∃ x y, a.place? = some x ∧ b.place? = some y ∧ x ≤ y
  beq
    | real x, real y => decide (x = y)
    | infinite s, infinite t => s == t
    | _, _ => false
  ofScientific m s e := real (OfScientific.ofScientific m s e)
  decLt _ _ := inferInstance
  decLe _ _ := inferInstance
  ofNat n := real n
  ofInt n := real n
  ofDecimal d := real (d.coefficient * 10 ^ d.exponent)
  infinity := infinite false
  notANumber := undefined
  isNaN
    | undefined => true
    | _ => false
  isInfinite
    | infinite _ => true
    | _ => false
  abs a := if a.place?.any (0 ≤ ·) then a else neg a
  floor := onReals fun x => ⌊x⌋
  ceil := onReals fun x => ⌈x⌉
  roundEven := onReals roundHalfEven
  remainder := onDomain₂ {p | p.2 ≠ 0} fun x y => x - y * truncated (x / y)
  toNat | real x => ⌊x⌋₊ | _ => 0
  exp := onDomain Set.univ Real.exp
  ln := onDomain {x | 0 < x} Real.log
  log2 := onDomain {x | 0 < x} (Real.logb 2)
  log10 := onDomain {x | 0 < x} (Real.logb 10)
  sqrt := onDomain {x | 0 ≤ x} Real.sqrt
  pow := onDomain₂ powers fun x y => x ^ y
  sin := onDomain Set.univ Real.sin
  tan := onDomain {x | Real.cos x ≠ 0} Real.tan
  asin := onDomain (Set.Icc (-1) 1) Real.arcsin
  acos := onDomain (Set.Icc (-1) 1) Real.arccos
  atan := onDomain Set.univ Real.arctan
  atan2 := onDomain₂ Set.univ fun y x => Complex.arg ⟨x, y⟩
  sinh := onDomain Set.univ Real.sinh
  tanh := onDomain Set.univ Real.tanh
  asinh := onDomain Set.univ Real.arsinh
  acosh := onDomain {x | 1 ≤ x} fun x => Real.log (x + Real.sqrt (x ^ 2 - 1))
  text
    | real _ => "a real number"
    | infinite s => if s then "-inf" else "inf"
    | undefined => "NaN"

end

/-! ## Real numbers -/

section

variable (x y : ℝ)

@[simp] theorem real_add : (x : Exact) + (y : Exact) = ((x + y : ℝ) : Exact) := rfl

@[simp] theorem real_neg : -(x : Exact) = ((-x : ℝ) : Exact) := rfl

@[simp] theorem real_sub : (x : Exact) - (y : Exact) = ((x - y : ℝ) : Exact) :=
  congrArg real (sub_eq_add_neg x y).symm

@[simp] theorem real_mul : (x : Exact) * (y : Exact) = ((x * y : ℝ) : Exact) := rfl

theorem real_div {y : ℝ} (hy : y ≠ 0) : (x : Exact) / (y : Exact) = ((x / y : ℝ) : Exact) :=
  if_neg hy

theorem ofNat_eq (n : ℕ) : (Scalar.ofNat n : Exact) = ((n : ℝ) : Exact) := rfl

@[simp] theorem zero_eq : (0 : Exact) = ((0 : ℝ) : Exact) := congrArg real Nat.cast_zero

@[simp] theorem one_eq : (1 : Exact) = ((1 : ℝ) : Exact) := congrArg real Nat.cast_one

@[simp] theorem two_eq : (2 : Exact) = ((2 : ℝ) : Exact) := congrArg real (Nat.cast_ofNat)

@[simp] theorem four_eq : (4 : Exact) = ((4 : ℝ) : Exact) := congrArg real (Nat.cast_ofNat)

@[simp] theorem isNaN_real : Scalar.isNaN (x : Exact) = false := rfl

theorem isNaN_negInfinity : Scalar.isNaN (-Scalar.infinity : Exact) = false := rfl

variable {x y}

/-- A relation of the places of two real numbers is one of the numbers. -/
theorem places_real {r : EReal → EReal → Prop} :
    (∃ u v, (x : Exact).place? = some u ∧ (y : Exact).place? = some v ∧ r u v) ↔
      r (x : EReal) (y : EReal) := by
  constructor
  · rintro ⟨u, v, hu, hv, h⟩
    cases hu
    cases hv
    exact h
  · exact fun h => ⟨x, y, rfl, rfl, h⟩

@[simp] theorem real_le : (x : Exact) ≤ (y : Exact) ↔ x ≤ y :=
  places_real.trans EReal.coe_le_coe_iff

@[simp] theorem real_lt : (x : Exact) < (y : Exact) ↔ x < y :=
  places_real.trans EReal.coe_lt_coe_iff

/-- The infinities are the ends of the order. -/
@[simp] theorem real_le_infinite {negative : Bool} :
    (x : Exact) ≤ infinite negative ↔ negative = false := by
  cases negative with
  | false => exact iff_of_true ⟨x, ⊤, rfl, rfl, le_top⟩ rfl
  | true =>
    refine iff_of_false ?_ Bool.true_eq_false.mp
    rintro ⟨u, v, hu, hv, h⟩
    cases hu
    cases hv
    exact (EReal.bot_lt_coe x).not_ge h

@[simp] theorem real_beq : ((x : Exact) == (y : Exact)) = true ↔ x = y := decide_eq_true_iff

@[simp] theorem maximum_real :
    Scalar.maximum (x : Exact) (y : Exact) = ((max x y : ℝ) : Exact) := by
  unfold Scalar.maximum
  by_cases h : x ≤ y
  · simp [h]
  · simp [h, (not_le.1 h).le]

@[simp] theorem minimum_real :
    Scalar.minimum (x : Exact) (y : Exact) = ((min x y : ℝ) : Exact) := by
  unfold Scalar.minimum
  by_cases h : y ≤ x
  · simp [h]
  · simp [h, (not_le.1 h).le]

@[simp] theorem abs_real : Scalar.abs (x : Exact) = ((|x| : ℝ) : Exact) := by
  have hplace : (x : Exact).place?.any (0 ≤ ·) = decide (0 ≤ x) := by simp [place?]
  have habs : Scalar.abs (x : Exact) = if decide (0 ≤ x) = true then (x : Exact)
      else -(x : Exact) := by
    rw [← hplace]
    rfl
  rw [habs]
  split
  · rename_i h
    rw [abs_of_nonneg (of_decide_eq_true h)]
  · rename_i h
    rw [abs_of_neg (not_le.1 (of_decide_eq_false (Bool.eq_false_of_not_eq_true h))), real_neg]

end

/-! ## The order -/

theorem isNaN_iff {a : Exact} : Scalar.isNaN a = false ↔ ∃ p, a.place? = some p := by
  cases a with
  | real x => simp [place?]
  | infinite s => cases s <;> simp [place?, Scalar.isNaN]
  | undefined => simp [place?, Scalar.isNaN]

theorem beq_iff_place {a b : Exact} :
    (a == b) = true ↔ ∃ p, a.place? = some p ∧ b.place? = some p := by
  cases a with
  | real x => cases b with
    | real y =>
      constructor
      · intro h
        exact ⟨x, rfl, congrArg (fun z : ℝ => some (z : EReal)) (real_beq.1 h).symm⟩
      · rintro ⟨p, hp, hq⟩
        exact real_beq.2 (EReal.coe_injective (Option.some.inj (hp.trans hq.symm)))
    | infinite t => cases t <;> simp [place?, BEq.beq]
    | undefined => simp [place?, BEq.beq]
  | infinite s => cases b with
    | real y => cases s <;> simp [place?, BEq.beq]
    | infinite t => cases s <;> cases t <;> simp [place?, BEq.beq]
    | undefined => cases s <;> simp [place?, BEq.beq]
  | undefined => simp [place?, BEq.beq]

theorem isFinite_iff {a : Exact} : Scalar.isFinite a = true ↔ ∃ x : ℝ, a = x := by
  cases a <;> simp [Scalar.isFinite, Scalar.isNaN, Scalar.isInfinite]

/-- Exact numbers are ordered, the undefined one apart. -/
instance : OrderedNumbers Exact where
  defined_of_le := by
    rintro a b ⟨p, q, hp, hq, -⟩
    exact ⟨isNaN_iff.2 ⟨p, hp⟩, isNaN_iff.2 ⟨q, hq⟩⟩
  le_total := by
    intro a b ha hb
    obtain ⟨p, hp⟩ := isNaN_iff.1 ha
    obtain ⟨q, hq⟩ := isNaN_iff.1 hb
    exact (le_total p q).imp (⟨p, q, hp, hq, ·⟩) (⟨q, p, hq, hp, ·⟩)
  le_trans := by
    rintro a b c ⟨p, q, hp, hq, hpq⟩ ⟨q', r, hq', hr, hqr⟩
    obtain rfl := Option.some.inj (hq.symm.trans hq')
    exact ⟨p, r, hp, hr, hpq.trans hqr⟩
  lt_iff := by
    intro a b
    constructor
    · rintro ⟨p, q, hp, hq, hpq⟩
      refine ⟨⟨p, q, hp, hq, hpq.le⟩, ?_⟩
      rintro ⟨q', p', hq', hp', hle⟩
      obtain rfl := Option.some.inj (hp.symm.trans hp')
      obtain rfl := Option.some.inj (hq.symm.trans hq')
      exact hle.not_gt hpq
    · rintro ⟨⟨p, q, hp, hq, -⟩, hnot⟩
      exact ⟨p, q, hp, hq, lt_of_not_ge fun hle => hnot ⟨q, p, hq, hp, hle⟩⟩
  beq_iff := by
    intro a b
    rw [beq_iff_place]
    constructor
    · rintro ⟨p, ha, hb⟩
      exact ⟨⟨p, p, ha, hb, le_rfl⟩, p, p, hb, ha, le_rfl⟩
    · rintro ⟨⟨p, q, hp, hq, hle⟩, q', p', hq', hp', hge⟩
      obtain rfl := Option.some.inj (hp.symm.trans hp')
      obtain rfl := Option.some.inj (hq.symm.trans hq')
      exact ⟨p, hp, hle.antisymm hge ▸ hq⟩
  zero_le_one := by simp
  negInfinity_lt := by
    intro a h
    obtain ⟨x, rfl⟩ := isFinite_iff.1 h
    exact ⟨⊥, x, rfl, rfl, EReal.bot_lt_coe x⟩
  lt_infinity := by
    intro a h
    obtain ⟨x, rfl⟩ := isFinite_iff.1 h
    exact ⟨x, ⊤, rfl, rfl, EReal.coe_lt_top x⟩

end Exact

end FuzzyInference

namespace FuzzyInference.Exact

/-! ## Divisions by zero -/

open Classical in
/-- Exact scalars where a division by zero gives what `byZero` makes of the
    dividend. -/
noncomputable abbrev dividing (byZero : Exact → Exact) : Scalar Exact :=
  { (inferInstance : Scalar Exact) with div := fun a b => if b = real 0 then byZero a else a / b }

section

variable (byZero : Exact → Exact) (x y : ℝ)

theorem real_div_dividing {y : ℝ} (hy : y ≠ 0) :
    @HDiv.hDiv Exact Exact Exact (@instHDiv Exact (dividing byZero).toDiv) x y =
      ((x / y : ℝ) : Exact) :=
  (if_neg fun h => hy (real.inj h)).trans (real_div x hy)

end

open Classical in
theorem dividing_self : dividing (fun a => a / real 0) = (inferInstance : Scalar Exact) := by
  have hdiv : (fun a b : Exact => if b = real 0 then a / real 0 else a / b) = fun a b => a / b := by
    funext a b
    split_ifs with h
    · rw [h]
    · rfl
  unfold dividing
  rw [hdiv]
  rfl

/-- Whether a computation comes to the same, whatever a division by zero gives:
    nothing in it rests on one. -/
def NoZeroDivision {β : Type} (compute : Scalar Exact → β) : Prop :=
  ∀ byZero, compute (dividing byZero) = compute inferInstance

section

variable {β : Type} (compute : Scalar Exact → β) {y : β}

theorem eq_of_forall_dividing (h : ∀ byZero, compute (dividing byZero) = y) :
    compute inferInstance = y :=
  dividing_self ▸ h fun a => a / real 0

theorem noZeroDivision_of_forall (h : ∀ byZero, compute (dividing byZero) = y) :
    NoZeroDivision compute :=
  fun byZero => (h byZero).trans (eq_of_forall_dividing compute h).symm

end

end FuzzyInference.Exact
