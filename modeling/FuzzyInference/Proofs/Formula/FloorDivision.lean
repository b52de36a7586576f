import FuzzyInference.Formula.Evaluate
import FuzzyInference.Formula.Parse
import FuzzyInference.Proofs.Scalar.Exact

/-!
# Division with a remainder

Whole division rounds the quotient down, whereas the remainder is taken from a division
that is truncated towards zero: where it has not the sign of the divisor, the divisor
is added to it. Truncation rounds a negative quotient up, to one more than rounding it
down unless the quotient is whole, and then nothing remains. So both belong together,
and what remains is the fraction of the quotient in divisors.

Results:

* `remainderOf_real`: the remainder by the fraction of the quotient.
* `floor_mul_add_fract`, `abs_mul_fract_lt`, `sign_mul_fract`: the laws of this
  remainder.
* `evaluate_division_law`: quotient and remainder of two numbers in formulas.
-/

namespace FuzzyInference

open Exact

/-! ## Remainders -/

section

variable {a b : ℝ}

/-- Truncation takes the fraction away from a number, or one less where it rounds
    up. -/
theorem sub_truncated_cases (d : ℝ) :
    d - truncated d = Int.fract d ∨ d - truncated d = Int.fract d - 1 := by
  unfold truncated
  rcases lt_or_ge d 0 with hneg | hnonneg
  · rw [if_pos hneg]
    by_cases hwhole : Int.fract d = 0
    · obtain ⟨n, rfl⟩ := Int.fract_eq_zero_iff.1 hwhole
      exact .inl (by simp)
    · rw [Int.ceil_eq_add_one_sub_fract hwhole]
      exact .inr (by ring)
  · rw [if_neg hnonneg.not_gt]
    exact .inl (Int.self_sub_floor d)

theorem remainder_real (a : ℝ) (hb : b ≠ 0) :
    Scalar.remainder (a : Exact) (b : Exact) = ((b * (a / b - truncated (a / b)) : ℝ) : Exact) := by
  have hsplit : b * (a / b - truncated (a / b)) = a - b * truncated (a / b) := by
    field_simp
  rw [hsplit]
  exact if_pos hb

/-- A remainder on the side of the divisor is kept. -/
theorem remainderOf_of_nonneg {s : ℝ}
    (h : Scalar.remainder (a : Exact) (b : Exact) = ((b * s : ℝ) : Exact)) (hs : 0 ≤ s) :
    Operator.remainderOf (a : Exact) (b : Exact) = ((b * s : ℝ) : Exact) := by
  unfold Operator.remainderOf
  simp only [h, zero_eq, real_beq, real_lt, decide_eq_decide]
  rcases hs.eq_or_lt with rfl | hpos
  · rw [if_pos (mul_zero b)]
  · have hsign : b * s < 0 ↔ b < 0 := by constructor <;> intro hneg <;> nlinarith
    rw [if_pos hsign, ite_self]

/-- A remainder on the other side is brought back by one divisor. -/
theorem remainderOf_of_neg {s : ℝ}
    (h : Scalar.remainder (a : Exact) (b : Exact) = ((b * s : ℝ) : Exact)) (hb : b ≠ 0)
    (hs : s < 0) :
    Operator.remainderOf (a : Exact) (b : Exact) = ((b * (s + 1) : ℝ) : Exact) := by
  have hsign : ¬ (b * s < 0 ↔ b < 0) := by
    rcases hb.lt_or_gt with hneg | hpos
    · exact fun hsame => (hsame.2 hneg).not_gt (mul_pos_of_neg_of_neg hneg hs)
    · exact fun hsame => (hsame.1 (mul_neg_of_pos_of_neg hpos hs)).not_gt hpos
  unfold Operator.remainderOf
  simp only [h, zero_eq, real_beq, real_lt, decide_eq_decide, real_add]
  rw [if_neg (mul_ne_zero hb hs.ne), if_neg hsign, mul_add, mul_one]

/-- The corrected remainder is the fraction of the quotient, in divisors. -/
theorem remainderOf_real (a : ℝ) (hb : b ≠ 0) :
    Operator.remainderOf (a : Exact) (b : Exact) = ((b * Int.fract (a / b) : ℝ) : Exact) := by
  have hremainder := remainder_real a hb
  rcases sub_truncated_cases (a / b) with h | h <;> rw [h] at hremainder
  · exact remainderOf_of_nonneg hremainder (Int.fract_nonneg _)
  · rw [remainderOf_of_neg hremainder hb (sub_neg.2 (Int.fract_lt_one _)), sub_add_cancel]

/-! ## The division law -/

theorem floor_mul_add_fract (a : ℝ) (hb : b ≠ 0) : a = ⌊a / b⌋ * b + b * Int.fract (a / b) := by
  have hquotient := Int.floor_add_fract (a / b)
  calc a = (⌊a / b⌋ + Int.fract (a / b)) * b := by rw [hquotient, div_mul_cancel₀ _ hb]
    _ = ⌊a / b⌋ * b + b * Int.fract (a / b) := by ring

theorem abs_mul_fract_lt (d : ℝ) (hb : b ≠ 0) : |b * Int.fract d| < |b| := by
  rw [abs_mul, Int.abs_fract]
  exact mul_lt_of_lt_one_right (abs_pos.2 hb) (Int.fract_lt_one d)

theorem sign_mul_fract (b d : ℝ) :
    b * Int.fract d = 0 ∨ SignType.sign (b * Int.fract d) = SignType.sign b := by
  rcases (Int.fract_nonneg d).eq_or_lt with h | h
  · exact .inl (by rw [← h, mul_zero])
  · exact .inr (by rw [sign_mul, sign_pos h, mul_one])

end

/-! ## Formulas -/

theorem checked_real (fault : ArithmeticFault) (operands : List Exact) (x : ℝ) :
    checked fault operands (x : Exact) = .ok (x : Exact) :=
  if_neg Bool.false_ne_true

namespace Formula

variable {env : String → Option (Value Exact)} {f g : Formula Exact} {a b : ℝ}

theorem evaluate_binary_number (op : Operator) (hf : f.evaluate env = .ok (.number a))
    (hg : g.evaluate env = .ok (.number b)) :
    (binary op f g).evaluate env = Value.number <$> op.apply (a : Exact) (b : Exact) := by
  rw [evaluate, hf, hg]
  rfl

/-- Over exact scalars two operands with numbers are divided with a remainder: the
    quotient is a whole number, quotient times divisor and remainder make up the
    dividend, and the remainder is smaller than the divisor and has its sign.
    Division by zero is an error for both. -/
theorem evaluate_division_law (hf : f.evaluate env = .ok (.number a))
    (hg : g.evaluate env = .ok (.number b)) :
    (b ≠ 0 → ∃ (q : ℤ) (r : ℝ),
      (binary .floorDivide f g).evaluate env = .ok (.number ((q : ℝ) : Exact)) ∧
      (binary .remainder f g).evaluate env = .ok (.number (r : Exact)) ∧
      a = q * b + r ∧ |r| < |b| ∧ (r = 0 ∨ SignType.sign r = SignType.sign b)) ∧
    (b = 0 →
      (binary .floorDivide f g).evaluate env = .error (.arithmetic .floorDivisionByZero) ∧
      (binary .remainder f g).evaluate env = .error (.arithmetic .moduloByZero)) := by
  rw [evaluate_binary_number _ hf hg, evaluate_binary_number _ hf hg]
  unfold Operator.apply
  simp only [zero_eq, real_beq]
  refine ⟨fun hb => ?_, fun hb => ?_⟩
  · refine ⟨⌊a / b⌋, b * Int.fract (a / b), ?_, ?_, floor_mul_add_fract a hb, abs_mul_fract_lt _ hb,
      sign_mul_fract b _⟩
    · rw [if_neg hb, real_div a hb]
      exact congrArg _ (checked_real ..)
    · rw [if_neg hb, remainderOf_real a hb, checked_real]
      rfl
  · rw [if_pos hb, if_pos hb]
    exact ⟨rfl, rfl⟩

/-- One number under the name `a` and another one under all names else. -/
def oneAndOther (a b : ℝ) : String → Option (Value Exact) :=
  fun n => some (.number (if n = "a" then a else b : Exact))

/-- Minus seven by three is minus three, and two remain. -/
theorem evaluate_minus_seven_by_three : ∃ f g : Formula Exact,
    parse "a // b" = .ok (.binary .floorDivide f g) ∧ parse "a % b" = .ok (.binary .remainder f g) ∧
    f.evaluate (oneAndOther (-7) 3) = .ok (.number (.real (-7))) ∧
    g.evaluate (oneAndOther (-7) 3) = .ok (.number (.real 3)) ∧
    (binary .floorDivide f g).evaluate (oneAndOther (-7) 3) = .ok (.number (.real (-3))) ∧
    (binary .remainder f g).evaluate (oneAndOther (-7) 3) = .ok (.number (.real 2)) := by
  have hquotient : (parse "a // b" : Except _ (Formula Exact)) =
      .ok (.binary .floorDivide (.name "a") (.name "b")) := by cbv
  have hremainder : (parse "a % b" : Except _ (Formula Exact)) =
      .ok (.binary .remainder (.name "a") (.name "b")) := by cbv
  have ha : (Formula.name "a").evaluate (oneAndOther (-7) 3) = .ok (.number (.real (-7))) := by
    simp [evaluate, oneAndOther]
  have hb : (Formula.name "b").evaluate (oneAndOther (-7) 3) = .ok (.number (.real 3)) := by
    simp [evaluate, oneAndOther]
  obtain ⟨q, r, hq, hr, hsum, hsmall, hsign⟩ := (evaluate_division_law ha hb).1 three_ne_zero
  have hnonneg : 0 ≤ r := by
    rcases hsign with h | h
    · exact h.ge
    · rw [sign_pos three_pos] at h
      exact (sign_eq_one_iff.1 h).le
  have hless : r < 3 := by rwa [abs_of_nonneg hnonneg, abs_of_pos three_pos] at hsmall
  have hlow : (-4 : ℝ) < q := by linarith
  have hhigh : (q : ℝ) < -2 := by linarith
  have hwhole : q = -3 := by
    have hlow' : -4 < q := by exact_mod_cast hlow
    have hhigh' : q < -2 := by exact_mod_cast hhigh
    omega
  have hrest : r = 2 := by
    rw [hwhole] at hsum
    push_cast at hsum
    linarith
  refine ⟨_, _, hquotient, hremainder, ha, hb, ?_, ?_⟩
  · rw [hq, hwhole]
    push_cast
    rfl
  · rw [hr, hrest]

end Formula

end FuzzyInference
