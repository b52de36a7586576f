import FuzzyInference.Implication.Basic
import FuzzyInference.Proofs.Curve.Totality
import FuzzyInference.Proofs.Error.Result

/-!
# How implications fail

An implication is sampled from its curves and reduced to one position. Both fail
on account of numbers only.

Results:

* `Implication.numeric_defuzzify`: how defuzzification fails.
-/

namespace FuzzyInference

variable {α : Type} [Scalar α]

theorem Curve.numeric_evaluate (c : Curve α) (x : α) : Numeric (c.evaluate x) := by
  intro e he
  rcases evaluate_eq_error he with ⟨value, lo, hi, rfl⟩ | ⟨fault, rfl⟩ | rfl <;> trivial

theorem Method.numeric_balancePoint (previous imbalance : α) (samples : List (α × α)) :
    Numeric (balancePoint previous imbalance samples) := by
  induction samples generalizing previous imbalance with
  | nil => exact numeric_error trivial
  | cons s rest ih =>
    rw [balancePoint]
    split
    · exact numeric_ok _
    · split
      · exact numeric_ok _
      · exact ih _ _

theorem Method.numeric_bisectorOf (samples : List (α × α)) : Numeric (bisectorOf samples) := by
  unfold bisectorOf
  dsimp only
  split
  · exact numeric_ok _
  · split
    · exact numeric_ok _
    · exact numeric_bind (numeric_balancePoint _ _ _) fun _ => numeric_ok _

theorem Method.numeric_reduce (m : Method) (positions heights : List α) :
    Numeric (m.reduce positions heights) := by
  cases m with
  | bisector =>
    dsimp only [reduce]
    split
    · exact numeric_ok _
    · exact numeric_bisectorOf _
  | _ =>
    dsimp only [reduce]
    split <;> exact numeric_ok _

namespace Implication

theorem numeric_heightFrom (n height : α) (terms : List (Clipped α)) :
    Numeric (heightFrom n height terms) := by
  induction terms generalizing height with
  | nil => exact numeric_ok _
  | cons t ts ih => exact numeric_bind (t.curve.numeric_evaluate n) fun _ => ih _

theorem numeric_valueAt (i : Implication α) (x : α) : Numeric (i.valueAt x) := by
  rw [valueAt]
  split
  · exact numeric_ok _
  · exact numeric_bind (numeric_heightFrom _ _ _) fun _ => numeric_ok _

theorem numeric_samples (i : Implication α) (count : Nat) : Numeric (i.samples count) := by
  rw [samples]
  split
  · exact numeric_error trivial
  · refine numeric_bind (numeric_mapM fun x _ => numeric_bind (i.numeric_valueAt x) fun v => ?_)
      fun _ => numeric_ok _
    split
    · exact numeric_ok _
    · exact numeric_error trivial

theorem numeric_defuzzify (i : Implication α) (method : Method) (count : Nat) :
    Numeric (i.defuzzify method count) := by
  rw [defuzzify]
  split
  · exact numeric_ok _
  · exact numeric_bind (i.numeric_samples count) fun _ =>
      numeric_bind (method.numeric_reduce _ _) fun _ => numeric_ok _

end Implication

end FuzzyInference
