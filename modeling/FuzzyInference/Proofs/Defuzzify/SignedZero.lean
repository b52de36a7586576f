import FuzzyInference.Defuzzify
import FuzzyInference.Proofs.Scalar.SignedZero

/-!
# Methods do not show the sign of a zero

Two samplings at the same positions, whose heights differ in the signs of zeros
at most, are reduced to the same position by every method. Sums of heights start
from a zero that absorbs the other one, and the comparisons of heights do not
tell zeros apart.

Results:

* `prefixSums_alike` and `momentum_alike`: running sums, areas and moments are
  the same.
* `reduce_alike`: so is the position that a method finds.
-/

namespace FuzzyInference.Method

open Scalar SignedZeros

variable {α : Type} [Scalar α]

/-- Samples at one position, with the same height up to the sign of a zero. -/
def AlikeSamples (p q : α × α) : Prop := p.1 = q.1 ∧ Alike p.2 q.2

theorem alikeSamples_zip {ys zs : List α} (h : List.Forall₂ Alike ys zs) (xs : List α) :
    List.Forall₂ AlikeSamples (xs.zip ys) (xs.zip zs) := by
  induction h generalizing xs with
  | nil => cases xs <;> exact .nil
  | cons hy _ ih =>
    cases xs with
    | nil => exact .nil
    | cons x xs => exact .cons ⟨rfl, hy⟩ (ih xs)

theorem map_fst_alike {ps qs : List (α × α)} (h : List.Forall₂ AlikeSamples ps qs) :
    ps.map (·.1) = qs.map (·.1) := by
  induction h with
  | nil => rfl
  | cons hp _ ih => rw [List.map_cons, List.map_cons, hp.1, ih]

theorem map_snd_alike {ps qs : List (α × α)} (h : List.Forall₂ AlikeSamples ps qs) :
    List.Forall₂ Alike (ps.map (·.2)) (qs.map (·.2)) := by
  induction h with
  | nil => exact .nil
  | cons hp _ ih => exact .cons hp.2 ih

/-! ## Sums -/

section

variable [SignedZeros α]

theorem foldl_add_alike {ys zs : List α} (h : List.Forall₂ Alike ys zs) {acc : α}
    (hacc : Absorbs acc) : ys.foldl (· + ·) acc = zs.foldl (· + ·) acc := by
  induction h generalizing acc with
  | nil => rfl
  | cons hy _ ih =>
    rw [List.foldl_cons, List.foldl_cons, add_alike hacc hy]
    exact ih (absorbs_add hacc _)

theorem prefixSums_alike {ys zs : List α} (h : List.Forall₂ Alike ys zs) {acc : α}
    (hacc : Absorbs acc) : prefixSums acc ys = prefixSums acc zs := by
  induction h generalizing acc with
  | nil => rfl
  | cons hy _ ih =>
    rw [prefixSums, prefixSums, add_alike hacc hy, ih (absorbs_add hacc _)]

theorem imbalances_alike {ys zs : List α} (h : List.Forall₂ Alike ys zs) :
    imbalances ys = imbalances zs := by
  unfold imbalances
  rw [prefixSums_alike h absorbs_zero, prefixSums_alike (List.rel_reverse h) absorbs_zero]

/-- Area and moment after one more sample. -/
def addSample (n : Nat) (total : α × α) (sample : (α × α) × Nat) : α × α :=
  (total.1 + weight n sample.2 * sample.1.2, total.2 + weight n sample.2 * sample.1.1 * sample.1.2)

omit [SignedZeros α] in
theorem momentum_eq_foldl (n : Nat) (samples : List ((α × α) × Nat)) :
    momentum n samples = samples.foldl (addSample n) (0, 0) := rfl

/-- Area and moment of both samplings grow by the same amounts. -/
theorem foldl_addSample_alike {ps qs : List (α × α)}
    (h : List.Forall₂ AlikeSamples ps qs) (n k : Nat) {area moment : α} (harea : Absorbs area)
    (hmoment : Absorbs moment) :
    (ps.zipIdx k).foldl (addSample n) (area, moment) =
      (qs.zipIdx k).foldl (addSample n) (area, moment) := by
  induction h generalizing k area moment with
  | nil => rfl
  | @cons p q ps qs hp _ ih =>
    have hstep : addSample n (area, moment) (p, k) = addSample n (area, moment) (q, k) := by
      unfold addSample
      rw [hp.1, add_alike harea (mul_alike hp.2 _), add_alike hmoment (mul_alike hp.2 _)]
    rw [List.zipIdx_cons, List.zipIdx_cons, List.foldl_cons, List.foldl_cons, hstep]
    exact ih (k + 1) (absorbs_add harea _) (absorbs_add hmoment _)

theorem momentum_alike {ps qs : List (α × α)} (h : List.Forall₂ AlikeSamples ps qs) (n : Nat) :
    momentum n ps.zipIdx = momentum n qs.zipIdx := by
  rw [momentum_eq_foldl, momentum_eq_foldl]
  exact foldl_addSample_alike h n 0 absorbs_zero absorbs_zero

theorem centroidOf_alike {ps qs : List (α × α)} (h : List.Forall₂ AlikeSamples ps qs) :
    centroidOf ps = centroidOf qs := by
  unfold centroidOf
  rw [h.length_eq, momentum_alike h]

theorem bisectorOf_alike {ps qs : List (α × α)} (h : List.Forall₂ AlikeSamples ps qs) :
    bisectorOf ps = bisectorOf qs := by
  have hheights := map_snd_alike h
  unfold bisectorOf
  dsimp only
  rw [foldl_add_alike hheights absorbs_zero, imbalances_alike hheights, map_fst_alike h]
  cases h with
  | nil => rfl
  | @cons p q ps qs hp _ =>
    obtain ⟨x, y⟩ := p
    obtain ⟨x', z⟩ := q
    obtain rfl : x = x' := hp.1
    rfl

end

/-! ## Maxima -/

section

variable [OrderedNumbers α]

theorem top_alike {ps qs : List (α × α)} (h : List.Forall₂ AlikeSamples ps qs) {m m' : α}
    (hm : Alike m m') :
    Alike (ps.foldl (fun m s => maximum m s.2) m) (qs.foldl (fun m s => maximum m s.2) m') := by
  induction h generalizing m m' with
  | nil => exact hm
  | cons hp _ ih => exact ih (hm.maximum hp.2)

theorem positions_alike {ps qs : List (α × α)} (h : List.Forall₂ AlikeSamples ps qs) {m m' : α}
    (hm : Alike m m') :
    (ps.filter fun s => s.2 == m).map (·.1) = (qs.filter fun s => s.2 == m').map (·.1) := by
  induction h with
  | nil => rfl
  | @cons p q ps qs hp _ ih =>
    rw [List.filter_cons, List.filter_cons, hp.2.beq_eq hm]
    split
    · rw [List.map_cons, List.map_cons, hp.1, ih]
    · exact ih

theorem maximal_alike {ps qs : List (α × α)} (h : List.Forall₂ AlikeSamples ps qs) :
    maximal ps = maximal qs := positions_alike h (top_alike h (.refl _))

end

/-- Every method finds the same position, whatever the signs of the zeros among the
    heights. -/
theorem reduce_alike [OrderedNumbers α] [SignedZeros α] (method : Method) (xs : List α)
    {ys zs : List α} (h : List.Forall₂ Alike ys zs) :
    method.reduce xs ys = method.reduce xs zs := by
  have hsamples := alikeSamples_zip h xs
  unfold reduce
  have hempty : (xs.zip ys).isEmpty = (xs.zip zs).isEmpty := by
    rw [Bool.eq_iff_iff, List.isEmpty_iff_length_eq_zero, List.isEmpty_iff_length_eq_zero,
      hsamples.length_eq]
  dsimp only
  rw [hempty, centroidOf_alike hsamples, bisectorOf_alike hsamples, maximal_alike hsamples]

end FuzzyInference.Method
