import FuzzyInference.Proofs.Defuzzify.SignedZero
import FuzzyInference.Proofs.Error.Result
import FuzzyInference.Proofs.RuleSet.Meaning

/-!
# Implications with their terms in another order

The height of an implication is the largest of its terms' heights, whatever
order they stand in. Which of the two zeros is the largest can depend on the
order; everything that is read off the heights does not show it.

Results:

* `heightFrom_perm`: the height of terms in another order.
* `Rearranged.valueAt`: implications that differ in the order of terms agree at
  every position.
* `Rearranged.defuzzify`: and are reduced to the same value.
-/

namespace FuzzyInference

open Scalar

variable {α : Type} [Scalar α]

/-- The same sentinel, or the same number up to the sign of a zero. -/
def Value.Alike : Value α → Value α → Prop
  | .number a, .number b => Scalar.Alike a b
  | .sentinel s, .sentinel t => s = t
  | _, _ => False

namespace Implication

/-! ## Heights -/

theorem evaluate_of_heightFrom {n height h : α} {ts : List (Clipped α)}
    (hh : heightFrom n height ts = .ok h) {t : Clipped α} (ht : t ∈ ts) :
    ∃ y, t.curve.evaluate n = .ok y := by
  induction ts generalizing height with
  | nil => cases ht
  | cons u us ih =>
    obtain ⟨y, hy, hh⟩ := bind_eq_ok.1 hh
    rcases List.mem_cons.1 ht with rfl | ht
    · exact ⟨y, hy⟩
    · exact ih hh ht

/-- The height of a curve at a position, where it has one. -/
def heightOf (n : α) (c : Curve α) : α :=
  match c.evaluate n with
  | .ok y => y
  | .error _ => 0

theorem heightFrom_perm [OrderedNumbers α] [SignedZeros α] {n height h : α}
    {ts us : List (Clipped α)} (hnumber : isNaN height = false) (hperm : ts.Perm us)
    (hh : heightFrom n height ts = .ok h) :
    ∃ h', heightFrom n height us = .ok h' ∧ Alike h h' := by
  have hvalue : ∀ t ∈ ts, t.curve.evaluate n = .ok (heightOf n t.curve) := by
    intro t ht
    obtain ⟨y, hy⟩ := evaluate_of_heightFrom hh ht
    simp only [heightOf, hy]
  have hts := RuleSet.heightFrom_eq hvalue height
  have hus := RuleSet.heightFrom_eq (fun u hu => hvalue u (hperm.mem_iff.2 hu)) height
  obtain rfl := Except.ok.inj (hh.symm.trans hts)
  exact ⟨_, hus, SignedZeros.alike_of_beq (foldl_maximum_perm hnumber (hperm.map _))⟩

/-! ## Samples -/

/-- The height that is sampled at a position. -/
def sampleAt (i : Implication α) (x : α) : Result α α := do
  match (← i.valueAt x).number? with
  | some y => pure y
  | none => throw (.computation .noDataSampled)

theorem sampleAt_eq_ok {i : Implication α} {x y : α} :
    i.sampleAt x = .ok y ↔ i.valueAt x = .ok (.number y) := by
  unfold sampleAt
  rw [bind_eq_ok]
  constructor
  · rintro ⟨v, hv, h⟩
    cases v with
    | number a =>
      cases h
      exact hv
    | sentinel s => cases h
  · exact fun hv => ⟨_, hv, rfl⟩

/-- Samples are taken on an even grid over the range, all of them where the height
    is a number. -/
theorem samples_eq_ok {i : Implication α} {count : Nat} {xs ys : List α} :
    i.samples count = .ok (xs, ys) ↔ count ≠ 0 ∧ xs = grid i.min i.max (count + 1) ∧
      List.Forall₂ (fun x y => i.valueAt x = .ok (.number y)) xs ys := by
  have hrun : i.samples count = if count = 0 then .error (.argument .noSamples)
      else (grid i.min i.max (count + 1)).mapM i.sampleAt >>= fun ys =>
        .ok (grid i.min i.max (count + 1), ys) := rfl
  rw [hrun]
  split
  · simp_all
  · rename_i hcount
    simp only [bind_eq_ok, mapM_eq_ok, sampleAt_eq_ok, Except.ok.injEq, Prod.mk.injEq]
    constructor
    · rintro ⟨ys, hys, rfl, rfl⟩
      exact ⟨hcount, rfl, hys⟩
    · rintro ⟨-, rfl, hys⟩
      exact ⟨ys, hys, rfl, rfl⟩

/-! ## Implications -/

/-- Two implications over one range, either both missing in the same way, or with
    the same terms in some order. -/
structure Rearranged (i j : Implication α) : Prop where
  min_eq : i.min = j.min
  max_eq : i.max = j.max
  noData_eq : i.noData = j.noData
  terms_perm : i.noData = none → i.terms.Perm j.terms

namespace Rearranged

variable {i j : Implication α}

omit [Scalar α] in
theorem symm (h : Rearranged i j) : Rearranged j i :=
  ⟨h.min_eq.symm, h.max_eq.symm, h.noData_eq.symm,
    fun hj => (h.terms_perm (h.noData_eq.trans hj)).symm⟩

variable [OrderedNumbers α] [SignedZeros α]

theorem valueAt (h : Rearranged i j) {x : α} {u : Value α} (hu : i.valueAt x = .ok u) :
    ∃ v, j.valueAt x = .ok v ∧ u.Alike v := by
  unfold Implication.valueAt at hu ⊢
  rw [← h.noData_eq, ← h.min_eq, ← h.max_eq]
  cases hi : i.noData with
  | some s =>
    rw [hi] at hu
    cases hu
    exact ⟨_, rfl, rfl⟩
  | none =>
    rw [hi] at hu
    obtain ⟨a, ha, hu⟩ := bind_eq_ok.1 hu
    cases hu
    obtain ⟨b, hb, halike⟩ := heightFrom_perm isNaN_zero (h.terms_perm hi) ha
    exact ⟨.number b, bind_eq_ok.2 ⟨b, hb, rfl⟩, halike⟩

theorem sampled (h : Rearranged i j) {xs ys : List α}
    (hys : List.Forall₂ (fun x y => i.valueAt x = .ok (.number y)) xs ys) :
    ∃ zs, List.Forall₂ (fun x z => j.valueAt x = .ok (.number z)) xs zs ∧
      List.Forall₂ Scalar.Alike ys zs := by
  induction hys with
  | nil => exact ⟨[], .nil, .nil⟩
  | cons hy _ ih =>
    obtain ⟨zs, hzs, halike⟩ := ih
    obtain ⟨v, hv, hyv⟩ := h.valueAt hy
    cases v with
    | number z => exact ⟨z :: zs, .cons hv hzs, .cons hyv halike⟩
    | sentinel s => exact hyv.elim

/-- Samples at the same positions, of heights that differ in the signs of zeros at
    most. -/
theorem samples (h : Rearranged i j) {count : Nat} {xs ys : List α}
    (hsamples : i.samples count = .ok (xs, ys)) :
    ∃ zs, j.samples count = .ok (xs, zs) ∧ List.Forall₂ Scalar.Alike ys zs := by
  obtain ⟨hcount, hxs, hys⟩ := samples_eq_ok.1 hsamples
  obtain ⟨zs, hzs, halike⟩ := h.sampled hys
  rw [h.min_eq, h.max_eq] at hxs
  exact ⟨zs, samples_eq_ok.2 ⟨hcount, hxs, hzs⟩, halike⟩

/-- Every method reduces two such implications to the same value. -/
theorem defuzzify (h : Rearranged i j) {method : Method} {count : Nat} {r : Option (Value α)}
    (hr : i.defuzzify method count = .ok r) : j.defuzzify method count = .ok r := by
  unfold Implication.defuzzify at hr ⊢
  rw [← h.noData_eq]
  cases hi : i.noData with
  | some s =>
    rw [hi] at hr
    exact hr
  | none =>
    rw [hi] at hr
    obtain ⟨⟨xs, ys⟩, hsamples, hr⟩ := bind_eq_ok.1 hr
    obtain ⟨zs, hzs, halike⟩ := h.samples hsamples
    refine bind_eq_ok.2 ⟨(xs, zs), hzs, ?_⟩
    dsimp only at hr ⊢
    rwa [← Method.reduce_alike method xs halike]

end Rearranged

end Implication

end FuzzyInference
