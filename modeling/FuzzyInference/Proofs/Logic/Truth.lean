import FuzzyInference.Proofs.Logic.Gamma
import FuzzyInference.Proofs.Value.Holds
import FuzzyInference.Rule.Expr

/-!
# Operators on truths

Choices, complements and products make truths of truths, that is of numbers between
zero and one. Of powers this is assumed. An operand that is missing gives way, which
leaves a truth, or is handed on.

A gamma that is a truth is never out of range. So two things are kept by every
operator at once: that a result is a truth if it is a number, and that it is not
missing because of a gamma out of range.

Results:

* `TruthNumbers`: the laws of complements and products, which exact numbers have.
* `Keeps.bind` and `keeps_mapM`: results that are computed in steps.
* `keeps_apply`: the functions of conditions.
* `Exact.isTruth_iff` and `Exact.isTruth_pow`: exact truths and their powers.
-/

namespace FuzzyInference

open OrderedNumbers Scalar

variable {α β γ : Type}

/-! ## Results -/

/-- The result of a computation has a property if there is one, and if there is
    none, that is not because of a gamma out of range. -/
structure Keeps (P : β → Prop) (r : Result α β) : Prop where
  of_ok : ∀ b, r = .ok b → P b
  in_range : r ≠ .error (.argument .gammaOutOfRange)

section

variable {P : β → Prop} {Q : γ → Prop}

theorem keeps_ok {b : β} (h : P b) : Keeps P (.ok b : Result α β) where
  of_ok _ hb := Except.ok.inj hb ▸ h
  in_range he := by cases he

theorem keeps_error {e : Error α} (h : e ≠ .argument .gammaOutOfRange) :
    Keeps P (.error e : Result α β) where
  of_ok _ hb := by cases hb
  in_range he := h (Except.error.inj he)

theorem Keeps.bind {r : Result α β} {f : β → Result α γ} (hr : Keeps P r)
    (hf : ∀ b, P b → Keeps Q (f b)) :
    Keeps Q (r >>= f) where
  of_ok c hc := by
    obtain ⟨b, hb, hc⟩ := bind_eq_ok.1 hc
    exact (hf b (hr.of_ok b hb)).of_ok c hc
  in_range he := by
    rcases bind_eq_error.1 he with he | ⟨b, hb, he⟩
    · exact hr.in_range he
    · exact (hf b (hr.of_ok b hb)).in_range he

theorem keeps_mapM {f : γ → Result α β} {xs : List γ} (h : ∀ x ∈ xs, Keeps P (f x)) :
    Keeps (fun ys : List β => ∀ y ∈ ys, P y) (xs.mapM f) where
  of_ok ys hys y hy := by
    obtain ⟨x, hx, hxy⟩ := mem_of_mapM_eq_ok hys hy
    exact (h x hx).of_ok y hxy
  in_range he := by
    obtain ⟨x, hx, he⟩ := mapM_eq_error he
    exact (h x hx).in_range he

end

/-! ## Operators -/

variable [Scalar α]

/-- A number between zero and one. -/
def Scalar.IsTruth (a : α) : Prop := 0 ≤ a ∧ a ≤ 1

/-- Scalars whose truths have truths for complements and products. -/
class TruthNumbers (α : Type) [Scalar α] : Prop where
  one_sub : ∀ {a : α}, IsTruth a → IsTruth (1 - a)
  mul : ∀ {a b : α}, IsTruth a → IsTruth b → IsTruth (a * b)

theorem isTruth_zero [OrderedNumbers α] : IsTruth (0 : α) :=
  ⟨le_self isNaN_zero, OrderedNumbers.zero_le_one⟩

theorem isTruth_one [OrderedNumbers α] : IsTruth (1 : α) :=
  ⟨OrderedNumbers.zero_le_one, le_self isNaN_one⟩

section

variable [TruthNumbers α] {u v : Value α} {vs : List (Value α)}

theorem holds_negate (hv : v.Holds IsTruth) : (negate v).Holds IsTruth :=
  Value.holds_map (fun _ => TruthNumbers.one_sub) hv

theorem holds_logic (op : LogicOp) (hu : u.Holds IsTruth) (hv : v.Holds IsTruth) :
    (op.apply u v).Holds IsTruth := by
  cases op with
  | and => exact Value.holds_both hu hv
  | or => exact Value.holds_either hu hv
  | xor => exact Value.holds_both (holds_negate (Value.holds_both hu hv)) (Value.holds_either hu hv)

variable [OrderedNumbers α]

theorem holds_one_sub (hv : v.Holds IsTruth) : (.number 1 - v).Holds IsTruth := by
  have hcomplement : .number 1 - v = Value.binary (fun _ a => 1 - a) (.number 1) v := by
    rcases v with a | ⟨_ | _, _ | k⟩ <;> rfl
  rw [hcomplement]
  exact Value.holds_binary (fun _ _ _ => TruthNumbers.one_sub) (Value.holds_number.2 isTruth_one) hv

theorem holds_productOf (hvs : ∀ v ∈ vs, v.Holds IsTruth) :
    (AggregateOp.productOf vs).Holds IsTruth := by
  refine List.foldlRecOn vs (· * ·) (Value.holds_number.2 isTruth_one) fun u hu v hv => ?_
  exact Value.holds_binary (fun _ _ => TruthNumbers.mul) hu (hvs v hv)

theorem holds_sumOf (hvs : ∀ v ∈ vs, v.Holds IsTruth) : (AggregateOp.sumOf vs).Holds IsTruth := by
  refine holds_one_sub (holds_productOf fun u hu => ?_)
  obtain ⟨v, hv, rfl⟩ := List.mem_map.1 hu
  exact holds_one_sub (hvs v hv)

theorem keeps_aggregate (op : AggregateOp) (hvs : ∀ v ∈ vs, v.Holds IsTruth) :
    Keeps (Value.Holds IsTruth) (op.apply vs) := by
  unfold AggregateOp.apply
  split
  · exact keeps_error (by simp)
  · cases op with
    | product => exact keeps_ok (holds_productOf hvs)
    | sum => exact keeps_ok (holds_sumOf hvs)

variable (hpow : ∀ x y : α, IsTruth x → IsTruth y → IsTruth (Scalar.pow x y))
include hpow

/-- A gamma that is a truth is in range, and so is its complement. -/
theorem keeps_gammaMean {gamma : Value α} (hgamma : gamma.Holds IsTruth)
    (hvs : ∀ v ∈ vs, v.Holds IsTruth) : Keeps (Value.Holds IsTruth) (gammaMean gamma vs) := by
  cases hg : gamma.resolve with
  | none =>
    rw [gammaMean_of_missing hg]
    exact keeps_ok hgamma
  | some g =>
    have htruth : IsTruth g := hgamma g hg
    rcases Nat.lt_or_ge vs.length 2 with hshort | hlength
    · rw [gammaMean, hg]
      simp only [if_pos hshort]
      exact keeps_error (by simp)
    · obtain ⟨sum, hsum⟩ := AggregateOp.apply_eq_ok .sum hlength
      obtain ⟨product, hproduct⟩ := AggregateOp.apply_eq_ok .product hlength
      have hleft : (sum.pow (.number g)).Holds IsTruth :=
        Value.holds_binary hpow ((keeps_aggregate .sum hvs).of_ok sum hsum)
          (Value.holds_number.2 htruth)
      have hright : (product.pow (.number (1 - g))).Holds IsTruth :=
        Value.holds_binary hpow ((keeps_aggregate .product hvs).of_ok product hproduct)
          (Value.holds_number.2 (TruthNumbers.one_sub htruth))
      rw [gammaMean_eq hg htruth hsum hproduct]
      exact keeps_ok (Value.holds_binary (fun _ _ => TruthNumbers.mul) hleft hright)

theorem keeps_apply (f : RuleFunction) (hvs : ∀ v ∈ vs, v.Holds IsTruth) :
    Keeps (Value.Holds IsTruth) (f.apply vs) := by
  cases f with
  | sum => exact keeps_aggregate .sum hvs
  | product => exact keeps_aggregate .product hvs
  | gamma =>
    cases vs with
    | nil => exact keeps_error (by simp)
    | cons gamma operands =>
      rw [List.forall_mem_cons] at hvs
      exact keeps_gammaMean hpow hvs.1 hvs.2

end

/-! ## Exact arithmetic -/

namespace Exact

theorem isTruth_iff {a : Exact} : IsTruth a ↔ ∃ x ∈ Set.Icc (0 : ℝ) 1, a = x := by
  constructor
  · rintro ⟨hlow, hhigh⟩
    have hfinite : Scalar.isFinite a = true := by
      cases a with
      | real x => rfl
      | infinite s =>
        rw [zero_eq, real_le_infinite] at hlow
        rw [hlow] at hhigh
        exact absurd hhigh (lt_iff.1 (OrderedNumbers.lt_infinity (a := (1 : Exact)) rfl)).2
      | undefined => cases (defined_of_le hlow).2
    obtain ⟨x, rfl⟩ := isFinite_iff.1 hfinite
    rw [zero_eq, real_le] at hlow
    rw [one_eq, real_le] at hhigh
    exact ⟨x, ⟨hlow, hhigh⟩, rfl⟩
  · rintro ⟨x, ⟨hlow, hhigh⟩, rfl⟩
    exact ⟨by rwa [zero_eq, real_le], by rwa [one_eq, real_le]⟩

instance : TruthNumbers Exact where
  one_sub h := by
    obtain ⟨x, hx, rfl⟩ := isTruth_iff.1 h
    rw [one_eq, real_sub]
    exact isTruth_iff.2 ⟨1 - x, Set.Icc.one_sub_mem hx, rfl⟩
  mul ha hb := by
    obtain ⟨x, hx, rfl⟩ := isTruth_iff.1 ha
    obtain ⟨y, hy, rfl⟩ := isTruth_iff.1 hb
    exact isTruth_iff.2 ⟨x * y, unitInterval.mul_mem hx hy, rfl⟩

theorem isTruth_pow {a b : Exact} (ha : IsTruth a) (hb : IsTruth b) : IsTruth (Scalar.pow a b) := by
  obtain ⟨x, hx, rfl⟩ := isTruth_iff.1 ha
  obtain ⟨y, hy, rfl⟩ := isTruth_iff.1 hb
  have hpower : (x, y) ∈ powers := by
    rcases hx.1.lt_or_eq with h | h
    · exact .inl h
    · exact .inr (.inl ⟨h.symm, hy.1⟩)
  rw [pow_real hpower]
  exact isTruth_iff.2 ⟨x ^ y, ⟨Real.rpow_nonneg hx.1 y, Real.rpow_le_one hx.1 hx.2 hy.1⟩, rfl⟩

end Exact

end FuzzyInference
