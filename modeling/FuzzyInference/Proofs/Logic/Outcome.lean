import FuzzyInference.Logic.Connective
import FuzzyInference.Proofs.Error.Result

/-!
# Results of aggregations

Aggregations fail for unsuitable arguments only. A sum or a product needs two
operands, and a mean of both needs a gamma between zero and one besides, unless gamma
is missing.

Results:

* `AggregateOp.two_le_length` and `AggregateOp.apply_eq_error`: sums and products.
* `gammaMean_eq_ok` and `gammaMean_eq_error`: the mean of both.
-/

namespace FuzzyInference

variable {α : Type} [Scalar α] {vs : List (Value α)} {v : Value α} {e : Error α}

namespace AggregateOp

variable {op : AggregateOp}

theorem two_le_length (h : op.apply vs = .ok v) : 2 ≤ vs.length := by
  unfold apply at h
  split at h
  · cases h
  · omega

theorem apply_eq_error (h : op.apply vs = .error e) : ∃ fault, e = .argument fault := by
  unfold apply at h
  split at h
  · cases h
    exact ⟨_, rfl⟩
  · cases op <;> cases h

/-- What the folds of both operations have, the results of an aggregation have. -/
theorem apply_induction {motive : AggregateOp → Value α → Prop}
    (hproduct : motive .product (productOf vs)) (hsum : motive .sum (sumOf vs))
    (h : op.apply vs = .ok v) : motive op v := by
  unfold apply at h
  split at h
  · cases h
  · cases op with
    | product =>
      cases h
      exact hproduct
    | sum =>
      cases h
      exact hsum

end AggregateOp

variable {gamma : Value α} {g : α}

theorem gammaMean_of_missing (h : gamma.resolve = none) (vs : List (Value α)) :
    gammaMean gamma vs = .ok gamma := by
  rw [gammaMean, h]

theorem gammaMean_eq (hgamma : gamma.resolve = some g) (hg : 0 ≤ g ∧ g ≤ 1) {sum product : Value α}
    (hsum : AggregateOp.sum.apply vs = .ok sum)
    (hproduct : AggregateOp.product.apply vs = .ok product) :
    gammaMean gamma vs = .ok (sum.pow (.number g) * product.pow (.number (1 - g))) := by
  have hlength : ¬ vs.length < 2 := Nat.not_lt.2 (AggregateOp.two_le_length hsum)
  rw [gammaMean, hgamma]
  simp only [if_neg hlength, if_pos hg, hsum, hproduct]
  rfl

/-- A mean is a missing gamma, or it is made of a sum and a product. -/
theorem gammaMean_eq_ok : gammaMean gamma vs = .ok v ↔ (gamma.resolve = none ∧ v = gamma) ∨
    ∃ g sum product, gamma.resolve = some g ∧ (0 ≤ g ∧ g ≤ 1) ∧ AggregateOp.sum.apply vs = .ok sum ∧
      AggregateOp.product.apply vs = .ok product ∧
      v = sum.pow (.number g) * product.pow (.number (1 - g)) := by
  constructor
  · intro h
    unfold gammaMean at h
    split at h
    · rename_i hnone
      cases h
      exact .inl ⟨hnone, rfl⟩
    · rename_i g hgamma
      split_ifs at h with hlength hg
      obtain ⟨sum, hsum, h⟩ := bind_eq_ok.1 h
      obtain ⟨product, hproduct, h⟩ := bind_eq_ok.1 h
      cases h
      exact .inr ⟨g, sum, product, hgamma, hg, hsum, hproduct, rfl⟩
  · rintro (⟨hnone, rfl⟩ | ⟨g, sum, product, hgamma, hg, hsum, hproduct, rfl⟩)
    · exact gammaMean_of_missing hnone vs
    · exact gammaMean_eq hgamma hg hsum hproduct

/-- A gamma between zero and one with two operands has a mean. -/
theorem exists_gammaMean (hgamma : gamma.resolve = some g) (hg : 0 ≤ g ∧ g ≤ 1)
    (hvs : 2 ≤ vs.length) : ∃ v, gammaMean gamma vs = .ok v := by
  obtain ⟨sum, hsum⟩ := AggregateOp.apply_eq_ok .sum hvs
  obtain ⟨product, hproduct⟩ := AggregateOp.apply_eq_ok .product hvs
  exact ⟨_, gammaMean_eq hgamma hg hsum hproduct⟩

theorem gammaMean_eq_error (h : gammaMean gamma vs = .error e) : ∃ fault, e = .argument fault := by
  unfold gammaMean at h
  split at h
  · cases h
  · split_ifs at h
    · cases h
      exact ⟨_, rfl⟩
    · rcases bind_eq_error.1 h with hsum | ⟨sum, -, h⟩
      · exact AggregateOp.apply_eq_error hsum
      · rcases bind_eq_error.1 h with hproduct | ⟨product, -, h⟩
        · exact AggregateOp.apply_eq_error hproduct
        · cases h
    · cases h
      exact ⟨_, rfl⟩

end FuzzyInference
