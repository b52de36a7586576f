import FuzzyInference.Geometry.Point
import FuzzyInference.Proofs.Scalar.Finiteness

/-!
# Numbers that are close to themselves

A number is close to itself if its difference from itself, which is zero for a
finite one, does not exceed the tolerance. The tolerance is a sum of a constant
and a product of sizes, and rounding does not make such a number negative.

Results:

* `CloseNumbers`: the law, which 64-bit numbers have.
* `isNonneg_pack`, `isNonneg_mul`, `isNonneg_add`: what stays without a minus sign.
-/

namespace FuzzyInference

/-- Scalars whose finite numbers are within the tolerance of themselves. -/
class CloseNumbers (α : Type) [Scalar α] : Prop where
  close_self : ∀ a : α, Scalar.isFinite a = true → Point.close a a = true

namespace Binary64

open Float.Model UnpackedFloat

/-- A number that is defined and, unless it is zero, positive. -/
def IsNonneg : UnpackedFloat → Prop
  | .zero _ => True
  | .finite s .. | .infinity s => s = .positive
  | .notANumber => False

/-! ## What has no minus sign -/

theorem isNonneg_packComponents {e : BitVec 11} {m : BitVec 52}
    (h :
      (UnpackedFloat.unpack Format.binary64 (packComponents Format.binary64 .positive e m)).isNaN =
        false) :
    IsNonneg
      (UnpackedFloat.unpack Format.binary64 (packComponents Format.binary64 .positive e m)) := by
  have hsign := unpackSign_packComponents .positive e m
  unfold UnpackedFloat.unpack at h ⊢
  simp only [hsign] at h ⊢
  split_ifs at h ⊢
  · rfl
  · cases h
  · trivial
  · rfl
  · rfl

theorem isNonneg_pack {u : UnpackedFloat} (h : IsNonneg u) :
    IsNonneg (Float.Model.pack u).unpack := by
  have hnan := isNaN_pack u
  cases u with
  | notANumber => cases h
  | infinity s => rwa [unpack_packedInfinity]
  | zero s => rwa [unpack_packedZero]
  | finite s m e hm =>
    obtain rfl : s = .positive := h
    change (UnpackedFloat.unpack _
      (UnpackedFloat.pack Format.binary64 (.finite .positive m e hm))).isNaN = false
      at hnan
    show IsNonneg
        (UnpackedFloat.unpack _ (UnpackedFloat.pack Format.binary64 (.finite .positive m e hm)))
    unfold UnpackedFloat.pack packedInfinity at hnan ⊢
    simp only at hnan ⊢
    split_ifs at hnan ⊢
    · exact isNonneg_packComponents hnan
    · exact isNonneg_packComponents hnan
    · exact isNonneg_packComponents hnan

theorem isNonneg_roundWithAccuracy (m : ℕ) (e : ℤ) (a : Accuracy) :
    IsNonneg (roundWithAccuracy Format.binary64 .positive m e a) := by
  unfold roundWithAccuracy
  simp only
  split
  · trivial
  · rfl

/-- An operation whose results on finite positive left operands have no minus
    sign. -/
theorem isNonneg_operation {f : UnpackedFloat → UnpackedFloat → UnpackedFloat}
    (hinfinity : ∀ m e hm, IsNonneg (f (.finite .positive m e hm) (.infinity .positive)))
    (hzero : ∀ m e hm s, IsNonneg (f (.finite .positive m e hm) (.zero s)))
    (hfinite : ∀ m e hm n i hn,
      IsNonneg (f (.finite .positive m e hm) (.finite .positive n i hn)))
    {u v : UnpackedFloat} (hu : IsNonneg u) (hproper : isProper u = true) (hv : IsNonneg v) :
    IsNonneg (f u v) := by
  cases u with
  | notANumber => cases hproper
  | infinity s => cases hproper
  | zero s => cases hproper
  | finite s m e hm =>
    obtain rfl : s = .positive := hu
    cases v with
    | notANumber => cases hv
    | infinity t =>
      obtain rfl : t = .positive := hv
      exact hinfinity m e hm
    | zero t => exact hzero m e hm t
    | finite t n i hn =>
      obtain rfl : t = .positive := hv
      exact hfinite m e hm n i hn

theorem isNonneg_mul {u v : UnpackedFloat} (hu : IsNonneg u) (hproper : isProper u = true)
    (hv : IsNonneg v) : IsNonneg (UnpackedFloat.mul Format.binary64 u v) :=
  isNonneg_operation (f := UnpackedFloat.mul Format.binary64) (fun _ _ _ => rfl)
    (fun _ _ _ _ => trivial) (fun _ _ _ _ _ _ => isNonneg_roundWithAccuracy _ _ _) hu hproper hv

theorem isNonneg_normalize {m : ℤ} (hm : 0 ≤ m) (e : ℤ) :
    IsNonneg (UnpackedFloat.normalize Format.binary64 m e .positive) := by
  unfold UnpackedFloat.normalize
  split
  · rename_i hlt
    rw [Int.compare_eq_lt] at hlt
    omega
  · trivial
  · exact isNonneg_roundWithAccuracy _ _ _

theorem isNonneg_add {u v : UnpackedFloat} (hu : IsNonneg u) (hproper : isProper u = true)
    (hv : IsNonneg v) : IsNonneg (UnpackedFloat.add Format.binary64 u v) :=
  isNonneg_operation (f := UnpackedFloat.add Format.binary64) (fun _ _ _ => rfl)
    (fun _ _ _ _ => rfl)
    (fun _ _ _ _ _ _ =>
      isNonneg_normalize (Int.add_nonneg (Int.natCast_nonneg _) (Int.natCast_nonneg _)) _)
    hu hproper hv

/-! ## The difference of a number from itself -/

theorem unpack_sub_self {x : Float} (h : Scalar.isFinite x = true) :
    (x - x).toModel.unpack = .zero .positive := by
  have hx : x.toModel.unpack.isNaN = false ∧ x.toModel.unpack.isInf = false :=
    Scalar.isFinite_iff.1 h
  have hsub : UnpackedFloat.sub Format.binary64 x.toModel.unpack x.toModel.unpack =
      .zero .positive := by
    generalize x.toModel.unpack = u at hx
    cases u with
    | notANumber => cases hx.1
    | infinity s => cases hx.2
    | zero s => cases s <;> rfl
    | finite s m e hm =>
      simp only [UnpackedFloat.sub, Int.sub_self, UnpackedFloat.normalize]
      rfl
  show (Float.Model.pack
      (UnpackedFloat.sub Format.binary64 x.toModel.unpack x.toModel.unpack)).unpack = _
  rw [hsub, unpack_packedZero]

theorem le_of_zero {x y : Float} (hx : x.toModel.unpack = .zero .positive)
    (hy : IsNonneg y.toModel.unpack) : x ≤ y := by
  rw [le_iff_compare, hx]
  generalize y.toModel.unpack = v at hy
  cases v with
  | notANumber => cases hy
  | infinity s =>
    obtain rfl : s = .positive := hy
    rfl
  | zero s => rfl
  | finite s m e hm =>
    obtain rfl : s = .positive := hy
    rfl

theorem isNonneg_abs {x : Float} (h : x.isNaN = false) : IsNonneg (Float.abs x).toModel.unpack := by
  have habs : IsNonneg x.toModel.unpack.abs := by
    change x.toModel.unpack.isNaN = false at h
    cases hx : x.toModel.unpack with
    | notANumber =>
      rw [hx] at h
      cases h
    | infinity s => rfl
    | zero s => trivial
    | finite s m e hm => rfl
  exact isNonneg_pack habs

/-- Finite 64-bit numbers are close to themselves. -/
instance : CloseNumbers Float where
  close_self x h := by
    have hnan : x.isNaN = false := Scalar.isNaN_of_isFinite h
    have hdifference : (Float.abs (x - x)).toModel.unpack = .zero .positive := by
      show (Float.Model.pack (x - x).toModel.unpack.abs).unpack = _
      rw [unpack_sub_self h]
      rfl
    have hproduct : IsNonneg ((1e-5 : Float) * Float.abs x).toModel.unpack :=
      isNonneg_pack (isNonneg_mul (by rfl) (by rfl) (isNonneg_abs hnan))
    have htolerance : IsNonneg ((1e-8 : Float) + (1e-5 : Float) * Float.abs x).toModel.unpack :=
      isNonneg_pack (isNonneg_add (by rfl) (by rfl) hproduct)
    exact decide_eq_true (le_of_zero hdifference htolerance)

end Binary64

end FuzzyInference
