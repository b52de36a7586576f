import FuzzyInference.Proofs.Scalar.SignedZero

/-!
# Numbers that are defined and finite

Which numbers are undefined or infinite without any computation going wrong: a
sign changes neither, a written number may overflow but is never undefined, and
of the constants only infinity is infinite. A literal has no sign, and neither
has the number that it is rounded to: the products and quotients that a decimal
is made of multiply signs, and rounding keeps them.

Packing a 64-bit result can overflow to infinity. It cannot make a result
undefined, so only the operation itself can, on operands that leave its value
open: infinity against zero, or infinity against infinity.

Results:

* `FiniteNumbers`: the laws, which 64-bit numbers have.
* `isNaN_pack`: packing keeps what is undefined.
* `isUnsigned_toFloat`: a decimal number is defined and has no sign.
-/

namespace FuzzyInference

/-- Scalars whose signs, written numbers and constants are as finite as they
    look. -/
class FiniteNumbers (α : Type) [Scalar α] : Prop where
  isNaN_neg : ∀ a : α, Scalar.isNaN (-a) = Scalar.isNaN a
  isInfinite_neg : ∀ a : α, Scalar.isInfinite (-a) = Scalar.isInfinite a
  isNaN_ofDecimal : ∀ d, Scalar.isNaN (Scalar.ofDecimal d : α) = false
  isNaN_infinity : Scalar.isNaN (Scalar.infinity : α) = false
  isFinite_e : Scalar.isFinite (Scalar.e : α) = true
  isFinite_pi : Scalar.isFinite (Scalar.pi : α) = true

theorem Scalar.isFinite_iff {α : Type} [Scalar α] {x : α} :
    isFinite x = true ↔ isNaN x = false ∧ isInfinite x = false := by
  rw [isFinite, Bool.and_eq_true, Bool.not_eq_true', Bool.not_eq_true']

theorem Scalar.isNaN_of_isFinite {α : Type} [Scalar α] {x : α} (h : isFinite x = true) :
    isNaN x = false :=
  (isFinite_iff.1 h).1

/-! ## 64-bit numbers -/

namespace Binary64

open Float.Model UnpackedFloat

theorem isNaN_packComponents (s : UnpackedFloat.Sign) {e : BitVec 11} (he : e ≠ -1#11)
    (m : BitVec 52) :
    (UnpackedFloat.unpack Format.binary64 (packComponents Format.binary64 s e m)).isNaN =
      false := by
  unfold UnpackedFloat.unpack
  simp only [unpackExponent_packComponents, unpackMantissa_packComponents]
  split_ifs with hinf hzero hsub hzero
  · rfl
  · exact absurd hinf he
  · rfl
  · rfl
  · rfl

theorem isInf_packComponents (s : UnpackedFloat.Sign) (e : BitVec 11) (m : BitVec 52) :
    (UnpackedFloat.unpack Format.binary64 (packComponents Format.binary64 s e m)).isInf =
      decide (e = -1#11 ∧ m = 0#52) := by
  unfold UnpackedFloat.unpack
  simp only [unpackExponent_packComponents, unpackMantissa_packComponents]
  split_ifs with hinf hzero hsub hzero
  · exact (decide_eq_true ⟨hinf, hzero⟩).symm
  · exact (decide_eq_false fun h => hzero h.2).symm
  · exact (decide_eq_false fun h => hinf h.1).symm
  · exact (decide_eq_false fun h => hinf h.1).symm
  · exact (decide_eq_false fun h => hinf h.1).symm

/-- Packing does not make a number undefined, and does not define one either. -/
theorem isNaN_pack (u : UnpackedFloat) : (Float.Model.pack u).unpack.isNaN = u.isNaN := by
  cases u with
  | notANumber => rfl
  | infinity s => rw [unpack_packedInfinity]
  | zero s => rw [unpack_packedZero]
  | finite s m e hm =>
    show (UnpackedFloat.unpack _ (UnpackedFloat.pack Format.binary64 (.finite s m e hm))).isNaN =
        false
    rcases lt_or_ge (e + 1075) 2047 with hsmall | hlarge
    · unfold UnpackedFloat.pack
      change (UnpackedFloat.unpack _ (if 2 ^ 11 ≤ (e + 1023 + 52).toNat + 1 then _
        else if m.log2 + 1 = 53 then
          packComponents Format.binary64 s (BitVec.ofNat 11 (e + 1023 + 52).toNat)
            (BitVec.ofNat 52 m)
        else packComponents Format.binary64 s 0#11 (BitVec.ofNat 52 m))).isNaN = false
      rw [if_neg (by omega)]
      split_ifs
      · refine isNaN_packComponents s ?_ _
        intro h
        have h := congrArg BitVec.toNat h
        rw [BitVec.toNat_ofNat, Nat.mod_eq_of_lt (by omega)] at h
        have hones : (-1#11 : BitVec 11).toNat = 2047 := rfl
        omega
      · exact isNaN_packComponents s (by decide) _
    · rw [pack_overflow s hm hlarge]
      cases s <;> rfl

/-- A packed number is as finite as the one of the other sign. -/
theorem isInf_pack_neg (u : UnpackedFloat) :
    (Float.Model.pack u.neg).unpack.isInf = (Float.Model.pack u).unpack.isInf := by
  cases u with
  | notANumber => rfl
  | infinity s => rw [UnpackedFloat.neg, unpack_packedInfinity, unpack_packedInfinity]; rfl
  | zero s => rw [UnpackedFloat.neg, unpack_packedZero, unpack_packedZero]; rfl
  | finite s m e hm =>
    show (UnpackedFloat.unpack _ (UnpackedFloat.pack Format.binary64 (.finite (-s) m e hm))).isInf =
      (UnpackedFloat.unpack _ (UnpackedFloat.pack Format.binary64 (.finite s m e hm))).isInf
    unfold UnpackedFloat.pack packedInfinity
    simp only
    split_ifs
    · exact (isInf_packComponents _ _ _).trans (isInf_packComponents _ _ _).symm
    · exact (isInf_packComponents _ _ _).trans (isInf_packComponents _ _ _).symm
    · exact (isInf_packComponents _ _ _).trans (isInf_packComponents _ _ _).symm

theorem isNaN_neg (x : Float) : (-x).isNaN = x.isNaN := by
  show (Float.Model.pack x.toModel.unpack.neg).unpack.isNaN = x.toModel.unpack.isNaN
  rw [isNaN_pack]
  cases x.toModel.unpack <;> rfl

theorem isInf_neg (x : Float) : (-x).isInf = x.isInf := by
  show (Float.Model.pack x.toModel.unpack.neg).unpack.isInf = x.toModel.unpack.isInf
  rw [isInf_pack_neg, unpack_pack_unpack]

/-! ## Numbers without a sign -/

/-- Whether a number is defined and has no sign. -/
def isUnsigned : UnpackedFloat → Bool
  | .infinity .positive | .zero .positive | .finite .positive .. => true
  | _ => false

theorem isUnsigned_unpack {b : BitVec Format.binary64.numBits} (hsign : unpackSign b = 0#1)
    (hdefined : (UnpackedFloat.unpack Format.binary64 b).isNaN = false) :
    isUnsigned (UnpackedFloat.unpack Format.binary64 b) = true := by
  have hpositive : UnpackedFloat.Sign.ofBitVec (unpackSign b) = .positive := by
    rw [hsign]
    rfl
  unfold UnpackedFloat.unpack at hdefined ⊢
  simp only [hpositive] at hdefined ⊢
  split_ifs at hdefined ⊢
  · rfl
  · cases hdefined
  · rfl
  · rfl
  · rfl

theorem unpackSign_pack {u : UnpackedFloat} (h : isUnsigned u = true) :
    unpackSign (UnpackedFloat.pack Format.binary64 u) = 0#1 := by
  cases u with
  | notANumber => cases h
  | infinity s =>
    cases s
    · cases h
    · rfl
  | zero s =>
    cases s
    · cases h
    · rfl
  | finite s m e hm =>
    cases s
    · cases h
    · unfold UnpackedFloat.pack
      simp only
      split_ifs
      · rfl
      · exact unpackSign_packComponents _ _ _
      · exact unpackSign_packComponents _ _ _

theorem isNaN_of_isUnsigned {u : UnpackedFloat} (h : isUnsigned u = true) : u.isNaN = false := by
  cases u with
  | notANumber => cases h
  | _ => rfl

theorem isUnsigned_pack {u : UnpackedFloat} (h : isUnsigned u = true) :
    isUnsigned (Float.Model.pack u).unpack = true :=
  isUnsigned_unpack (unpackSign_pack h) ((isNaN_pack u).trans (isNaN_of_isUnsigned h))

/-! ## Decimal numbers -/

theorem isUnsigned_roundWithAccuracy (m : ℕ) (e : ℤ) (a : Accuracy) :
    isUnsigned (roundWithAccuracy Format.binary64 .positive m e a) = true := by
  unfold roundWithAccuracy
  simp only
  split <;> rfl

theorem isUnsigned_round (m : ℕ) (e : ℤ) :
    isUnsigned (UnpackedFloat.round Format.binary64 .positive m e) = true :=
  isUnsigned_roundWithAccuracy _ _ _

theorem isUnsigned_ofNat (n : ℕ) : isUnsigned (UnpackedFloat.ofNat Format.binary64 n) = true := by
  unfold UnpackedFloat.ofNat UnpackedFloat.ofInt UnpackedFloat.normalize
  split
  · rename_i hlt
    rw [compare_lt_iff_lt] at hlt
    omega
  · rfl
  · exact isUnsigned_round _ _

/-- Whether a number is neither undefined, infinite nor zero. -/
def isProper : UnpackedFloat → Bool
  | .finite .. => true
  | _ => false

/-- An operation with a number other than zero is unsigned if it is so for each kind
    of first operand. -/
theorem isUnsigned_operation {op : UnpackedFloat → UnpackedFloat → UnpackedFloat}
    {u v : UnpackedFloat}
    (hinfinity : ∀ m e hm, isUnsigned (op (.infinity .positive) (.finite .positive m e hm)) = true)
    (hzero : ∀ m e hm, isUnsigned (op (.zero .positive) (.finite .positive m e hm)) = true)
    (hfinite : ∀ n f hn m e hm,
      isUnsigned (op (.finite .positive n f hn) (.finite .positive m e hm)) = true)
    (hu : isUnsigned u = true) (hv : isUnsigned v = true) (hproper : isProper v = true) :
    isUnsigned (op u v) = true := by
  match v, hv, hproper with
  | .finite .positive m e hm, _, _ =>
    match u, hu with
    | .infinity .positive, _ => exact hinfinity m e hm
    | .zero .positive, _ => exact hzero m e hm
    | .finite .positive n f hn, _ => exact hfinite n f hn m e hm

theorem isUnsigned_mul {u v : UnpackedFloat} (hu : isUnsigned u = true) (hv : isUnsigned v = true)
    (hproper : isProper v = true) : isUnsigned (UnpackedFloat.mul Format.binary64 u v) = true :=
  isUnsigned_operation (fun _ _ _ => rfl) (fun _ _ _ => rfl)
    (fun _ _ _ _ _ _ => isUnsigned_roundWithAccuracy _ _ _) hu hv hproper

theorem isUnsigned_div {u v : UnpackedFloat} (hu : isUnsigned u = true) (hv : isUnsigned v = true)
    (hproper : isProper v = true) : isUnsigned (UnpackedFloat.div Format.binary64 u v) = true :=
  isUnsigned_operation (fun _ _ _ => rfl) (fun _ _ _ => rfl)
    (fun _ _ _ _ _ _ => isUnsigned_roundWithAccuracy _ _ _) hu hv hproper

theorem isUnsigned_powersOfTen : (Float.exactlyRepresentablePowersOfTen.all fun x =>
    isUnsigned x.toModel.unpack && isProper x.toModel.unpack) = true := by
  decide +kernel

theorem isUnsigned_unpackedScientific (m : ℕ) (e : ℤ) :
    isUnsigned (UnpackedFloat.ofScientific Format.binary64 m e) = true := by
  unfold UnpackedFloat.ofScientific
  split_ifs
  · rfl
  · rfl
  · rfl
  · exact isUnsigned_mul rfl rfl rfl
  · exact isUnsigned_div rfl rfl rfl

theorem isUnsigned_ofScientific (m : ℕ) (negative : Bool) (e : ℕ) :
    isUnsigned (Float.ofScientific m negative e).toModel.unpack = true := by
  unfold Float.ofScientific
  split
  · -- small numbers are made from powers of ten that are exact
    rename_i hsmall
    have hsize : e < Float.exactlyRepresentablePowersOfTen.size := by
      have h : Float.exactlyRepresentablePowersOfTen.size = 23 := rfl
      omega
    obtain ⟨hpower, hproper⟩ :=
      Bool.and_eq_true_iff.1 (Array.all_eq_true.1 isUnsigned_powersOfTen e hsize)
    have hcoefficient : isUnsigned m.toUInt64.toFloat.toModel.unpack = true :=
      isUnsigned_pack (isUnsigned_ofNat _)
    cases negative with
    | false => exact isUnsigned_pack (isUnsigned_mul hcoefficient hpower hproper)
    | true => exact isUnsigned_pack (isUnsigned_div hcoefficient hpower hproper)
  · exact isUnsigned_pack (isUnsigned_unpackedScientific _ _)

theorem isUnsigned_toFloat (d : Decimal) :
    isUnsigned (Numeral.toFloat d).toModel.unpack = true := by
  unfold Numeral.toFloat
  simp only
  split_ifs
  · rfl
  · rfl
  · rfl
  · exact isUnsigned_ofScientific _ _ _

theorem isNaN_toFloat (d : Decimal) : (Numeral.toFloat d).isNaN = false :=
  isNaN_of_isUnsigned (isUnsigned_toFloat d)

/-- 64-bit numbers, written decimally or as constants, are as finite as they look. -/
instance : FiniteNumbers Float where
  isNaN_neg := isNaN_neg
  isInfinite_neg := isInf_neg
  isNaN_ofDecimal := isNaN_toFloat
  isNaN_infinity := by rfl
  isFinite_e := by rfl
  isFinite_pi := by rfl

end Binary64

end FuzzyInference
