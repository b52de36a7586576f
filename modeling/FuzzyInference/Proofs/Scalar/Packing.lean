import FuzzyInference.Scalar.Binary64
import Mathlib

/-!
# 64-bit patterns

A 64-bit number is kept as a bit pattern and unpacked for every operation, whose
result is rounded and packed again. A pattern is known from its sign, exponent
and mantissa fields, so packing gives back what was unpacked. Numbers whose
exponent is not below the smallest one never round to zero.

Results:

* `pack_unpack`: unpacking loses nothing.
* `round_finite`: rounding a number that is not zero gives a finite number.
* `unpack_pack_ne_zero`: a rounded number that is not zero is not packed as zero.
-/

namespace FuzzyInference.Binary64

open Float.Model UnpackedFloat

/-! ## Fields -/

theorem toBitVec_ofBitVec (v : BitVec 1) : (UnpackedFloat.Sign.ofBitVec v).toBitVec = v := by
  rcases BitVec.eq_zero_or_eq_one v with rfl | rfl <;> rfl

theorem unpackSign_packComponents (s : UnpackedFloat.Sign) (e : BitVec 11) (m : BitVec 52) :
    unpackSign (packComponents Format.binary64 s e m) = s.toBitVec := by
  apply BitVec.eq_of_getLsbD_eq
  intro i hi
  obtain rfl : i = 0 := by omega
  simp only [unpackSign, packComponents, BitVec.getLsbD_cast, BitVec.getLsbD_extractLsb,
    BitVec.getLsbD_append]
  simp

/-- A pattern is known from its three fields. -/
theorem bits_ext {b c : BitVec Format.binary64.numBits} (hs : unpackSign b = unpackSign c)
    (he : unpackExponent b = unpackExponent c) (hm : unpackMantissa b = unpackMantissa c) :
    b = c := by
  apply BitVec.eq_of_getLsbD_eq
  intro i hi
  have hi : i < 64 := hi
  rcases lt_or_ge i 52 with hlow | hlow
  · have h := congrArg (BitVec.getLsbD · i) hm
    simpa [unpackMantissa, show i ≤ 51 by omega] using h
  · rcases lt_or_ge i 63 with hmid | hmid
    · have h := congrArg (BitVec.getLsbD · (i - 52)) he
      simpa [unpackExponent, show i ≤ 62 by omega, show 52 + (i - 52) = i by omega] using h
    · have h := congrArg (BitVec.getLsbD · (i - 63)) hs
      simpa [unpackSign, show i = 63 by omega] using h

theorem packComponents_eq {b : BitVec Format.binary64.numBits} {e : BitVec 11} {m : BitVec 52}
    (he : unpackExponent b = e) (hm : unpackMantissa b = m) :
    packComponents Format.binary64 (UnpackedFloat.Sign.ofBitVec (unpackSign b)) e m = b := by
  apply bits_ext
  · rw [unpackSign_packComponents, toBitVec_ofBitVec]
  · rw [unpackExponent_packComponents, he]
  · rw [unpackMantissa_packComponents, hm]

theorem toNat_implicit (m : BitVec 52) : (1#1 ++ m).toNat = 2 ^ 52 + m.toNat := by
  rw [BitVec.toNat_append, ← Nat.shiftLeft_add_eq_or_of_lt m.isLt]
  rfl

/-! ## Packing -/

/-- A mantissa without the implicit bit is packed with the exponent field zero. -/
theorem pack_subnormal (s : UnpackedFloat.Sign) {m : ℕ} {e : ℤ} (hm : 0 < m) (hlt : m < 2 ^ 52)
    (he : e + 1075 < 2047) :
    UnpackedFloat.pack Format.binary64 (.finite s m e hm) =
      packComponents Format.binary64 s 0#11 (BitVec.ofNat 52 m) := by
  have hlog : m.log2 < 52 := (Nat.log2_lt hm.ne').2 hlt
  unfold UnpackedFloat.pack
  change (if 2 ^ 11 ≤ (e + 1023 + 52).toNat + 1 then _ else if m.log2 + 1 = 53 then _ else _) = _
  rw [if_neg (by omega), if_neg (by omega)]

/-- A mantissa with the implicit bit is packed with its exponent, moved into the
    natural numbers. -/
theorem pack_normal (s : UnpackedFloat.Sign) {m k : ℕ} {e : ℤ} (hm : 0 < m) (hge : 2 ^ 52 ≤ m)
    (hlt : m < 2 ^ 53) (hk : e + 1075 = k) (hbound : k < 2047) :
    UnpackedFloat.pack Format.binary64 (.finite s m e hm) =
      packComponents Format.binary64 s (BitVec.ofNat 11 k) (BitVec.ofNat 52 m) := by
  have hlow : 52 ≤ m.log2 := (Nat.le_log2 hm.ne').2 hge
  have hhigh : m.log2 < 53 := (Nat.log2_lt hm.ne').2 hlt
  have hbiased : (e + 1023 + 52).toNat = k := by omega
  unfold UnpackedFloat.pack
  change (if 2 ^ 11 ≤ (e + 1023 + 52).toNat + 1 then _ else if m.log2 + 1 = 53 then
    packComponents Format.binary64 s (BitVec.ofNat 11 (e + 1023 + 52).toNat) (BitVec.ofNat 52 m)
    else _) = _
  rw [hbiased, if_neg (by omega), if_pos (by omega)]

/-- An exponent out of reach is packed as infinity. -/
theorem pack_overflow (s : UnpackedFloat.Sign) {m : ℕ} {e : ℤ} (hm : 0 < m) (he : 2047 ≤ e + 1075) :
    UnpackedFloat.pack Format.binary64 (.finite s m e hm) = packedInfinity Format.binary64 s := by
  unfold UnpackedFloat.pack
  change (if 2 ^ 11 ≤ (e + 1023 + 52).toNat + 1 then _ else if m.log2 + 1 = 53 then _ else _) = _
  rw [if_pos (by omega)]

theorem pack_unpack {b : BitVec Format.binary64.numBits} (hb : Format.binary64.Valid b) :
    UnpackedFloat.pack Format.binary64 (UnpackedFloat.unpack Format.binary64 b) = b := by
  have hm : (unpackMantissa b).toNat < 2 ^ 52 := (unpackMantissa b).isLt
  have he : (unpackExponent b).toNat < 2 ^ 11 := (unpackExponent b).isLt
  unfold UnpackedFloat.unpack
  simp only
  split_ifs with hinf hzero hsub hzero
  · exact packComponents_eq hinf hzero
  · exact (hb.eq_packedNaN hinf hzero).symm
  · exact packComponents_eq hsub hzero
  · rw [pack_subnormal _ _ hm]
    · exact packComponents_eq hsub (by simp)
    · rw [hsub]
      decide
  · have hfull : (unpackExponent b).toNat ≠ 2047 := fun h =>
      hinf (BitVec.toNat_inj.1 (by simpa using h))
    rw [pack_normal (k := (unpackExponent b).toNat)]
    · refine packComponents_eq (by simp) ?_
      rw [toNat_implicit, ← BitVec.toNat_inj, BitVec.toNat_ofNat]
      change (unpackMantissa b).toNat = (2 ^ 52 + (unpackMantissa b).toNat) % 2 ^ 52
      omega
    · rw [toNat_implicit]
      omega
    · rw [toNat_implicit]
      omega
    · change ((unpackExponent b).toNat - (1023 + 52) + 1075 : ℤ) = _
      omega
    · omega

/-- A 64-bit number is the one that its unpacked form packs to. -/
theorem pack_unpack_model (x : Float) : Float.ofModel (.pack x.toModel.unpack) = x := by
  obtain ⟨⟨bits, hvalid⟩⟩ := x
  have h := pack_unpack hvalid
  simp only [Float.Model.pack, Float.Model.unpack, h]

/-! ## Rounding -/

theorem mantissa_shiftRight (em : ExtendedMantissa) (n : ℕ) :
    (em >>> n).mantissa = em.mantissa / 2 ^ n := by
  induction n with
  | zero => exact (Nat.div_one _).symm
  | succ n ih =>
    change (em >>> n).mantissa / 2 = _
    rw [ih, Nat.div_div_eq_div_mul, pow_succ]

theorem mantissa_ofMantissaAndAccuracy (m : ℕ) (a : Accuracy) :
    (ExtendedMantissa.ofMantissaAndAccuracy m a).mantissa = m := by
  cases a with
  | exact => rfl
  | inexact o => cases o <;> rfl

theorem le_roundedMantissa (em : ExtendedMantissa) : em.mantissa ≤ em.roundedMantissa := by
  unfold ExtendedMantissa.roundedMantissa
  cases em.accuracy with
  | exact => exact le_rfl
  | inexact o => cases o <;> simp [Accuracy.roundToNearestEven]

theorem targetExponent_eq (t : ℤ) : Format.binary64.targetExponent t = max (t - 53) (-1074) := rfl

/-- Shifting to the target exponent keeps 53 bits, if there are that many, and drops
    none of a number at the smallest exponent. -/
theorem shiftToTargetExponent_bounds {m : ℕ} {e : ℤ} (hm : 0 < m) (he : -1074 ≤ e) (a : Accuracy) :
    0 < (shiftToTargetExponent Format.binary64 m e a).1.mantissa ∧
      (shiftToTargetExponent Format.binary64 m e a).1.mantissa < 2 ^ 53 ∧
      -1074 ≤ (shiftToTargetExponent Format.binary64 m e a).2 := by
  have hlow : 2 ^ m.log2 ≤ m := Nat.log2_self_le hm.ne'
  have hhigh : m < 2 ^ (m.log2 + 1) := Nat.lt_log2_self
  unfold shiftToTargetExponent shiftToExponent
  simp only [mantissa_shiftRight, mantissa_ofMantissaAndAccuracy, targetExponent_eq, totalExponent]
  generalize m.log2 = l at *
  refine ⟨?_, ?_, by omega⟩
  · apply Nat.div_pos _ (Nat.two_pow_pos _)
    exact (Nat.pow_le_pow_right (by norm_num) (by omega)).trans hlow
  · rw [Nat.div_lt_iff_lt_mul (Nat.two_pow_pos _), ← pow_add]
    exact hhigh.trans_le (Nat.pow_le_pow_right (by norm_num) (by omega))

theorem roundWithAccuracy_finite (s : UnpackedFloat.Sign) {m : ℕ} {e : ℤ} (hm : 0 < m)
    (he : -1074 ≤ e) (a : Accuracy) :
    ∃ n f hn, roundWithAccuracy Format.binary64 s m e a = .finite s n f hn ∧ n < 2 ^ 53 ∧
      -1074 ≤ f := by
  obtain ⟨hpos, -, hexp⟩ := shiftToTargetExponent_bounds hm he a
  have hrounded := hpos.trans_le (le_roundedMantissa _)
  obtain ⟨hpos', hlt, hexp'⟩ := shiftToTargetExponent_bounds hrounded hexp .exact
  unfold roundWithAccuracy
  simp only
  rw [dif_neg hpos'.ne']
  exact ⟨_, _, hpos', rfl, hlt, hexp'⟩

theorem round_finite (s : UnpackedFloat.Sign) {m : ℕ} {e : ℤ} (hm : 0 < m) (he : -1074 ≤ e) :
    ∃ n f hn, UnpackedFloat.round Format.binary64 s m e = .finite s n f hn ∧ n < 2 ^ 53 ∧
      -1074 ≤ f := by
  unfold UnpackedFloat.round decreaseExponent
  simp only [targetExponent_eq]
  apply roundWithAccuracy_finite
  · rw [Nat.shiftLeft_eq]
    exact Nat.mul_pos hm (Nat.two_pow_pos _)
  · omega

/-! ## Zeros -/

theorem unpack_packComponents_ne_zero {s t : UnpackedFloat.Sign} {e : BitVec 11} {m : BitVec 52}
    (h : e ≠ 0#11 ∨ m ≠ 0#52) :
    UnpackedFloat.unpack Format.binary64 (packComponents Format.binary64 s e m) ≠ .zero t := by
  unfold UnpackedFloat.unpack
  simp only [unpackExponent_packComponents, unpackMantissa_packComponents]
  split_ifs with hinf hzero hsub hzero
  · exact nofun
  · exact nofun
  · exact absurd ⟨hsub, hzero⟩ (not_and_or.2 h)
  · exact nofun
  · exact nofun

theorem unpack_pack_ne_zero (s t : UnpackedFloat.Sign) {m : ℕ} {e : ℤ} (hm : 0 < m)
    (hlt : m < 2 ^ 53) (he : -1074 ≤ e) :
    UnpackedFloat.unpack Format.binary64
      (UnpackedFloat.pack Format.binary64 (.finite s m e hm)) ≠ .zero t := by
  rcases lt_or_ge (e + 1075) 2047 with hsmall | hlarge
  · rcases lt_or_ge m (2 ^ 52) with hsub | hnormal
    · rw [pack_subnormal s hm hsub hsmall]
      refine unpack_packComponents_ne_zero (.inr fun h => ?_)
      have h := congrArg BitVec.toNat h
      rw [BitVec.toNat_ofNat, Nat.mod_eq_of_lt hsub, BitVec.toNat_zero] at h
      omega
    · rw [pack_normal s hm hnormal hlt (k := (e + 1075).toNat) (by omega) (by omega)]
      refine unpack_packComponents_ne_zero (.inl fun h => ?_)
      have h := congrArg BitVec.toNat h
      rw [BitVec.toNat_ofNat, Nat.mod_eq_of_lt (by omega), BitVec.toNat_zero] at h
      omega
  · rw [pack_overflow s hm hlarge]
    exact unpack_packComponents_ne_zero (.inl (by decide))

theorem le_exponent_of_unpack {b : BitVec Format.binary64.numBits} {s : UnpackedFloat.Sign}
    {m : ℕ} {e : ℤ} {hm : 0 < m} (h : UnpackedFloat.unpack Format.binary64 b = .finite s m e hm) :
    -1074 ≤ e := by
  unfold UnpackedFloat.unpack at h
  simp only at h
  split_ifs at h with hinf hzero hsub hzero
  · injection h with _ _ hexp
    rw [← hexp, hsub]
    decide
  · injection h with _ _ hexp
    have hpos : (unpackExponent b).toNat ≠ 0 :=
      fun h0 => hsub (BitVec.toNat_inj.1 (by simpa using h0))
    change ((unpackExponent b).toNat - (1023 + 52) : ℤ) = e at hexp
    omega

end FuzzyInference.Binary64
