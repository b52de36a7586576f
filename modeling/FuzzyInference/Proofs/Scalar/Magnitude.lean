import FuzzyInference.Proofs.Scalar.Rounding

/-!
# Signs and magnitudes

A 64-bit number that is defined is infinite, zero, or a sign with a magnitude. The
magnitude that texts are written from is taken out of the bits directly; it is the
one that the number is unpacked to, and packing it gives the number again.

Results:

* `unpack_cases`: what a defined number is unpacked to.
* `unpack_pack_finite`: a magnitude is not changed by packing.
* `withSign_ofMagnitude`: a number is its magnitude with its sign.
-/

namespace FuzzyInference.Binary64

open Float.Model UnpackedFloat

/-! ## Bits -/

/-- The bit pattern of a number. -/
def bits (x : Float) : BitVec Format.binary64.numBits := x.toModel.toBits.toBitVec

theorem toNat_biased (x : Float) :
    (x.toBits >>> 52 &&& 0x7ff).toNat = (unpackExponent (bits x)).toNat := by
  unfold unpackExponent
  rw [BitVec.toNat_cast]
  change _ = (BitVec.extractLsb 62 52 x.toBits.toBitVec).toNat
  rw [BitVec.extractLsb_toNat, UInt64.toNat_and]
  exact Nat.and_two_pow_sub_one_eq_mod _ 11

theorem toNat_fraction (x : Float) :
    (x.toBits &&& 0xfffffffffffff).toNat = (unpackMantissa (bits x)).toNat := by
  unfold unpackMantissa
  rw [BitVec.toNat_cast]
  change _ = (BitVec.extractLsb 51 0 x.toBits.toBitVec).toNat
  rw [BitVec.extractLsb_toNat, UInt64.toNat_and]
  exact Nat.and_two_pow_sub_one_eq_mod _ 52

theorem ofFloat_eq (x : Float) : Binary.ofFloat x =
    if (unpackExponent (bits x)).toNat = 0 then ⟨(unpackMantissa (bits x)).toNat, -1074⟩
    else ⟨2 ^ 52 + (unpackMantissa (bits x)).toNat,
      ((unpackExponent (bits x)).toNat : ℤ) - 1075⟩ := by
  unfold Binary.ofFloat
  simp only [toNat_biased, toNat_fraction]
  rfl

/-- The sign of a number. -/
def sign (x : Float) : UnpackedFloat.Sign := if Binary.signBit x then .negative else .positive

theorem ofBitVec_unpackSign (x : Float) :
    UnpackedFloat.Sign.ofBitVec (unpackSign (bits x)) = sign x := by
  have hbit : (unpackSign (bits x)).toNat = (x.toBits >>> 63).toNat := by
    unfold unpackSign
    rw [BitVec.toNat_cast]
    change (BitVec.extractLsb 63 63 x.toBits.toBitVec).toNat = _
    rw [BitVec.extractLsb_toNat, UInt64.toNat_shiftRight]
    refine Nat.mod_eq_of_lt ?_
    rw [Nat.shiftRight_eq_div_pow, Nat.div_lt_iff_lt_mul (Nat.two_pow_pos 63)]
    exact x.toBits.toBitVec.isLt
  unfold sign UnpackedFloat.Sign.ofBitVec Binary.signBit
  rcases BitVec.eq_zero_or_eq_one (unpackSign (bits x)) with h | h
  · have hzero : x.toBits >>> 63 = 0 := UInt64.toNat_inj.1 (by rw [← hbit, h]; rfl)
    rw [h, hzero]
    rfl
  · have hone : x.toBits >>> 63 = 1 := UInt64.toNat_inj.1 (by rw [← hbit, h]; rfl)
    rw [h, hone]
    rfl

/-! ## Unpacked numbers -/

theorem eq_sign_of_infinity {x : Float} {s : UnpackedFloat.Sign}
    (h : x.toModel.unpack = .infinity s) : s = sign x := by
  change UnpackedFloat.unpack Format.binary64 (bits x) = .infinity s at h
  unfold UnpackedFloat.unpack at h
  simp only [ofBitVec_unpackSign] at h
  split_ifs at h
  injection h with h
  exact h.symm

theorem ofFloat_of_zero {x : Float} {s : UnpackedFloat.Sign} (h : x.toModel.unpack = .zero s) :
    s = sign x ∧ (Binary.ofFloat x).mantissa = 0 := by
  rw [ofFloat_eq]
  change UnpackedFloat.unpack Format.binary64 (bits x) = .zero s at h
  unfold UnpackedFloat.unpack at h
  simp only [ofBitVec_unpackSign] at h
  split_ifs at h with hinf hzero hsub hzero
  injection h with h
  rw [hsub, hzero]
  exact ⟨h.symm, rfl⟩

theorem ofFloat_of_finite {x : Float} {s : UnpackedFloat.Sign} {m : ℕ} {e : ℤ} {hm : 0 < m}
    (h : x.toModel.unpack = .finite s m e hm) :
    s = sign x ∧ Binary.ofFloat x = ⟨m, e⟩ ∧ (⟨m, e⟩ : Binary).Canonical := by
  have hlt : (unpackMantissa (bits x)).toNat < 2 ^ 52 := (unpackMantissa (bits x)).isLt
  have hbound : (unpackExponent (bits x)).toNat < 2 ^ 11 := (unpackExponent (bits x)).isLt
  rw [ofFloat_eq]
  change UnpackedFloat.unpack Format.binary64 (bits x) = .finite s m e hm at h
  unfold UnpackedFloat.unpack at h
  simp only [ofBitVec_unpackSign] at h
  split_ifs at h with hinf hzero hsub hzero
  · injection h with hsign hmantissa hexponent
    have hbiased : (unpackExponent (bits x)).toNat = 0 := by
      rw [hsub]
      rfl
    rw [hbiased] at hexponent
    have hexponent : -1074 = e := hexponent
    subst hmantissa hexponent
    rw [if_pos hbiased]
    exact ⟨hsign.symm, rfl, hm, hlt.trans (by norm_num), le_rfl, by norm_num, .inl rfl⟩
  · injection h with hsign hmantissa hexponent
    have hbiased : (unpackExponent (bits x)).toNat ≠ 0 :=
      fun h => hsub (BitVec.toNat_inj.1 (by simpa using h))
    have hfull : (unpackExponent (bits x)).toNat ≠ 2047 :=
      fun h => hinf (BitVec.toNat_inj.1 (by simpa using h))
    rw [toNat_implicit] at hmantissa
    change ((unpackExponent (bits x)).toNat - (1023 + 52) : ℤ) = e at hexponent
    rw [if_neg hbiased, hmantissa]
    refine ⟨hsign.symm, ?_, ?_⟩
    · rw [← hexponent]
      rfl
    · constructor <;> simp only <;> omega

/-- A defined number is infinite, zero, or has a magnitude. -/
theorem unpack_cases {x : Float} (h : x.isNaN = false) :
    x.toModel.unpack = .infinity (sign x) ∨
      x.toModel.unpack = .zero (sign x) ∧ (Binary.ofFloat x).mantissa = 0 ∨
      ∃ hb : (Binary.ofFloat x).Canonical,
        x.toModel.unpack = .finite (sign x) (Binary.ofFloat x).mantissa
          (Binary.ofFloat x).exponent hb.pos := by
  cases hx : x.toModel.unpack with
  | notANumber =>
    have hnan : x.isNaN = x.toModel.unpack.isNaN := rfl
    rw [hnan, hx] at h
    cases h
  | infinity s => exact .inl (by rw [eq_sign_of_infinity hx])
  | zero s =>
    obtain ⟨hsign, hmantissa⟩ := ofFloat_of_zero hx
    exact .inr (.inl ⟨by rw [hsign], hmantissa⟩)
  | finite s m e hm =>
    obtain ⟨hsign, hofFloat, hcanonical⟩ := ofFloat_of_finite hx
    rw [hofFloat]
    exact .inr (.inr ⟨hcanonical, by rw [hsign]⟩)

/-! ## Packed magnitudes -/

theorem ofBitVec_toBitVec (s : UnpackedFloat.Sign) :
    UnpackedFloat.Sign.ofBitVec s.toBitVec = s := by
  cases s <;> rfl

/-- A magnitude of 64-bit numbers is not changed by packing. -/
theorem unpack_pack_finite {b : Binary} (hb : b.Canonical) (s : UnpackedFloat.Sign) :
    (Float.Model.pack (.finite s b.mantissa b.exponent hb.pos)).unpack =
      .finite s b.mantissa b.exponent hb.pos := by
  obtain ⟨m, e⟩ := b
  obtain ⟨hpos, hlt, hleast, hgreatest, hfull⟩ := hb
  simp only at hpos hlt hleast hgreatest hfull ⊢
  change UnpackedFloat.unpack Format.binary64
    (UnpackedFloat.pack Format.binary64 (.finite s m e hpos)) = _
  rcases lt_or_ge m (2 ^ 52) with hsub | hnormal
  · obtain rfl := hfull.resolve_right (by omega)
    have hmod : m % 2 ^ 52 = m := Nat.mod_eq_of_lt hsub
    have hmantissa : BitVec.ofNat 52 m ≠ 0#52 := by
      intro h
      have h := congrArg BitVec.toNat h
      rw [BitVec.toNat_ofNat, hmod, BitVec.toNat_zero] at h
      omega
    rw [pack_subnormal s hpos hsub (by omega)]
    unfold UnpackedFloat.unpack
    simp only [unpackExponent_packComponents, unpackMantissa_packComponents,
      unpackSign_packComponents, ofBitVec_toBitVec]
    rw [if_neg (by decide), if_pos trivial, dif_neg hmantissa]
    congr 1
  · obtain ⟨k, hk⟩ := Int.eq_ofNat_of_zero_le (show 0 ≤ e + 1075 by omega)
    have hmod : k % 2 ^ 11 = k := Nat.mod_eq_of_lt (by omega)
    have hne : ∀ n : ℕ, n < 2 ^ 11 → n ≠ k → BitVec.ofNat 11 k ≠ BitVec.ofNat 11 n := by
      intro n hn hnk h
      have h := congrArg BitVec.toNat h
      rw [BitVec.toNat_ofNat, BitVec.toNat_ofNat, hmod, Nat.mod_eq_of_lt hn] at h
      exact hnk h.symm
    rw [pack_normal s hpos hnormal hlt hk (by omega)]
    unfold UnpackedFloat.unpack
    simp only [unpackExponent_packComponents, unpackMantissa_packComponents,
      unpackSign_packComponents, ofBitVec_toBitVec]
    have hones : BitVec.ofNat 11 k ≠ -1#11 := hne 2047 (by omega) (by omega)
    rw [if_neg hones, if_neg (hne 0 (by omega) (by omega))]
    congr 1
    · rw [toNat_implicit, BitVec.toNat_ofNat]
      omega
    · rw [BitVec.toNat_ofNat, hmod]
      change (k - (1023 + 52) : ℤ) = e
      omega

/-- The number of a magnitude, without a sign. -/
def ofMagnitude (b : Binary) (h : 0 < b.mantissa) : Float :=
  Float.ofModel (.pack (.finite .positive b.mantissa b.exponent h))

/-- A number is its magnitude with its sign. -/
theorem withSign_ofMagnitude {x : Float} (hb : (Binary.ofFloat x).Canonical)
    (hx : x.toModel.unpack = .finite (sign x) (Binary.ofFloat x).mantissa
      (Binary.ofFloat x).exponent hb.pos) :
    Numeral.withSign (Binary.signBit x) (ofMagnitude (Binary.ofFloat x) hb.pos) = x := by
  have hpacked := pack_unpack_model x
  rw [hx] at hpacked
  unfold Numeral.withSign ofMagnitude
  cases hsign : Binary.signBit x with
  | false =>
    have hpositive : sign x = .positive := by rw [sign, hsign]; rfl
    rw [hpositive] at hpacked
    exact hpacked
  | true =>
    have hnegative : sign x = .negative := by rw [sign, hsign]; rfl
    rw [hnegative] at hpacked
    generalize Binary.ofFloat x = b at *
    have hneg : -Float.ofModel (.pack (.finite .positive b.mantissa b.exponent hb.pos)) =
        Float.ofModel (.pack (.finite .negative b.mantissa b.exponent hb.pos)) := by
      change Float.ofModel (.pack (Float.Model.pack _).unpack.neg) = _
      rw [unpack_pack_finite hb]
      rfl
    exact hneg.trans hpacked

end FuzzyInference.Binary64

/-! ## Natural numbers -/

namespace FuzzyInference

namespace Binary

/-- The magnitude of a natural number. -/
def ofNat (n : ℕ) : Binary := ⟨n * 2 ^ (52 - n.log2), n.log2 - 52⟩

theorem log2_le_of_lt {n : ℕ} (hpos : 0 < n) (hlt : n < 2 ^ 53) : n.log2 ≤ 52 :=
  Nat.lt_succ_iff.1 ((Nat.log2_lt hpos.ne').2 hlt)

theorem full_ofNat {n : ℕ} (hpos : 0 < n) (hlt : n < 2 ^ 53) : 2 ^ 52 ≤ (ofNat n).mantissa := by
  have hlog := log2_le_of_lt hpos hlt
  calc 2 ^ 52 = 2 ^ n.log2 * 2 ^ (52 - n.log2) := by rw [← pow_add, Nat.add_sub_cancel' hlog]
    _ ≤ n * 2 ^ (52 - n.log2) := Nat.mul_le_mul_right _ (Nat.log2_self_le hpos.ne')

theorem canonical_ofNat {n : ℕ} (hpos : 0 < n) (hlt : n < 2 ^ 53) : (ofNat n).Canonical where
  pos := Nat.mul_pos hpos (Nat.two_pow_pos _)
  lt := by
    have hlog := log2_le_of_lt hpos hlt
    calc n * 2 ^ (52 - n.log2) < 2 ^ (n.log2 + 1) * 2 ^ (52 - n.log2) :=
          Nat.mul_lt_mul_of_pos_right Nat.lt_log2_self (Nat.two_pow_pos _)
      _ = 2 ^ 53 := by
        rw [← pow_add]
        congr 1
        omega
  least := by
    simp only [ofNat]
    omega
  greatest := by
    have hlog := log2_le_of_lt hpos hlt
    simp only [ofNat]
    omega
  full := .inr (full_ofNat hpos hlt)

theorem value_ofNat {n : ℕ} (hpos : 0 < n) (hlt : n < 2 ^ 53) : (ofNat n).value = n := by
  have hlog := log2_le_of_lt hpos hlt
  have hexponent : ((n.log2 : ℤ) - 52) = -((52 - n.log2 : ℕ) : ℤ) := by omega
  unfold value ofNat
  rw [hexponent, zpow_neg, zpow_natCast]
  push_cast
  field_simp

end Binary

namespace Binary64

open Float.Model UnpackedFloat

theorem unpack_toFloat {n : ℕ} (hpos : 0 < n) (hlt : n < 2 ^ 53) :
    n.toUInt64.toFloat.toModel.unpack =
      .finite .positive (Binary.ofNat n).mantissa (Binary.ofNat n).exponent
        (Binary.canonical_ofNat hpos hlt).pos := by
  have hb := Binary.canonical_ofNat hpos hlt
  have hsize : n.toUInt64.toNat = n := by
    rw [Nat.toUInt64_eq, UInt64.toNat_ofNat']
    omega
  have hround : UnpackedFloat.ofNat Format.binary64 n =
      .finite .positive (Binary.ofNat n).mantissa (Binary.ofNat n).exponent hb.pos := by
    have hcompare : compare (n : ℤ) 0 = .gt := compare_gt_iff_gt.2 (by omega)
    have hlog := Binary.log2_le_of_lt hpos hlt
    have hmantissa : 52 ≤ (Binary.ofNat n).mantissa.log2 :=
      (Nat.le_log2 hb.pos.ne').2 (Binary.full_ofNat hpos hlt)
    have hshift : (0 - Format.binary64.targetExponent (totalExponent n 0)).toNat = 52 - n.log2 := by
      rw [targetExponent_eq, totalExponent]
      omega
    have hexponent : (0 - (52 - n.log2 : ℕ) : ℤ) = (Binary.ofNat n).exponent := by
      simp only [Binary.ofNat]
      omega
    unfold UnpackedFloat.ofNat UnpackedFloat.ofInt UnpackedFloat.normalize
    rw [hcompare]
    unfold UnpackedFloat.round decreaseExponent
    simp only [Int.toNat_natCast, hshift, hexponent, Nat.shiftLeft_eq]
    refine roundWithAccuracy_eq hb (Binary.attracts_value _) _ ?_ ?_
    · rw [Binary.value, mul_div_cancel_right₀ _ (two_zpow_pos _).ne']
      exact represents_exact _
    · change _ ≤ Format.binary64.targetExponent
        (totalExponent (Binary.ofNat n).mantissa (Binary.ofNat n).exponent)
      rw [targetExponent_eq, totalExponent]
      omega
  change (Float.Model.pack (UnpackedFloat.ofNat Format.binary64 n.toUInt64.toNat)).unpack = _
  rw [hsize, hround, unpack_pack_finite hb]

end Binary64

end FuzzyInference
