import FuzzyInference.Proofs.Scalar.Finiteness

/-!
# Texts of numbers without a sign

A number that is defined and has no sign has a clear sign bit, so no sign is
written for it. Inside messages it is written with digits and at most one point,
at every size, unless it is infinite.

Results:

* `signBit_of_isUnsigned` and `signBit_toFloat`: the sign bits of numbers without
  a sign, and of decimals.
* `isPlain_positional`: positional digits are digits with at most one point.
* `text_of_unsigned`: the text of a number without a sign.
-/

namespace FuzzyInference

namespace Binary64

open Float.Model UnpackedFloat

/-! ## The sign bit -/

theorem getLsbD_unpackSign (b : BitVec Format.binary64.numBits) :
    (unpackSign b).getLsbD 0 = b.getLsbD 63 := by
  unfold unpackSign
  rw [BitVec.getLsbD_cast]
  change (BitVec.extractLsb 63 63 b).getLsbD 0 = b.getLsbD 63
  rw [BitVec.getLsbD_extractLsb]
  simp

theorem pack_unpack_bits (x : Float) :
    UnpackedFloat.pack Format.binary64 x.toModel.unpack = x.toBits.toBitVec :=
  congrArg (fun y : Float => y.toBits.toBitVec) (pack_unpack_model x)

/-- The sign bit of a number without a sign is clear. -/
theorem signBit_of_isUnsigned {x : Float} (h : isUnsigned x.toModel.unpack = true) :
    Binary.signBit x = false := by
  have hclear : x.toBits.toBitVec.getLsbD 63 = false := by
    rw [← pack_unpack_bits]
    refine (getLsbD_unpackSign _).symm.trans ?_
    rw [unpackSign_pack h]
    rfl
  have hshifted : (x.toBits >>> 63).toBitVec.getLsbD 0 = x.toBits.toBitVec.getLsbD 63 := by
    rw [UInt64.toBitVec_shiftRight]
    change (x.toBits.toBitVec >>> 63).getLsbD 0 = x.toBits.toBitVec.getLsbD 63
    rw [BitVec.getLsbD_ushiftRight]
  rw [← Bool.not_eq_true]
  intro hset
  have hone : x.toBits >>> 63 = 1 := by simpa [Binary.signBit] using hset
  rw [hone, hclear] at hshifted
  exact absurd hshifted (by decide)

theorem signBit_toFloat (d : Decimal) : Binary.signBit (Numeral.toFloat d) = false :=
  signBit_of_isUnsigned (isUnsigned_toFloat d)

end Binary64

/-! ## Texts -/

/-- Digits with at most one point, a digit first. -/
inductive IsPlain : List Char → Prop
  | whole {c : Char} {ds : List Char} :
      c.isDigit = true → ds.all Char.isDigit = true → IsPlain (c :: ds)
  | point {c : Char} {ds es : List Char} : c.isDigit = true → ds.all Char.isDigit = true →
      es.all Char.isDigit = true → IsPlain (c :: (ds ++ '.' :: es))

theorem IsPlain.isDigit_head {cs : List Char} (h : IsPlain cs) :
    ∀ c ∈ cs.head?, c.isDigit = true := by
  cases h with
  | whole hc _ =>
    rintro _ ⟨⟩
    exact hc
  | point hc _ _ =>
    rintro _ ⟨⟩
    exact hc

theorem IsPlain.ne_infinity {s : String} (h : IsPlain s.toList) : s ≠ "inf" := by
  rintro rfl
  exact absurd (h.isDigit_head 'i' rfl) (by decide)

namespace Decimal

theorem all_digits (n : ℕ) : (digits n).all Char.isDigit = true :=
  List.all_eq_true.2 fun _ hc => Nat.isDigit_of_mem_toDigits (by decide) (by decide) hc

theorem all_append {cs ds : List Char} (hcs : cs.all Char.isDigit = true)
    (hds : ds.all Char.isDigit = true) : (cs ++ ds).all Char.isDigit = true := by
  rw [List.all_append, hcs, hds]
  rfl

theorem all_zeros (n : ℕ) : (zeros n).all Char.isDigit = true := by
  rw [List.all_eq_true]
  intro c hc
  rw [List.eq_of_mem_replicate hc]
  rfl

theorem isPlain_positional (d : Decimal) : IsPlain d.positional := by
  have hdigits := all_digits d.coefficient
  obtain ⟨c, ds, hcons⟩ :=
    List.exists_cons_of_ne_nil (Nat.toDigits_ne_nil (n := d.coefficient) (b := 10))
  have hcons : digits d.coefficient = c :: ds := hcons
  rw [hcons, List.all_cons, Bool.and_eq_true] at hdigits
  obtain ⟨hc, hds⟩ := hdigits
  unfold positional
  simp only [hcons]
  split_ifs with hzero hwhole hplaces
  · exact .whole rfl rfl
  · exact .whole hc (all_append hds (all_zeros _))
  · -- the point stands behind at least one digit
    obtain ⟨k, hk⟩ : ∃ k, (c :: ds).length - (-d.exponent).toNat = k + 1 :=
      Nat.exists_eq_succ_of_ne_zero (by omega)
    rw [hk, List.take_succ_cons, List.drop_succ_cons]
    rw [← List.take_append_drop k ds, List.all_append, Bool.and_eq_true] at hds
    exact .point hc hds.1 hds.2
  · have hall : (c :: ds).all Char.isDigit = true := by
      rw [List.all_cons, hc, hds]
      rfl
    change IsPlain ('0' :: ([] ++ '.' :: (zeros _ ++ c :: ds)))
    exact .point rfl rfl (all_append (all_zeros _) hall)

end Decimal

/-- A defined number without a sign is written as infinity or with digits and at
    most one point. -/
theorem Binary64.text_of_unsigned {x : Float} (hsign : Binary.signBit x = false)
    (hdefined : x.isNaN = false) : Scalar.text x = "inf" ∨ IsPlain (Scalar.text x).toList := by
  change FloatText.message.write x = "inf" ∨ IsPlain (FloatText.message.write x).toList
  unfold FloatText.write
  rw [hdefined, hsign]
  cases hinf : x.isInf with
  | true => exact .inl (by simp [FloatText.message])
  | false =>
    right
    have hplain := ((Binary.ofFloat x).shortest FloatText.message.tie).isPlain_positional
    simpa [FloatText.magnitude, FloatText.message] using hplain

end FuzzyInference
