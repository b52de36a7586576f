import FuzzyInference.Proofs.Scalar.Magnitude

/-!
# Digits that read back

The number nearest to a decimal is computed as one product or quotient of exact
numbers, with a table of powers of ten for small decimals, and with whole numbers
of any size for the others. Either way it is the magnitude in whose interval the
decimal is.

The shortest digits of a magnitude are taken from its interval. A grid of
seventeen digits is finer than the interval, so digits are always found, and what
they are read as is the magnitude again.

Results:

* `toFloat_eq`: a decimal in the interval of a magnitude is read as it.
* `attracts_shortest`: the shortest digits are in the interval.
* `withSign_toFloat`: a number is read back from its sign and its shortest digits.
-/

namespace FuzzyInference

/-- The number that a decimal stands for. -/
def Decimal.value (d : Decimal) : ℚ := d.coefficient * 10 ^ d.exponent

/-! ## The nearest number -/

namespace Binary64

open Float.Model UnpackedFloat

/-- Whether a number is a power of ten. -/
def isPowerOfTen (n : ℕ) (x : Float) : Bool :=
  match x.toModel.unpack with
  | .finite .positive m e _ => decide (-52 ≤ e) && m * 2 ^ (e + 52).toNat == 10 ^ n * 2 ^ 52
  | _ => false

theorem unpack_of_isPowerOfTen {n : ℕ} {x : Float} (h : isPowerOfTen n x = true) :
    ∃ m e hm, x.toModel.unpack = .finite .positive m e hm ∧ (m * 2 ^ e : ℚ) = 10 ^ n := by
  unfold isPowerOfTen at h
  split at h
  · rename_i m e hm hx
    rw [Bool.and_eq_true, decide_eq_true_eq, beq_iff_eq] at h
    refine ⟨m, e, hm, hx, ?_⟩
    have hexponent : e = ((e + 52).toNat : ℤ) - 52 := by omega
    have hvalue : (m * 2 ^ (e + 52).toNat : ℚ) = 10 ^ n * 2 ^ 52 := by exact_mod_cast h.2
    rw [hexponent, zpow_sub₀ two_ne_zero, zpow_natCast, zpow_ofNat, mul_div_assoc', hvalue]
    norm_num
  · cases h

theorem isPowerOfTen_table :
    ∀ n : Fin 23, isPowerOfTen n Float.exactlyRepresentablePowersOfTen[n] = true := by
  decide +kernel

variable {b : Binary} {m n : ℕ}

/-- A small decimal is one product or quotient of exact numbers. -/
theorem ofScientific_small (hb : b.Canonical) (hm : 0 < m) (hlt : m < 2 ^ 53) (hn : n ≤ 22)
    (negative : Bool) (hq : b.Attracts (m * 10 ^ (if negative then -n else n : ℤ))) :
    Float.ofScientific m negative n = ofMagnitude b hb.pos := by
  obtain ⟨p, f, hp, hpower, hvalue⟩ := unpack_of_isPowerOfTen (isPowerOfTen_table ⟨n, by omega⟩)
  have hcoefficient := unpack_toFloat hm hlt
  have hexact := Binary.value_ofNat hm hlt
  unfold Binary.value at hexact
  unfold Float.ofScientific
  rw [dif_pos ⟨hlt, hn⟩]
  cases negative with
  | false =>
    change Float.ofModel (.pack (UnpackedFloat.mul Format.binary64 m.toUInt64.toFloat.toModel.unpack
      Float.exactlyRepresentablePowersOfTen[(⟨n, by omega⟩ : Fin 23)].toModel.unpack)) = _
    rw [hcoefficient, hpower, mul_eq hb hq _ _ (Binary.full_ofNat hm hlt)]
    · rfl
    · rw [hexact, hvalue]
      simp
  | true =>
    change Float.ofModel (.pack (UnpackedFloat.div Format.binary64 m.toUInt64.toFloat.toModel.unpack
      Float.exactlyRepresentablePowersOfTen[(⟨n, by omega⟩ : Fin 23)].toModel.unpack)) = _
    rw [hcoefficient, hpower, div_eq hb hq]
    · rfl
    · rw [hexact, hvalue]
      simp [div_eq_mul_inv]

/-- A decimal with a great exponent is above all magnitudes. -/
theorem le_scientific (hm : 0 < m) {e : ℤ} (he : e > 2 ^ 11) :
    2 ^ (1024 : ℤ) ≤ (m * 10 ^ e : ℚ) := by
  have hmpos : (1 : ℚ) ≤ m := by exact_mod_cast hm
  calc (2 : ℚ) ^ (1024 : ℤ) ≤ 2 ^ e := zpow_le_zpow_right₀ one_le_two (by omega)
    _ ≤ 10 ^ e := zpow_le_zpow_left₀ (by omega) (by norm_num) (by norm_num)
    _ ≤ m * 10 ^ e := le_mul_of_one_le_left (zpow_pos (by norm_num) e).le hmpos

/-- A decimal with a small exponent is below half of the smallest magnitude. -/
theorem scientific_lt (m : ℕ) {e : ℤ} (he : e < -(2 ^ 11 + (m.log2 : ℤ))) :
    (m * 10 ^ e : ℚ) < 2 ^ (-1075 : ℤ) := by
  have hbase : (10 : ℚ) ^ e ≤ 2 ^ e := by
    obtain ⟨k, rfl⟩ : ∃ k : ℕ, e = -(k : ℤ) := ⟨(-e).toNat, by omega⟩
    rw [zpow_neg, zpow_neg, zpow_natCast, zpow_natCast]
    exact inv_anti₀ (by positivity) (pow_le_pow_left₀ (by norm_num) (by norm_num) k)
  calc (m * 10 ^ e : ℚ) ≤ m * 2 ^ e := mul_le_mul_of_nonneg_left hbase (Nat.cast_nonneg m)
    _ < 2 ^ (m.log2 + 1) * 2 ^ e := by
      refine mul_lt_mul_of_pos_right ?_ (two_zpow_pos e)
      exact_mod_cast Nat.lt_log2_self
    _ = 2 ^ ((m.log2 + 1 : ℕ) + e : ℤ) := by rw [zpow_add₀ two_ne_zero, zpow_natCast]
    _ ≤ 2 ^ (-1075 : ℤ) := zpow_le_zpow_right₀ one_le_two (by push_cast; omega)

/-- Every other decimal is a product or quotient of two whole numbers. -/
theorem unpackedScientific_eq (hb : b.Canonical) (hm : 0 < m) {e : ℤ}
    (hq : b.Attracts (m * 10 ^ e)) :
    UnpackedFloat.ofScientific Format.binary64 m e =
      .finite .positive b.mantissa b.exponent hb.pos := by
  have hlarge : ¬ e > 2 ^ 11 := fun he => (hq.lt_limit hb).not_ge (le_scientific hm he)
  have hsmall : ¬ e < -(2 ^ 11 + (m.log2 : ℤ)) := fun he => (hq.ge hb).not_gt (scientific_lt m he)
  unfold UnpackedFloat.ofScientific
  rw [dif_neg hm.ne', if_neg hlarge, if_neg hsmall]
  split_ifs with hsign
  · refine mul_eq hb hq _ _ ?_ ?_
    · rw [Nat.shiftLeft_eq]
      change 2 ^ 52 ≤ m * 2 ^ 53
      omega
    · obtain ⟨k, rfl⟩ := Int.eq_ofNat_of_zero_le hsign
      change (m * 10 ^ (k : ℤ) : ℚ) =
        ((m <<< 53 : ℕ) : ℚ) * 2 ^ (-53 : ℤ) * (((10 ^ k : ℕ) : ℚ) * 2 ^ (0 : ℤ))
      rw [Nat.shiftLeft_eq, zpow_neg, zpow_ofNat, zpow_zero, zpow_natCast]
      push_cast
      field_simp
      norm_num
  · refine div_eq hb hq _ _ ?_
    obtain ⟨k, hk⟩ : ∃ k : ℕ, e = -(k : ℤ) := ⟨(-e).toNat, by omega⟩
    subst hk
    rw [zpow_zero, neg_neg, Int.toNat_natCast, zpow_neg, zpow_natCast]
    push_cast
    field_simp

theorem ofScientific_eq (hb : b.Canonical) (hm : 0 < m) {e : ℤ} (hq : b.Attracts (m * 10 ^ e)) :
    Float.ofScientific m (decide (e < 0)) e.natAbs = ofMagnitude b hb.pos := by
  have hexponent : (if decide (e < 0) = true then -(e.natAbs : ℤ) else e.natAbs) = e := by
    by_cases he : e < 0
    · rw [if_pos (decide_eq_true he)]
      omega
    · rw [if_neg (by simpa using he)]
      omega
  by_cases hfast : m < 2 ^ 53 ∧ e.natAbs ≤ 22
  · refine ofScientific_small hb hm hfast.1 hfast.2 _ ?_
    rwa [hexponent]
  · unfold Float.ofScientific
    rw [dif_neg hfast]
    have hsame :
        (if decide (e < 0) = true then Int.negOfNat e.natAbs else Int.ofNat e.natAbs) = e := by
      rw [Int.negOfNat_eq]
      exact hexponent
    change Float.ofModel (.pack (UnpackedFloat.ofScientific Format.binary64 m
      (if decide (e < 0) = true then Int.negOfNat e.natAbs else Int.ofNat e.natAbs))) = _
    rw [hsame, unpackedScientific_eq hb hm hq]
    rfl

end Binary64

/-! ## Digits -/

namespace Decimal

theorem lt_digitCount (n : ℕ) : n < 10 ^ digitCount n :=
  (Nat.length_toDigits_le_iff (by norm_num) Nat.length_toDigits_pos).1 le_rfl

theorem digitCount_le {n : ℕ} (h : 0 < n) : 10 ^ (digitCount n - 1) ≤ n := by
  by_contra hlt
  rw [not_le] at hlt
  rcases Nat.eq_zero_or_pos (digitCount n - 1) with hone | hmore
  · rw [hone] at hlt
    omega
  · have hle : digitCount n ≤ digitCount n - 1 :=
      (Nat.length_toDigits_le_iff (by norm_num) hmore).2 hlt
    omega

variable {d : Decimal}

theorem value_lt (d : Decimal) : d.value < 10 ^ (d.magnitude + 1) := by
  have hexponent : d.magnitude + 1 = (digitCount d.coefficient : ℤ) + d.exponent := by
    unfold magnitude
    omega
  rw [hexponent, zpow_add₀ (by norm_num), zpow_natCast]
  refine mul_lt_mul_of_pos_right ?_ (zpow_pos (by norm_num) _)
  exact_mod_cast lt_digitCount d.coefficient

theorem le_value (h : 0 < d.coefficient) : 10 ^ d.magnitude ≤ d.value := by
  have hcount : 0 < digitCount d.coefficient := Nat.length_toDigits_pos
  have hexponent : d.magnitude = (digitCount d.coefficient - 1 : ℕ) + d.exponent := by
    unfold magnitude
    omega
  rw [hexponent, zpow_add₀ (by norm_num), zpow_natCast]
  refine mul_le_mul_of_nonneg_right ?_ (zpow_nonneg (by norm_num) _)
  exact_mod_cast digitCount_le h

end Decimal

/-- A decimal in the interval of a magnitude is nearest to it. -/
theorem Binary64.toFloat_eq {b : Binary} (hb : b.Canonical) {d : Decimal}
    (hd : b.Attracts d.value) : Numeral.toFloat d = ofMagnitude b hb.pos := by
  have hpos : 0 < d.coefficient := by
    rw [Nat.pos_iff_ne_zero]
    intro hzero
    have hvalue := hd.pos hb
    simp [Decimal.value, hzero] at hvalue
  have hlarge : ¬ 310 < d.magnitude := by
    intro h
    have hpower : (10 : ℚ) ^ (311 : ℤ) ≤ d.value :=
      (zpow_le_zpow_right₀ (by norm_num) h).trans (Decimal.le_value hpos)
    have hgap : (2 : ℚ) ^ (1024 : ℤ) < 10 ^ (311 : ℤ) := by
      have hnat : (2 : ℕ) ^ 1024 < 10 ^ 311 := by decide +kernel
      rw [zpow_ofNat, zpow_ofNat]
      exact_mod_cast hnat
    exact absurd (hpower.trans_lt (hd.lt_limit hb)) hgap.not_gt
  have hsmall : ¬ d.magnitude < -345 := by
    intro h
    have hpower : d.value < 10 ^ (-345 : ℤ) :=
      d.value_lt.trans_le (zpow_le_zpow_right₀ (by norm_num) (by omega))
    have hgap : (10 : ℚ) ^ (-345 : ℤ) < 2 ^ (-1075 : ℤ) := by
      have hnat : (2 : ℕ) ^ 1075 < 10 ^ 345 := by decide +kernel
      rw [zpow_neg, zpow_neg, zpow_ofNat, zpow_ofNat]
      exact inv_strictAnti₀ (by positivity) (by exact_mod_cast hnat)
    exact absurd ((hd.ge hb).trans_lt hpower) hgap.not_gt
  unfold Numeral.toFloat
  simp only
  rw [if_neg hpos.ne', if_neg hlarge, if_neg hsmall]
  exact ofScientific_eq hb hpos hd

/-! ## Shortest digits -/

theorem zpow_eq_div {a : ℚ} (ha : a ≠ 0) (e : ℤ) : a ^ e = a ^ e.toNat / a ^ (-e).toNat := by
  have hexponent : e = (e.toNat : ℤ) - ((-e).toNat : ℤ) := by omega
  conv_lhs => rw [hexponent]
  rw [zpow_sub₀ ha, zpow_natCast, zpow_natCast]

theorem Decimal.value_trim (d : Decimal) : d.trim.value = d.value := by
  by_cases hzero : d.coefficient = 0
  · simp [trim, value, hzero]
  · have hstrip := coefficient_trim_mul d hzero
    have hexponent : d.trim.exponent = d.exponent + ((stripZeros d.coefficient).2 : ℕ) := by
      rw [trim, if_neg hzero]
    have hvalue : (d.coefficient : ℚ) = d.trim.coefficient * 10 ^ (stripZeros d.coefficient).2 := by
      rw [← Nat.cast_ofNat, ← Nat.cast_pow, ← Nat.cast_mul]
      exact congrArg Nat.cast hstrip.symm
    unfold value
    rw [hexponent, zpow_add₀ (by norm_num), zpow_natCast, hvalue]
    ring

namespace Binary

variable {b : Binary}

theorem den_eq (b : Binary) : (b.den : ℚ) = 2 ^ (-b.exponent).toNat := by
  simp [den, scale]

theorem lower_interval (hm : 0 < b.mantissa) :
    (b.interval.lower : ℚ) = 4 * (b.mantissa - b.reach) * 2 ^ b.exponent.toNat := by
  simp only [interval, reach, scale, Nat.pow_eq]
  split_ifs
  · rw [Nat.cast_mul, Nat.cast_sub (by omega)]
    push_cast
    ring
  · rw [Nat.cast_mul, Nat.cast_sub (by omega)]
    push_cast
    ring

theorem upper_interval (b : Binary) :
    (b.interval.upper : ℚ) = 4 * (b.mantissa + 1 / 2) * 2 ^ b.exponent.toNat := by
  simp only [interval, scale, Nat.pow_eq]
  push_cast
  ring

/-- A decimal in units of the last place, as a quotient of natural numbers. -/
theorem value_div_eq (b : Binary) (c : ℕ) (p : ℤ) :
    Decimal.value ⟨c, p⟩ / 2 ^ b.exponent =
      c * 10 ^ p.toNat * 2 ^ (-b.exponent).toNat / (10 ^ (-p).toNat * 2 ^ b.exponent.toNat) := by
  unfold Decimal.value
  rw [zpow_eq_div (by norm_num) p, zpow_eq_div two_ne_zero b.exponent]
  field_simp

section

variable {bound : ℕ} {x : ℚ}

theorem bound_le_iff (hbound : (bound : ℚ) = 4 * x * 2 ^ b.exponent.toNat) (c : ℕ) (p : ℤ) :
    bound * 10 ^ (-p).toNat ≤ c * (4 * b.den * 10 ^ p.toNat) ↔
    x ≤ Decimal.value ⟨c, p⟩ / 2 ^ b.exponent := by
  rw [value_div_eq, le_div_iff₀ (by positivity), ← Nat.cast_le (α := ℚ)]
  push_cast
  rw [hbound, den_eq]
  constructor <;> intro h <;> linarith

theorem le_bound_iff (hbound : (bound : ℚ) = 4 * x * 2 ^ b.exponent.toNat) (c : ℕ) (p : ℤ) :
    c * (4 * b.den * 10 ^ p.toNat) ≤ bound * 10 ^ (-p).toNat ↔
    Decimal.value ⟨c, p⟩ / 2 ^ b.exponent ≤ x := by
  rw [value_div_eq, div_le_iff₀ (by positivity), ← Nat.cast_le (α := ℚ)]
  push_cast
  rw [hbound, den_eq]
  constructor <;> intro h <;> linarith

end

/-- The comparisons with the ends of the interval, in natural numbers. -/
theorem has_iff (hm : 0 < b.mantissa) (c : ℕ) (p : ℤ) :
    b.interval.has (Nat.pow 10 (-p).toNat) (c * (4 * b.den * Nat.pow 10 p.toNat)) = true ↔
      b.Attracts (Decimal.value ⟨c, p⟩) := by
  have hlowerle := bound_le_iff (lower_interval hm) c p
  have hlowerge := le_bound_iff (lower_interval hm) c p
  have hupperle := bound_le_iff b.upper_interval c p
  have hupperge := le_bound_iff b.upper_interval c p
  unfold Interval.has Attracts
  have hclosed : b.interval.closed = (b.mantissa % 2 == 0) := rfl
  rw [hclosed]
  rcases Nat.mod_two_eq_zero_or_one b.mantissa with heven | hodd
  · simp only [heven, Nat.pow_eq, BEq.rfl, if_true, Bool.and_eq_true, decide_eq_true_eq,
      hlowerle, hupperge]
    exact ⟨fun h => ⟨h.1, h.2, by omega⟩, fun h => ⟨h.lower, h.upper⟩⟩
  · have hne : (1 == 0) = false := rfl
    simp only [hodd, Nat.pow_eq, hne, Bool.false_eq_true, if_false, Bool.and_eq_true,
      decide_eq_true_eq]
    rw [← not_le, ← not_le, hlowerge, hupperle, not_le, not_le]
    exact ⟨fun h => ⟨h.1.le, h.2.le, fun _ => h⟩, fun h => h.inside hodd⟩

/-- A decimal that is found on a grid reads back. -/
theorem attracts_onGrid (hm : 0 < b.mantissa) {tie : Tie} {p : ℤ} {d : Decimal}
    (h : b.onGrid? tie p = some d) : b.Attracts d.value := by
  unfold onGrid? overPower at h
  simp only at h
  generalize 4 * b.num * Nat.pow 10 (-p).toNat = n at h
  split_ifs at h with hboth hlow hhigh
  · cases h
    rw [Bool.and_eq_true, has_iff hm, has_iff hm] at hboth
    have hle := le_roundQuotient tie n (4 * b.den * Nat.pow 10 p.toNat)
    have hge := roundQuotient_le tie n (4 * b.den * Nat.pow 10 p.toNat)
    rcases Nat.lt_or_ge (n / (4 * b.den * Nat.pow 10 p.toNat))
      (roundQuotient tie n (4 * b.den * Nat.pow 10 p.toNat))
      with hlt | hle'
    · rw [le_antisymm hge hlt]
      exact hboth.2
    · rw [le_antisymm hle' hle]
      exact hboth.1
  · cases h
    exact (has_iff hm _ _).1 hlow
  · cases h
    exact (has_iff hm _ _).1 hhigh

theorem value_eq_div (b : Binary) : b.value = b.num / b.den := by
  simp only [value, num, den, scale, Nat.pow_eq]
  rw [zpow_eq_div two_ne_zero]
  push_cast
  ring

/-- The place of a number on a grid of decimals is a quotient of natural numbers. -/
theorem quotient_mul_zpow (b : Binary) (p : ℤ) :
    ((4 * b.num * Nat.pow 10 (-p).toNat : ℕ) / (4 * b.den * Nat.pow 10 p.toNat : ℕ) : ℚ) * 10 ^
      p = b.value := by
  have hden : (b.den : ℚ) ≠ 0 := by
    rw [den_eq]
    positivity
  rw [value_eq_div, zpow_eq_div (by norm_num) p]
  simp only [Nat.pow_eq]
  push_cast
  field_simp

/-- On a grid that is fine enough one of the two neighbours of a mantissa is nearest
    to it. -/
theorem near_neighbour (hb : b.Canonical) {step : ℚ} (hpos : 0 < step)
    (hfine : step * 10 ^ 16 ≤ b.mantissa) {low : ℕ} (hbelow : low * step ≤ b.mantissa)
    (habove : b.mantissa < (low + 1) * step) :
    Near b.reach b.mantissa (low * step) ∨ Near b.reach b.mantissa ((low + 1) * step) := by
  by_cases hclose : b.hasCloseLower = true
  · -- just below a power of two the interval is shorter, but the upper neighbour is near
    have hexact : b.mantissa = 2 ^ 52 := by simp_all [hasCloseLower]
    have hreach : b.reach = 1 / 4 := by rw [reach, if_pos hclose]
    rw [hexact] at hfine hbelow habove ⊢
    rw [hreach]
    norm_num at hfine hbelow habove ⊢
    exact .inr (near_of_lt (by norm_num; linarith) (by norm_num; linarith))
  · have hreach : b.reach = 1 / 2 := by rw [reach, if_neg hclose]
    have hlt : (b.mantissa : ℚ) < 2 ^ 53 := by exact_mod_cast hb.lt
    rw [hreach]
    rcases le_or_gt (b.mantissa - low * step) (step / 2) with hnear | hfar
    · exact .inl (near_of_lt (by linarith) (by linarith))
    · exact .inr (near_of_lt (by linarith) (by linarith))

/-- Where seventeen digits are taken, one of the two neighbours on the grid reads
    back. -/
theorem isSome_onGrid (hb : b.Canonical) (tie : Tie) {p : ℤ} (hp : 10 ^ (p + 16) ≤ b.value) :
    (b.onGrid? tie p).isSome = true := by
  have hplace := b.quotient_mul_zpow p
  have hunit : 0 < 4 * b.den * Nat.pow 10 p.toNat :=
    Nat.mul_pos (Nat.mul_pos (by norm_num) (Nat.pow_pos (by norm_num))) (Nat.pow_pos (by norm_num))
  have hhas := has_iff hb.pos (p := p)
  unfold onGrid? overPower
  simp only
  generalize 4 * b.num * Nat.pow 10 (-p).toNat = n at *
  generalize 4 * b.den * Nat.pow 10 p.toNat = d at *
  have hfits : b.Attracts (Decimal.value ⟨n / d, p⟩) ∨
      b.Attracts (Decimal.value ⟨n / d + 1, p⟩) := by
    have htwo := Binary64.two_zpow_pos b.exponent
    -- `step` is the distance of two neighbours, in units of the last place
    obtain ⟨step, hstep⟩ : ∃ step : ℚ, step = 10 ^ p / 2 ^ b.exponent := ⟨_, rfl⟩
    have hpos : 0 < step := hstep ▸ div_pos (zpow_pos (by norm_num) p) htwo
    have hmantissa : (n / d : ℚ) * step = b.mantissa := by
      rw [hstep, mul_div_assoc', hplace, value, mul_div_cancel_right₀ _ htwo.ne']
    have hfine : step * 10 ^ 16 ≤ b.mantissa := by
      rw [zpow_add₀ (by norm_num), zpow_ofNat, value] at hp
      rw [hstep, div_mul_eq_mul_div, div_le_iff₀ htwo]
      exact hp
    have hvalue : ∀ c : ℕ, Decimal.value ⟨c, p⟩ / 2 ^ b.exponent = c * step := by
      intro c
      rw [Decimal.value, hstep, mul_div_assoc]
    have hfloor : ((n / d : ℕ) : ℚ) ≤ n / d := Nat.cast_div_le
    have hceil : (n / d : ℚ) < (n / d : ℕ) + 1 := by
      rw [div_lt_iff₀ (by exact_mod_cast hunit)]
      exact_mod_cast (Nat.div_lt_iff_lt_mul hunit).1 (Nat.lt_succ_self _)
    unfold Attracts
    rw [hvalue, hvalue, Nat.cast_add_one]
    exact near_neighbour hb hpos hfine (hmantissa ▸ mul_le_mul_of_nonneg_right hfloor hpos.le)
      (hmantissa ▸ mul_lt_mul_of_pos_right hceil hpos)
  split_ifs with hboth hlow hhigh
  · rfl
  · rfl
  · rfl
  · rw [hhas] at hlow hhigh
    exact absurd hfits (not_or.2 ⟨hlow, hhigh⟩)

/-- The power of ten of the leading digit is not above the number. -/
theorem leadingPower_le {n d : ℕ} (hn : 0 < n) (hd : 0 < d) :
    (10 : ℚ) ^ leadingPower n d ≤ n / d := by
  have hdpos : (0 : ℚ) < d := by exact_mod_cast hd
  have hnpos : (0 : ℚ) < n := by exact_mod_cast hn
  unfold leadingPower
  split_ifs with hle
  · have hquotient : 0 < n / d := Nat.div_pos hle hd
    have hcount : 0 < Decimal.digitCount (n / d) := Nat.length_toDigits_pos
    have hexponent : (Decimal.digitCount (n / d) : ℤ) - 1 =
        (Decimal.digitCount (n / d) - 1 : ℕ) := by omega
    rw [hexponent, zpow_natCast]
    calc (10 : ℚ) ^ (Decimal.digitCount (n / d) - 1) ≤ (n / d : ℕ) := by
          exact_mod_cast Decimal.digitCount_le hquotient
      _ ≤ n / d := Nat.cast_div_le
  · have hlt := Decimal.lt_digitCount ((d + n - 1) / n - 1)
    have hceil : d ≤ n * 10 ^ Decimal.digitCount ((d + n - 1) / n - 1) := by
      have hmul := Nat.div_add_mod (d + n - 1) n
      have hmod := Nat.mod_lt (d + n - 1) hn
      have hbound : (d + n - 1) / n ≤ 10 ^ Decimal.digitCount ((d + n - 1) / n - 1) := by omega
      have hgrow := Nat.mul_le_mul_left n hbound
      omega
    rw [zpow_neg, zpow_natCast, inv_le_comm₀ (by positivity) (div_pos hnpos hdpos), inv_div,
      div_le_iff₀ hnpos, mul_comm]
    exact_mod_cast hceil

/-- The shortest digits of a magnitude read back. -/
theorem attracts_shortest (hb : b.Canonical) (tie : Tie) : b.Attracts (b.shortest tie).value := by
  have hnum : 0 < b.num := Nat.mul_pos hb.pos (Nat.pow_pos (by norm_num))
  have hden : 0 < b.den := Nat.pow_pos (by norm_num)
  have hsome : ((List.range 17).findSome? fun count : ℕ =>
      b.onGrid? tie (leadingPower b.num b.den - (count : ℤ))).isSome = true := by
    rw [List.findSome?_isSome_iff]
    refine ⟨16, List.mem_range.2 (by norm_num), isSome_onGrid hb tie ?_⟩
    rw [value_eq_div]
    push_cast
    rw [sub_add_cancel]
    exact leadingPower_le hnum hden
  obtain ⟨d, hfound⟩ := Option.isSome_iff_exists.1 hsome
  obtain ⟨count, -, hd⟩ := List.exists_of_findSome?_eq_some hfound
  unfold shortest
  simp only
  rw [if_neg hb.pos.ne', hfound, Option.getD_some, Decimal.value_trim]
  exact attracts_onGrid hb.pos hd

end Binary

namespace Binary64

/-- A number is read back from its sign and its shortest digits, however these are
    written. -/
theorem withSign_toFloat {x : Float} (hdefined : x.isNaN = false)
    (hfinite : x.isInf = false) {tie : Tie} {d : Decimal}
    (hd : d.value = ((Binary.ofFloat x).shortest tie).value) :
    Numeral.withSign (Binary.signBit x) (Numeral.toFloat d) = x := by
  rcases unpack_cases hdefined with hx | ⟨hx, hmantissa⟩ | ⟨hb, hx⟩
  · have hinf : x.isInf = x.toModel.unpack.isInf := rfl
    rw [hinf, hx] at hfinite
    cases hfinite
  · have hshortest : (Binary.ofFloat x).shortest tie = ⟨0, 0⟩ := by
      rw [Binary.shortest, if_pos hmantissa]
    have hcoefficient : d.coefficient = 0 := by
      have hzero : (d.coefficient * 10 ^ d.exponent : ℚ) = 0 := by
        rw [hshortest] at hd
        simpa [Decimal.value] using hd
      exact_mod_cast (mul_eq_zero.1 hzero).resolve_right (zpow_ne_zero _ (by norm_num))
    have hpacked := pack_unpack_model x
    rw [hx] at hpacked
    unfold Numeral.toFloat
    rw [if_pos hcoefficient, ← hpacked]
    unfold sign
    cases Binary.signBit x <;> rfl
  · rw [toFloat_eq hb (hd ▸ Binary.attracts_shortest hb tie)]
    exact withSign_ofMagnitude hb hx

/-- An infinite number is read back from its sign. -/
theorem withSign_infinity {x : Float} (h : x.isInf = true) :
    Numeral.withSign (Binary.signBit x) (1.0 / 0.0 : Float) = x := by
  have hinf : x.isInf = x.toModel.unpack.isInf := rfl
  rw [hinf] at h
  cases hx : x.toModel.unpack with
  | infinity s =>
    have hpacked := pack_unpack_model x
    rw [hx, eq_sign_of_infinity hx] at hpacked
    rw [← hpacked]
    unfold sign
    cases Binary.signBit x <;> rfl
  | notANumber | zero | finite =>
    rw [hx] at h
    cases h

end Binary64

end FuzzyInference
