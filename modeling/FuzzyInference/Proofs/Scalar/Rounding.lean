import FuzzyInference.Proofs.Scalar.Finiteness
import FuzzyInference.Decimal.Basic

/-!
# Rounding to 64-bit numbers

A 64-bit operation computes a mantissa with two residual bits, which say in which
half of the next unit the exact result lies, or at which end of it. Shifting keeps
what the bits say, so the mantissa that is rounded in the end is a whole number
nearest to the exact result. The numbers that are rounded to one magnitude are
those of an interval, whose ends are half a unit away, and only a quarter below a
power of two.

Results:

* `represents_shiftRight` and `near_roundedMantissa`: shifting and rounding a mantissa.
* `roundWithAccuracy_eq`: a number of the interval of a magnitude is rounded to it.
* `mul_eq` and `div_eq`: a product or quotient in the interval of a magnitude.
-/

namespace FuzzyInference

/-- A number is rounded to a whole one: it is at most half a unit above it and at
    most `below` under it, and at neither end if the whole number is odd. -/
structure Near (below : ℚ) (n : ℕ) (x : ℚ) : Prop where
  lower : n - below ≤ x
  upper : x ≤ n + 1 / 2
  inside : n % 2 = 1 → n - below < x ∧ x < n + 1 / 2

theorem Near.eq {m n : ℕ} {x : ℚ} (hm : Near (1 / 2) m x) (hn : Near (1 / 2) n x) : m = n := by
  -- neighbours cannot both be even, and others are too far apart
  have hle : ∀ {m n : ℕ}, Near (1 / 2) m x → Near (1 / 2) n x → m ≤ n := by
    intro m n hm hn
    by_contra hlt
    rw [not_le] at hlt
    have hnext : (n : ℚ) + 1 ≤ m := by exact_mod_cast hlt
    have hlower := hm.lower
    have hupper := hn.upper
    have hsame : (m : ℚ) = n + 1 := by linarith
    have hsame : m = n + 1 := by exact_mod_cast hsame
    rcases Nat.mod_two_eq_zero_or_one n with heven | hodd
    · have hodd : m % 2 = 1 := by omega
      linarith [(hm.inside hodd).1]
    · linarith [(hn.inside hodd).2]
  exact le_antisymm (hle hm hn) (hle hn hm)

theorem Near.mono {below below' : ℚ} {n : ℕ} {x : ℚ} (hbelow : below ≤ below')
    (h : Near below n x) :
    Near below' n x where
  lower := by linarith [h.lower]
  upper := h.upper
  inside hodd := ⟨by linarith [(h.inside hodd).1], (h.inside hodd).2⟩

theorem near_of_lt {below : ℚ} {n : ℕ} {x : ℚ} (hlower : n - below < x) (hupper : x < n + 1 / 2) :
    Near below n x :=
  ⟨hlower.le, hupper.le, fun _ => ⟨hlower, hupper⟩⟩

namespace Binary64

open Float.Model UnpackedFloat

/-! ## Residual bits -/

/-- The mantissa with its round bit. -/
def halves (em : ExtendedMantissa) : ℚ := em.mantissa + if em.roundBit then 1 / 2 else 0

/-- A mantissa and its residual bits say where a number lies. -/
def Represents (em : ExtendedMantissa) (x : ℚ) : Prop :=
  if em.stickyBit then halves em < x ∧ x < halves em + 1 / 2 else x = halves em

theorem Represents.bounds {em : ExtendedMantissa} {x : ℚ} (h : Represents em x) :
    (em.mantissa : ℚ) ≤ x ∧ x < em.mantissa + 1 := by
  obtain ⟨m, r, s⟩ := em
  cases r <;> cases s <;> simp [Represents, halves] at h ⊢ <;> constructor <;> linarith

theorem represents_shiftRightOne {em : ExtendedMantissa} {x : ℚ} (h : Represents em x) :
    Represents em.shiftRightOne (x / 2) := by
  have hhalves : halves em.shiftRightOne = em.mantissa / 2 := by
    have hdiv := congrArg (Nat.cast (R := ℚ)) (Nat.div_add_mod em.mantissa 2)
    push_cast at hdiv
    rcases Nat.mod_two_eq_zero_or_one em.mantissa with hmod | hmod
    · rw [hmod] at hdiv
      simp only [halves, ExtendedMantissa.shiftRightOne, hmod]
      push_cast at hdiv ⊢
      simp
      linarith
    · rw [hmod] at hdiv
      simp only [halves, ExtendedMantissa.shiftRightOne, hmod]
      push_cast at hdiv ⊢
      simp
      linarith
  unfold Represents
  rw [hhalves]
  obtain ⟨m, r, s⟩ := em
  cases r <;> cases s <;> simp [Represents, halves, ExtendedMantissa.shiftRightOne] at h ⊢ <;>
    first | linarith | (constructor <;> linarith)

theorem represents_shiftRight {em : ExtendedMantissa} {x : ℚ} (h : Represents em x) (n : ℕ) :
    Represents (em >>> n) (x / 2 ^ n) := by
  induction n with
  | zero =>
    rw [pow_zero, div_one]
    exact h
  | succ n ih =>
    rw [pow_succ, div_mul_eq_div_div]
    exact represents_shiftRightOne ih

theorem near_roundedMantissa {em : ExtendedMantissa} {x : ℚ} (h : Represents em x) :
    Near (1 / 2) em.roundedMantissa x := by
  obtain ⟨m, r, s⟩ := em
  have hodd : (m + 1) % 2 = 1 → m % 2 = 0 := by omega
  cases r <;> cases s <;>
    simp [Represents, halves, ExtendedMantissa.roundedMantissa, ExtendedMantissa.accuracy,
      Accuracy.roundToNearestEven] at h ⊢
  · exact ⟨by linarith, by linarith, fun _ => ⟨by linarith, by linarith⟩⟩
  · exact ⟨by linarith, by linarith, fun _ => ⟨by linarith, by linarith⟩⟩
  · -- a half goes to the even neighbour
    rcases Nat.mod_two_eq_zero_or_one m with hmod | hmod
    · rw [hmod]
      exact ⟨by push_cast; linarith, by push_cast; linarith, fun hodd => by omega⟩
    · rw [hmod]
      exact ⟨by push_cast; linarith, by push_cast; linarith, fun hodd => by omega⟩
  · have hnext : ((m + 1 : ℕ) : ℚ) = m + 1 := Nat.cast_succ m
    exact ⟨by linarith, by linarith, fun _ => ⟨by linarith, by linarith⟩⟩

/-! ## The target exponent -/

theorem two_zpow_pos (e : ℤ) : (0 : ℚ) < 2 ^ e := zpow_pos two_pos e

theorem represents_shiftToTargetExponent {m : ℕ} {e : ℤ} {a : Accuracy} {q : ℚ}
    (h : Represents (.ofMantissaAndAccuracy m a) (q / 2 ^ e))
    (he : e ≤ Format.binary64.targetExponent (totalExponent m e)) :
    Represents (shiftToTargetExponent Format.binary64 m e a).1
        (q / 2 ^ Format.binary64.targetExponent (totalExponent m e)) ∧
      (shiftToTargetExponent Format.binary64 m e a).2 =
        Format.binary64.targetExponent (totalExponent m e) := by
  generalize ht : Format.binary64.targetExponent (totalExponent m e) = t at he ⊢
  obtain ⟨k, rfl⟩ := Int.le.dest he
  have hshift : (e + k - e).toNat = k := by omega
  unfold shiftToTargetExponent shiftToExponent
  simp only [ht, hshift]
  rw [zpow_add₀ two_ne_zero, zpow_natCast, div_mul_eq_div_div]
  exact ⟨represents_shiftRight h k, trivial⟩

/-- A number has 53 bits before the target exponent, or fewer at the smallest
    exponent. -/
theorem targetExponent_bounds {m : ℕ} {e : ℤ} {a : Accuracy} {q : ℚ}
    (h : Represents (.ofMantissaAndAccuracy m a) (q / 2 ^ e))
    (he : e ≤ Format.binary64.targetExponent (totalExponent m e)) :
    -1074 ≤ Format.binary64.targetExponent (totalExponent m e) ∧
      (Format.binary64.targetExponent (totalExponent m e) = -1074 ∨
        2 ^ (Format.binary64.targetExponent (totalExponent m e) + 52) ≤ q) ∧
      q < 2 ^ (Format.binary64.targetExponent (totalExponent m e) + 53) := by
  obtain ⟨hlow, hhigh⟩ := h.bounds
  rw [mantissa_ofMantissaAndAccuracy] at hlow hhigh
  rw [le_div_iff₀ (two_zpow_pos e)] at hlow
  rw [div_lt_iff₀ (two_zpow_pos e)] at hhigh
  simp only [targetExponent_eq, totalExponent] at he ⊢
  have hbelow : q < 2 ^ ((m.log2 : ℤ) + 1 + e) := by
    refine hhigh.trans_le ?_
    rw [zpow_add₀ two_ne_zero]
    refine mul_le_mul_of_nonneg_right ?_ (two_zpow_pos e).le
    exact_mod_cast Nat.succ_le_of_lt (Nat.lt_log2_self (n := m))
  refine ⟨by omega, ?_, hbelow.trans_le (zpow_le_zpow_right₀ one_le_two (by omega))⟩
  rcases Nat.eq_zero_or_pos m with rfl | hm
  · exact .inl (by simp at he ⊢; omega)
  · rcases le_or_gt ((m.log2 : ℤ) + 1 + e - 53) (-1074) with hsmall | hlarge
    · exact .inl (by omega)
    · right
      have hfirst : max ((m.log2 : ℤ) + 1 + e - 53) (-1074) + 52 = m.log2 + e := by omega
      rw [hfirst, zpow_add₀ two_ne_zero]
      refine le_trans (mul_le_mul_of_nonneg_right ?_ (two_zpow_pos e).le) hlow
      exact_mod_cast Nat.log2_self_le hm.ne'

end Binary64

/-! ## Magnitudes -/

namespace Binary

/-- The magnitudes of 64-bit numbers other than zero: 53 bits, or fewer at the
    smallest exponent. -/
structure Canonical (b : Binary) : Prop where
  pos : 0 < b.mantissa
  lt : b.mantissa < 2 ^ 53
  least : -1074 ≤ b.exponent
  greatest : b.exponent ≤ 971
  full : b.exponent = -1074 ∨ 2 ^ 52 ≤ b.mantissa

/-- The number that a magnitude stands for. -/
def value (b : Binary) : ℚ := b.mantissa * 2 ^ b.exponent

/-- How far down the numbers reach that are rounded to a magnitude, in units of its
    last place. -/
def reach (b : Binary) : ℚ := if b.hasCloseLower then 1 / 4 else 1 / 2

/-- A number is in the interval of those that are rounded to a magnitude. -/
def Attracts (b : Binary) (q : ℚ) : Prop := Near b.reach b.mantissa (q / 2 ^ b.exponent)

variable {b : Binary} {q : ℚ}

theorem reach_le (b : Binary) : b.reach ≤ 1 / 2 := by
  unfold reach
  split <;> norm_num

theorem Attracts.near (h : b.Attracts q) : Near (1 / 2) b.mantissa (q / 2 ^ b.exponent) :=
  h.mono b.reach_le

theorem Attracts.pos (h : b.Attracts q) (hb : b.Canonical) : 0 < q := by
  have hlower := h.near.lower
  have hmantissa : (1 : ℚ) ≤ b.mantissa := by exact_mod_cast hb.pos
  have hq : 0 < q / 2 ^ b.exponent := by linarith
  exact (div_pos_iff_of_pos_right (Binary64.two_zpow_pos _)).1 hq

theorem attracts_value (b : Binary) : b.Attracts b.value := by
  have hreach : 0 < b.reach := by
    unfold reach
    split <;> norm_num
  have hvalue : b.value / 2 ^ b.exponent = b.mantissa :=
    mul_div_cancel_right₀ _ (Binary64.two_zpow_pos _).ne'
  unfold Attracts
  rw [hvalue]
  exact ⟨by linarith, by linarith, fun _ => ⟨by linarith, by linarith⟩⟩

/-- The numbers that are rounded to a magnitude are not below half of the smallest
    one. -/
theorem Attracts.ge (h : b.Attracts q) (hb : b.Canonical) : 2 ^ (-1075 : ℤ) ≤ q := by
  have hlower := h.near.lower
  have hmantissa : (1 : ℚ) ≤ b.mantissa := by exact_mod_cast hb.pos
  have hhalf : (1 / 2 : ℚ) ≤ q / 2 ^ b.exponent := by linarith
  rw [le_div_iff₀ (Binary64.two_zpow_pos _)] at hhalf
  have hleast : (2 : ℚ) ^ (-1074 : ℤ) ≤ 2 ^ b.exponent := zpow_le_zpow_right₀ one_le_two hb.least
  have hsplit : (2 : ℚ) ^ (-1075 : ℤ) = 1 / 2 * 2 ^ (-1074 : ℤ) := by
    rw [show (-1075 : ℤ) = -1 + -1074 by norm_num, zpow_add₀ two_ne_zero]
    norm_num
  linarith

/-- The numbers that are rounded to a magnitude stay below the next power of two. -/
theorem Attracts.lt (h : b.Attracts q) (hb : b.Canonical) : q < 2 ^ (b.exponent + 53) := by
  have hupper := h.upper
  have hmantissa : (b.mantissa : ℚ) + 1 ≤ 2 ^ 53 := by exact_mod_cast Nat.succ_le_of_lt hb.lt
  have hq : q / 2 ^ b.exponent < 2 ^ (53 : ℤ) := by
    rw [zpow_ofNat]
    linarith
  rw [div_lt_iff₀ (Binary64.two_zpow_pos _)] at hq
  rwa [zpow_add₀ two_ne_zero, mul_comm]

/-- The numbers that are rounded to a magnitude stay below the first power of two
    that is none. -/
theorem Attracts.lt_limit (h : b.Attracts q) (hb : b.Canonical) : q < 2 ^ (1024 : ℤ) := by
  have hgreatest := hb.greatest
  exact (h.lt hb).trans_le (zpow_le_zpow_right₀ one_le_two (by omega))

/-- A number with its leading bit at a place lower than that of the magnitude it is
    rounded to is next to a power of two. -/
theorem Attracts.exponent_cases (h : b.Attracts q) (hb : b.Canonical) {t : ℤ} (hleast : -1074 ≤ t)
    (hlow : t = -1074 ∨ 2 ^ (t + 52) ≤ q) (hhigh : q < 2 ^ (t + 53)) :
    t = b.exponent ∨ t = b.exponent - 1 ∧ b.mantissa = 2 ^ 52 ∧ b.reach = 1 / 4 := by
  rcases lt_trichotomy t b.exponent with hlt | heq | hgt
  · right
    have hfull : 2 ^ 52 ≤ b.mantissa := hb.full.resolve_left (by omega)
    have hq : q / 2 ^ b.exponent < 2 ^ (t + 53 - b.exponent) := by
      rw [zpow_sub₀ two_ne_zero]
      exact div_lt_div_of_pos_right hhigh (Binary64.two_zpow_pos _)
    have hlower := h.lower
    have hhalf := b.reach_le
    have hmantissa : (b.mantissa : ℚ) < 2 ^ 52 + 1 := by
      have hnext : (2 : ℚ) ^ (t + 53 - b.exponent) ≤ 2 ^ (52 : ℤ) :=
        zpow_le_zpow_right₀ one_le_two (by omega)
      rw [zpow_ofNat] at hnext
      linarith
    have hmantissa : b.mantissa = 2 ^ 52 :=
      le_antisymm (Nat.lt_succ_iff.1 (by exact_mod_cast hmantissa)) hfull
    have hclose : b.hasCloseLower = true := by
      simp [hasCloseLower, hmantissa]
      omega
    have hreach : b.reach = 1 / 4 := by rw [reach, if_pos hclose]
    refine ⟨?_, hmantissa, hreach⟩
    by_contra hne
    have hnext : (2 : ℚ) ^ (t + 53 - b.exponent) ≤ 2 ^ (51 : ℤ) :=
      zpow_le_zpow_right₀ one_le_two (by omega)
    rw [hreach, hmantissa] at hlower
    norm_num at hlower hnext
    linarith
  · exact .inl heq
  · exfalso
    have hleast := hb.least
    have hq := hlow.resolve_left (by omega)
    have hnext : (2 : ℚ) ^ (b.exponent + 53) ≤ 2 ^ (t + 52) :=
      zpow_le_zpow_right₀ one_le_two (by omega)
    linarith [h.lt hb]

/-- A number that is rounded up to a power of two is next to it in the units of the
    place below, too. -/
theorem Attracts.near_power (h : b.Attracts q) (hmantissa : b.mantissa = 2 ^ 52)
    (hreach : b.reach = 1 / 4) {t : ℤ} (ht : t = b.exponent - 1) (hhigh : q < 2 ^ (t + 53)) :
    Near (1 / 2) (2 ^ 53) (q / 2 ^ t) := by
  have hlower := h.lower
  have hscale : q / 2 ^ t = q / 2 ^ b.exponent * 2 := by
    rw [ht, zpow_sub_one₀ two_ne_zero, div_mul_eq_div_div, div_inv_eq_mul]
  have hbelow : q / 2 ^ t < 2 ^ (53 : ℤ) := by
    rwa [div_lt_iff₀ (Binary64.two_zpow_pos t), ← zpow_add₀ two_ne_zero, add_comm]
  rw [hreach, hmantissa] at hlower
  norm_num at hlower hbelow
  refine ⟨?_, ?_, fun hodd => absurd hodd (by decide)⟩
  · rw [hscale]
    norm_num
    linarith
  · norm_num
    linarith

end Binary

namespace Binary64

open Float.Model UnpackedFloat

/-- Shifted once more, a rounded mantissa is that of the magnitude, at its
    exponent. -/
theorem shiftToTargetExponent_rounded {b : Binary} (hb : b.Canonical) {q : ℚ} (hq : b.Attracts q)
    {t : ℤ} {r : ℕ} (hnear : Near (1 / 2) r (q / 2 ^ t)) (hleast : -1074 ≤ t)
    (hlow : t = -1074 ∨ 2 ^ (t + 52) ≤ q)
    (hhigh : q < 2 ^ (t + 53)) :
    (shiftToTargetExponent Format.binary64 r t .exact).1.mantissa = b.mantissa ∧
      (shiftToTargetExponent Format.binary64 r t .exact).2 = b.exponent := by
  unfold shiftToTargetExponent shiftToExponent
  simp only [mantissa_shiftRight, mantissa_ofMantissaAndAccuracy, targetExponent_eq, totalExponent]
  rcases hq.exponent_cases hb hleast hlow hhigh with rfl | ⟨ht, hmantissa, hreach⟩
  · -- the bits fit, so nothing is shifted again
    obtain rfl := hnear.eq hq.near
    have hlog : b.mantissa.log2 < 53 := (Nat.log2_lt hb.pos.ne').2 hb.lt
    have hshift :
        (max ((b.mantissa.log2 : ℤ) + 1 + b.exponent - 53) (-1074) - b.exponent).toNat = 0 := by
      omega
    rw [hshift]
    simp
  · -- rounding reaches the power of two above
    obtain rfl := hnear.eq (hq.near_power hmantissa hreach ht hhigh)
    have hlog : (2 ^ 53 : ℕ).log2 = 53 := Nat.log2_two_pow
    have hleast := hb.least
    have hshift : (max (((2 ^ 53 : ℕ).log2 : ℤ) + 1 + t - 53) (-1074) - t).toNat = 1 := by
      rw [hlog]
      omega
    rw [hshift, hmantissa]
    exact ⟨by decide, by omega⟩

/-- A number is rounded to the magnitude in whose interval it is. -/
theorem roundWithAccuracy_eq {b : Binary} (hb : b.Canonical) {q : ℚ} (hq : b.Attracts q)
    (s : UnpackedFloat.Sign) {m : ℕ} {e : ℤ} {a : Accuracy}
    (h : Represents (.ofMantissaAndAccuracy m a) (q / 2 ^ e))
    (he : e ≤ Format.binary64.targetExponent (totalExponent m e)) :
    roundWithAccuracy Format.binary64 s m e a = .finite s b.mantissa b.exponent hb.pos := by
  obtain ⟨hleast, hlow, hhigh⟩ := targetExponent_bounds h he
  obtain ⟨hshifted, hexponent⟩ := represents_shiftToTargetExponent h he
  have hnear := near_roundedMantissa hshifted
  unfold roundWithAccuracy
  simp only [hexponent]
  obtain ⟨hmantissa, hagain⟩ := shiftToTargetExponent_rounded hb hq hnear hleast hlow hhigh
  simp only [hmantissa, hagain]
  rw [dif_neg hb.pos.ne']

/-! ## Products and quotients -/

theorem represents_exact (m : ℕ) : Represents (.ofMantissaAndAccuracy m .exact) m := by
  simp [Represents, halves, ExtendedMantissa.ofMantissaAndAccuracy]

theorem represents_fraction {n d : ℕ} (hd : 0 < d) :
    Represents (.ofMantissaAndAccuracy (n / d) (accuracyOfFraction (n % d) d)) (n / d) := by
  have hdpos : (0 : ℚ) < d := by exact_mod_cast hd
  have hquotient : (n : ℚ) / d = (n / d : ℕ) + (n % d : ℕ) / d := by
    have hdiv := congrArg (Nat.cast (R := ℚ)) (Nat.div_add_mod n d)
    push_cast at hdiv
    field_simp
    linarith
  have hlt : ((n % d : ℕ) : ℚ) / d < 1 := by
    rw [div_lt_one hdpos]
    exact_mod_cast Nat.mod_lt n hd
  rw [hquotient]
  unfold accuracyOfFraction
  split_ifs with hzero
  · rw [hzero]
    simp [Represents, halves, ExtendedMantissa.ofMantissaAndAccuracy]
  · have hpos : (0 : ℚ) < (n % d : ℕ) / d :=
      div_pos (by exact_mod_cast Nat.pos_of_ne_zero hzero) hdpos
    cases hcompare : compare (2 * (n % d)) d with
    | lt =>
      rw [compare_lt_iff_lt] at hcompare
      have hhalf : ((n % d : ℕ) : ℚ) / d < 1 / 2 := by
        rw [div_lt_div_iff₀ hdpos two_pos]
        exact_mod_cast (by omega : n % d * 2 < 1 * d)
      simp [Represents, halves, ExtendedMantissa.ofMantissaAndAccuracy]
      exact ⟨hpos, by linarith⟩
    | eq =>
      rw [compare_eq_iff_eq] at hcompare
      have hhalf : ((n % d : ℕ) : ℚ) / d = 1 / 2 := by
        rw [div_eq_div_iff hdpos.ne' two_ne_zero]
        exact_mod_cast (by omega : n % d * 2 = 1 * d)
      simp [Represents, halves, ExtendedMantissa.ofMantissaAndAccuracy]
      linarith
    | gt =>
      rw [compare_gt_iff_gt] at hcompare
      have hhalf : 1 / 2 < ((n % d : ℕ) : ℚ) / d := by
        rw [div_lt_div_iff₀ two_pos hdpos]
        exact_mod_cast (by omega : 1 * d < n % d * 2)
      simp [Represents, halves, ExtendedMantissa.ofMantissaAndAccuracy]
      exact ⟨by linarith, by linarith⟩

variable {b : Binary} {q : ℚ} {m n : ℕ} {e f : ℤ}

/-- A product is rounded to the magnitude in whose interval it is, if one factor has
    its bits. -/
theorem mul_eq (hb : b.Canonical) (hq : b.Attracts q) (hm : 0 < m) (hn : 0 < n) (hfull : 2 ^ 52 ≤ m)
    (hvalue : q = m * 2 ^ e * (n * 2 ^ f)) :
    UnpackedFloat.mul Format.binary64 (.finite .positive m e hm) (.finite .positive n f hn) =
      .finite .positive b.mantissa b.exponent hb.pos := by
  refine roundWithAccuracy_eq hb hq _ ?_ ?_
  · have hproduct : q / 2 ^ (e + f) = (m * n : ℕ) := by
      rw [hvalue, zpow_add₀ two_ne_zero]
      have he := (two_zpow_pos e).ne'
      have hf := (two_zpow_pos f).ne'
      field_simp
      push_cast
      ring
    rw [hproduct]
    exact represents_exact (m * n)
  · have hproduct : 2 ^ 52 ≤ m * n := hfull.trans (Nat.le_mul_of_pos_right m hn)
    have hlog : 52 ≤ (m * n).log2 := (Nat.le_log2 (Nat.mul_pos hm hn).ne').2 hproduct
    rw [targetExponent_eq, totalExponent]
    omega

/-- A quotient is rounded to the magnitude in whose interval it is. -/
theorem div_eq (hb : b.Canonical) (hq : b.Attracts q) (hm : 0 < m) (hn : 0 < n)
    (hvalue : q = m * 2 ^ e / (n * 2 ^ f)) :
    UnpackedFloat.div Format.binary64 (.finite .positive m e hm) (.finite .positive n f hn) =
      .finite .positive b.mantissa b.exponent hb.pos := by
  unfold UnpackedFloat.div divCore
  simp only
  generalize ht : min (e - f)
    (Format.binary64.targetExponent (totalExponent m e - totalExponent n f)) = t
  obtain ⟨k, hk⟩ := Int.le.dest (ht ▸ min_le_left (e - f) _ : t ≤ e - f)
  have hshift : (e - f - t).toNat = k := by omega
  rw [hshift, Nat.shiftLeft_eq]
  refine roundWithAccuracy_eq hb hq _ ?_ ?_
  · have hquotient : q / 2 ^ t = (m * 2 ^ k : ℕ) / n := by
      have hsum : e = f + t + k := by omega
      have hf := (two_zpow_pos f).ne'
      have ht := (two_zpow_pos t).ne'
      have hnpos : (n : ℚ) ≠ 0 := by exact_mod_cast hn.ne'
      rw [hvalue, hsum, zpow_add₀ two_ne_zero, zpow_add₀ two_ne_zero, zpow_natCast]
      field_simp
      push_cast
      ring
    rw [hquotient]
    exact represents_fraction hn
  · -- the quotient has the bits that its operands promise, or one more
    have hlow := Nat.log2_self_le hm.ne'
    have hhigh := Nat.lt_log2_self (n := n)
    have hquotient := Nat.lt_log2_self (n := m * 2 ^ k / n)
    rw [Nat.div_lt_iff_lt_mul hn] at hquotient
    have hbits : 2 ^ (m.log2 + k) < 2 ^ ((m * 2 ^ k / n).log2 + 1 + (n.log2 + 1)) := by
      rw [pow_add, pow_add 2 _ (n.log2 + 1)]
      calc 2 ^ m.log2 * 2 ^ k ≤ m * 2 ^ k := Nat.mul_le_mul_right _ hlow
        _ < 2 ^ ((m * 2 ^ k / n).log2 + 1) * n := hquotient
        _ ≤ 2 ^ ((m * 2 ^ k / n).log2 + 1) * 2 ^ (n.log2 + 1) := Nat.mul_le_mul_left _ hhigh.le
    have hbits := (Nat.pow_lt_pow_iff_right one_lt_two).1 hbits
    rw [targetExponent_eq, totalExponent, totalExponent] at ht
    rw [targetExponent_eq, totalExponent]
    generalize (m * 2 ^ k / n).log2 = l at *
    omega

end Binary64

end FuzzyInference
