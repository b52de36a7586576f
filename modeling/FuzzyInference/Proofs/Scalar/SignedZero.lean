import FuzzyInference.Proofs.Scalar.Order
import FuzzyInference.Proofs.Scalar.Packing

/-!
# The sign of zero

Zero comes with either sign, and the two zeros are equal without being the same
number. Which of them is the largest of some heights can depend on the order of
the heights. Sums do not show it: a sum that starts from the zero with a plus
sign never becomes the other one, and then a zero of either sign adds nothing.

Results:

* `SignedZeros`: the laws of the two zeros, which 64-bit numbers have.
* `add_alike`: a sum does not show the sign of a zero that is added.
-/

namespace FuzzyInference

namespace Scalar

variable {α : Type} [Scalar α]

/-- The same number, or zeros of any signs. -/
def Alike (a b : α) : Prop := a = b ∨ (a == 0) = true ∧ (b == 0) = true

/-- A number that a zero of either sign adds nothing to. The zero with a minus sign
    is none. -/
def Absorbs (a : α) : Prop := ∀ z : α, (z == 0) = true → a + z = a

end Scalar

open Scalar

/-- Scalars whose two zeros are told apart by no comparison and by no sum. -/
class SignedZeros (α : Type) [Scalar α] : Prop where
  alike_of_beq : ∀ {a b : α}, (a == b) = true → Alike a b
  mul_alike : ∀ {a b : α}, Alike a b → ∀ c : α, Alike (c * a) (c * b)
  absorbs_zero : Absorbs (0 : α)
  absorbs_add : ∀ {a : α}, Absorbs a → ∀ b : α, Absorbs (a + b)

namespace Scalar

open OrderedNumbers SignedZeros

variable {α : Type} [Scalar α]

theorem Alike.refl (a : α) : Alike a a := .inl rfl

theorem add_alike {a b c : α} (ha : Absorbs a) (h : Alike b c) : a + b = a + c := by
  rcases h with rfl | ⟨hb, hc⟩
  · rfl
  · rw [ha b hb, ha c hc]

section

variable [OrderedNumbers α]

theorem Alike.le_iff_left {a b : α} (h : Alike a b) (c : α) : a ≤ c ↔ b ≤ c := by
  rcases h with rfl | ⟨ha, hb⟩
  · rfl
  · have ha := beq_iff.1 ha
    have hb := beq_iff.1 hb
    exact ⟨fun h => le_trans hb.1 (le_trans ha.2 h), fun h => le_trans ha.1 (le_trans hb.2 h)⟩

theorem Alike.le_iff_right {a b : α} (h : Alike a b) (c : α) : c ≤ a ↔ c ≤ b := by
  rcases h with rfl | ⟨ha, hb⟩
  · rfl
  · have ha := beq_iff.1 ha
    have hb := beq_iff.1 hb
    exact ⟨fun h => le_trans h (le_trans ha.1 hb.2), fun h => le_trans h (le_trans hb.1 ha.2)⟩

/-- Alike numbers have the same place in the order. -/
theorem Alike.le_iff {a b c d : α} (h : Alike a b) (h' : Alike c d) : a ≤ c ↔ b ≤ d :=
  (h.le_iff_left c).trans (h'.le_iff_right b)

theorem Alike.isNaN_eq {a b : α} (h : Alike a b) : isNaN a = isNaN b := by
  rcases h with rfl | ⟨ha, hb⟩
  · rfl
  · rw [(defined_of_le (beq_iff.1 ha).1).1, (defined_of_le (beq_iff.1 hb).1).1]

theorem Alike.beq_eq {a b c d : α} (h : Alike a b) (h' : Alike c d) : (a == c) = (b == d) := by
  rw [Bool.eq_iff_iff, beq_iff, beq_iff, h.le_iff h', h'.le_iff h]

theorem Alike.maximum {a b c d : α} (h : Alike a b) (h' : Alike c d) :
    Alike (maximum a c) (maximum b d) := by
  unfold Scalar.maximum
  simp only [h.isNaN_eq, h.le_iff h']
  split
  · exact h'
  · exact h

end

end Scalar

/-! ## 64-bit numbers -/

namespace Binary64

open Float.Model UnpackedFloat

theorem unpack_zero : (0 : Float).toModel.unpack = .zero .positive := by rfl

theorem beq_zero_iff {x : Float} : (x == 0) = true ↔ ∃ s, x.toModel.unpack = .zero s := by
  rw [beq_iff_compare, unpack_zero]
  generalize x.toModel.unpack = u
  cases u with
  | infinity s => cases s <;> simp [UnpackedFloat.compare]
  | notANumber => simp [UnpackedFloat.compare]
  | zero s => simp [UnpackedFloat.compare]
  | finite s => cases s <;> simp [UnpackedFloat.compare]

theorem unpack_packedZero (s : UnpackedFloat.Sign) :
    (Float.Model.pack (.zero s)).unpack = .zero s := by
  cases s <;> rfl

theorem unpack_packedInfinity (s : UnpackedFloat.Sign) :
    (Float.Model.pack (.infinity s)).unpack = .infinity s := by
  cases s <;> rfl

theorem unpack_packedNaN : (Float.Model.pack .notANumber).unpack = .notANumber := rfl

theorem unpack_pack_unpack (x : Float) :
    (Float.Model.pack x.toModel.unpack).unpack = x.toModel.unpack :=
  congrArg (·.toModel.unpack) (pack_unpack_model x)

/-- Only zeros share their rank with another number. -/
theorem eq_of_rank {u v : UnpackedFloat} (hu : u.isNaN = false) (hv : v.isNaN = false)
    (h : rank u = rank v) : u = v ∨ (∃ s, u = .zero s) ∧ ∃ t, v = .zero t := by
  cases u with
  | notANumber => cases hu
  | infinity s =>
    cases v with
    | notANumber => cases hv
    | infinity t => cases s <;> cases t <;> simp_all [rank]
    | zero t => cases s <;> simp [rank] at h
    | finite t => cases s <;> cases t <;> simp [rank] at h
  | zero s =>
    cases v with
    | notANumber => cases hv
    | infinity t => cases t <;> simp [rank] at h
    | zero t => exact .inr ⟨⟨s, rfl⟩, t, rfl⟩
    | finite t => cases t <;> simp [rank] at h
  | finite s m e hm =>
    cases v with
    | notANumber => cases hv
    | infinity t => cases s <;> cases t <;> simp [rank] at h
    | zero t => cases s <;> simp [rank] at h
    | finite t n f hn => cases s <;> cases t <;> simp_all [rank]

theorem alike_of_beq {x y : Float} (h : (x == y) = true) : Scalar.Alike x y := by
  obtain ⟨⟨hx, hy⟩, hplace⟩ := beq_iff_place.1 h
  rcases eq_of_rank hx hy hplace with heq | ⟨hx, hy⟩
  · left
    rw [← pack_unpack_model x, ← pack_unpack_model y, heq]
  · exact .inr ⟨beq_zero_iff.2 hx, beq_zero_iff.2 hy⟩

/-! ### Products -/

/-- The product with a zero is a zero, or it is undefined whatever the sign of the
    zero. -/
theorem mul_zero_cases (u : UnpackedFloat) :
    (∀ s, UnpackedFloat.mul Format.binary64 u (.zero s) = .notANumber) ∨
      ∀ s, ∃ t, UnpackedFloat.mul Format.binary64 u (.zero s) = .zero t := by
  cases u with
  | infinity | notANumber => exact .inl fun _ => rfl
  | zero | finite => exact .inr fun _ => ⟨_, rfl⟩

theorem mul_alike {x y : Float} (h : Scalar.Alike x y) (c : Float) :
    Scalar.Alike (c * x) (c * y) := by
  rcases h with rfl | ⟨hx, hy⟩
  · exact .refl _
  · obtain ⟨s, hs⟩ := beq_zero_iff.1 hx
    obtain ⟨t, ht⟩ := beq_zero_iff.1 hy
    have hmul (z : Float) : c * z = .ofModel (.pack
        (UnpackedFloat.mul Format.binary64 c.toModel.unpack z.toModel.unpack)) := rfl
    rcases mul_zero_cases c.toModel.unpack with hnan | hzero
    · left
      rw [hmul, hmul, hs, ht, hnan, hnan]
    · obtain ⟨s', hs'⟩ := hzero s
      obtain ⟨t', ht'⟩ := hzero t
      rw [hmul, hmul, hs, ht, hs', ht']
      exact .inr ⟨beq_zero_iff.2 ⟨s', unpack_packedZero s'⟩,
        beq_zero_iff.2 ⟨t', unpack_packedZero t'⟩⟩

/-! ### Sums -/

theorem add_zero_of_ne {u : UnpackedFloat} (h : u ≠ .zero .negative) (s : UnpackedFloat.Sign) :
    UnpackedFloat.add Format.binary64 u (.zero s) = u := by
  cases u with
  | infinity | notANumber | finite => rfl
  | zero t =>
    cases t with
    | negative => exact absurd rfl h
    | positive => cases s <;> rfl

theorem absorbs_iff {x : Float} : Scalar.Absorbs x ↔ x.toModel.unpack ≠ .zero .negative := by
  have hadd (z : Float) : x + z = .ofModel (.pack
      (UnpackedFloat.add Format.binary64 x.toModel.unpack z.toModel.unpack)) := rfl
  constructor
  · intro h hx
    have hzero := h 0 (beq_zero_iff.2 ⟨_, unpack_zero⟩)
    rw [hadd, hx, unpack_zero] at hzero
    have hx' := congrArg (·.toModel.unpack) hzero
    rw [hx] at hx'
    cases hx'
  · intro h z hz
    obtain ⟨s, hs⟩ := beq_zero_iff.1 hz
    rw [hadd, hs, add_zero_of_ne h, pack_unpack_model]

/-- A sum that is not exactly zero is not rounded to zero. -/
theorem normalize_ne_negativeZero {e : ℤ} (he : -1074 ≤ e) (m : ℤ) :
    (Float.Model.pack (UnpackedFloat.normalize Format.binary64 m e .positive)).unpack ≠
      .zero .negative := by
  unfold UnpackedFloat.normalize
  split
  · rename_i hm
    rw [Int.compare_eq_lt] at hm
    obtain ⟨n, f, hn, hround, hlt, hf⟩ := round_finite .negative (m := (-m).toNat) (by omega) he
    rw [hround]
    exact unpack_pack_ne_zero _ _ hn hlt hf
  · rw [unpack_packedZero]
    exact nofun
  · rename_i hm
    rw [Int.compare_eq_gt] at hm
    obtain ⟨n, f, hn, hround, hlt, hf⟩ := round_finite .positive (m := m.toNat) (by omega) he
    rw [hround]
    exact unpack_pack_ne_zero _ _ hn hlt hf

theorem unpack_add_ne_negativeZero {x : Float}
    (h : x.toModel.unpack ≠ .zero .negative) (y : Float) :
    (x + y).toModel.unpack ≠ .zero .negative := by
  change (Float.Model.pack
    (UnpackedFloat.add Format.binary64 x.toModel.unpack y.toModel.unpack)).unpack ≠ _
  have hx := unpack_pack_unpack x
  have hy := unpack_pack_unpack y
  have hx' := @le_exponent_of_unpack x.toModel.toBits.toBitVec
  have hy' := @le_exponent_of_unpack y.toModel.toBits.toBitVec
  change ∀ {s m e hm}, x.toModel.unpack = .finite s m e hm → -1074 ≤ e at hx'
  change ∀ {s m e hm}, y.toModel.unpack = .finite s m e hm → -1074 ≤ e at hy'
  have hnan : (Float.Model.pack .notANumber).unpack ≠ .zero .negative := by
    rw [unpack_packedNaN]
    exact nofun
  have hinfinity (s : UnpackedFloat.Sign) :
      (Float.Model.pack (.infinity s)).unpack ≠ .zero .negative := by
    rw [unpack_packedInfinity]
    exact nofun
  have hzero : (Float.Model.pack (.zero .positive)).unpack ≠ .zero .negative := by
    rw [unpack_packedZero]
    exact nofun
  generalize x.toModel.unpack = u at *
  generalize y.toModel.unpack = v at *
  cases u with
  | notANumber => exact hnan
  | infinity s =>
    cases v with
    | notANumber => exact hnan
    | infinity t =>
      cases s <;> cases t
      · exact hinfinity _
      · exact hnan
      · exact hnan
      · exact hinfinity _
    | zero | finite => exact hinfinity s
  | zero s =>
    cases s with
    | negative => exact absurd rfl h
    | positive =>
      cases v with
      | notANumber => exact hnan
      | infinity t => exact hinfinity t
      | zero t => cases t <;> exact hzero
      | finite t n f hn =>
        change (Float.Model.pack (.finite t n f hn)).unpack ≠ _
        rw [hy]
        exact nofun
  | finite s m e hm =>
    cases v with
    | notANumber => exact hnan
    | infinity t => exact hinfinity t
    | zero t =>
      change (Float.Model.pack (.finite s m e hm)).unpack ≠ _
      rw [hx]
      exact nofun
    | finite t n f hn => exact normalize_ne_negativeZero (le_min (hx' rfl) (hy' rfl)) _

/-- The two zeros of 64-bit numbers compare and add up alike. -/
instance : SignedZeros Float where
  alike_of_beq := alike_of_beq
  mul_alike := mul_alike
  absorbs_zero := absorbs_iff.2 (by rw [unpack_zero]; exact nofun)
  absorbs_add h b := absorbs_iff.2 (unpack_add_ne_negativeZero (absorbs_iff.1 h) b)

end Binary64

end FuzzyInference
