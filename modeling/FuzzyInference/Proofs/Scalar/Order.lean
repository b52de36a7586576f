import FuzzyInference.Scalar.Binary64
import Mathlib

/-!
# The order of scalars

Numbers are ordered, and two of them are equal when neither comes before the
other; the undefined number is not compared with anything. This is all that
choosing a smaller or a larger number, and testing for a range, needs to know.
The equality of 64-bit numbers is not reflexive, but it only fails to be so at the
undefined number.

A 64-bit number is ranked by the kind of number it is, then by its exponent and
its mantissa, and the comparison of numbers is the one of their ranks.

Results:

* `ReflexiveNumbers`: defined numbers are equal to themselves.
* `OrderedNumbers`: the laws of the order, which 64-bit numbers have.
* `foldl_maximum_perm`: the largest of some numbers does not depend on their
  order.
-/

namespace FuzzyInference

/-- Scalars that are equal to themselves unless they are undefined. -/
class ReflexiveNumbers (α : Type) [Scalar α] : Prop where
  beq_self : ∀ a : α, Scalar.isNaN a = false → (a == a) = true

namespace Binary64

open Float.Model

theorem compare_self {x : UnpackedFloat} (h : x.isNaN = false) : x.compare x = some .eq := by
  cases x with
  | notANumber => cases h
  | infinity s => cases s <;> rfl
  | zero s => rfl
  | finite s m e hm => cases s <;> simp [UnpackedFloat.compare, Std.ReflCmp.compare_self]

/-- 64-bit numbers are equal to themselves, undefined ones apart. -/
instance : ReflexiveNumbers Float where
  beq_self x h := by
    have hc := compare_self (x := x.toModel.unpack) h
    change (x.toModel.unpack.compare x.toModel.unpack == some .eq) = true
    rw [hc]
    rfl

end Binary64

/-- Scalars whose order is total between numbers and leaves the undefined one
    out. -/
class OrderedNumbers (α : Type) [Scalar α] : Prop where
  defined_of_le : ∀ {a b : α}, a ≤ b → Scalar.isNaN a = false ∧ Scalar.isNaN b = false
  le_total : ∀ {a b : α}, Scalar.isNaN a = false → Scalar.isNaN b = false → a ≤ b ∨ b ≤ a
  le_trans : ∀ {a b c : α}, a ≤ b → b ≤ c → a ≤ c
  lt_iff : ∀ {a b : α}, a < b ↔ a ≤ b ∧ ¬ b ≤ a
  beq_iff : ∀ {a b : α}, (a == b) = true ↔ a ≤ b ∧ b ≤ a
  zero_le_one : (0 : α) ≤ 1
  negInfinity_lt : ∀ {a : α}, Scalar.isFinite a = true → -Scalar.infinity < a
  lt_infinity : ∀ {a : α}, Scalar.isFinite a = true → a < Scalar.infinity

namespace Scalar

open OrderedNumbers

variable {α : Type} [Scalar α] [OrderedNumbers α]

theorem le_self {a : α} (h : isNaN a = false) : a ≤ a := (le_total h h).elim id id

theorem isNaN_zero : isNaN (0 : α) = false := (defined_of_le OrderedNumbers.zero_le_one).1

theorem isNaN_one : isNaN (1 : α) = false := (defined_of_le OrderedNumbers.zero_le_one).2

theorem not_lt_of_lt {a b : α} (h : a < b) : ¬ b < a := fun h' => (lt_iff.1 h).2 (lt_iff.1 h').1

theorem decide_lt_of_lt {a b : α} (h : a < b) : decide (a < b) = true ∧ decide (b < a) = false :=
  ⟨decide_eq_true h, decide_eq_false (not_lt_of_lt h)⟩

/-- Ordered numbers are equal to themselves, undefined ones apart. -/
instance : ReflexiveNumbers α := ⟨fun _ h => beq_iff.2 ⟨le_self h, le_self h⟩⟩

/-! ## The larger and the smaller number -/

theorem isNaN_maximum {a : α} (h : isNaN a = false) (b : α) : isNaN (maximum a b) = false := by
  unfold maximum
  split
  · rename_i hb
    rw [h, Bool.false_or, decide_eq_true_eq] at hb
    exact (defined_of_le hb).2
  · exact h

theorem le_maximum_left {a : α} (h : isNaN a = false) (b : α) : a ≤ maximum a b := by
  unfold maximum
  split
  · rename_i hb
    rw [h, Bool.false_or, decide_eq_true_eq] at hb
    exact hb
  · exact le_self h

theorem le_maximum_right {a b : α} (ha : isNaN a = false) (hb : isNaN b = false) :
    b ≤ maximum a b := by
  unfold maximum
  split
  · exact le_self hb
  · rename_i hab
    rw [ha, Bool.false_or, decide_eq_true_eq] at hab
    exact (le_total ha hb).resolve_left hab

omit [OrderedNumbers α] in
theorem maximum_le {a b c : α} (ha : a ≤ c) (hb : b ≤ c) : maximum a b ≤ c := by
  unfold maximum
  split
  · exact hb
  · exact ha

theorem minimum_le_right (a : α) {b : α} (hb : isNaN b = false) : minimum a b ≤ b := by
  unfold minimum
  split
  · exact le_self hb
  · rename_i h
    rw [Bool.or_eq_true, not_or, Bool.not_eq_true, decide_eq_true_eq] at h
    exact (le_total h.1 hb).resolve_right h.2

/-! ## The largest of some numbers -/

theorem isNaN_foldl_maximum {a : α} (h : isNaN a = false) (bs : List α) :
    isNaN (bs.foldl maximum a) = false := by
  induction bs generalizing a with
  | nil => exact h
  | cons b bs ih => exact ih (isNaN_maximum h b)

theorem le_foldl_maximum {a : α} (h : isNaN a = false) (bs : List α) : a ≤ bs.foldl maximum a := by
  induction bs generalizing a with
  | nil => exact le_self h
  | cons b bs ih => exact le_trans (le_maximum_left h b) (ih (isNaN_maximum h b))

theorem le_foldl_maximum_of_mem {a b : α} (ha : isNaN a = false) {bs : List α} (hmem : b ∈ bs)
    (hb : isNaN b = false) : b ≤ bs.foldl maximum a := by
  induction bs generalizing a with
  | nil => cases hmem
  | cons c bs ih =>
    rcases List.mem_cons.1 hmem with rfl | hmem
    · exact le_trans (le_maximum_right ha hb) (le_foldl_maximum (isNaN_maximum ha b) bs)
    · exact ih (isNaN_maximum ha c) hmem

omit [OrderedNumbers α] in
theorem foldl_maximum_mem (a : α) (bs : List α) : bs.foldl maximum a ∈ a :: bs := by
  induction bs generalizing a with
  | nil => exact List.mem_singleton.2 rfl
  | cons b bs ih =>
    have hchoice : maximum a b = a ∨ maximum a b = b := by
      unfold maximum
      split
      · exact .inr rfl
      · exact .inl rfl
    rcases List.mem_cons.1 (ih (maximum a b)) with h | h
    · rw [List.foldl_cons, h]
      rcases hchoice with h | h <;> simp [h]
    · exact List.mem_cons_of_mem _ (List.mem_cons_of_mem _ h)

/-- The largest of numbers is at least the largest of some of them. -/
theorem foldl_maximum_le {a : α} (h : isNaN a = false) {bs cs : List α} (hsub : bs ⊆ cs) :
    bs.foldl maximum a ≤ cs.foldl maximum a := by
  rcases List.mem_cons.1 (foldl_maximum_mem a bs) with ha | hmem
  · rw [ha]
    exact le_foldl_maximum h cs
  · exact le_foldl_maximum_of_mem h (hsub hmem) (isNaN_foldl_maximum h bs)

/-- Undefined numbers are skipped, so only the starting value has to be a number. -/
theorem foldl_maximum_perm {a : α} (h : isNaN a = false) {bs cs : List α} (hperm : bs.Perm cs) :
    (bs.foldl maximum a == cs.foldl maximum a) = true :=
  beq_iff.2 ⟨foldl_maximum_le h hperm.subset, foldl_maximum_le h hperm.symm.subset⟩

end Scalar

/-! ## 64-bit numbers -/

namespace Binary64

open Float.Model

/-- Where a number stands in the order: its kind first, then its exponent and
    mantissa. -/
def rank : UnpackedFloat → ℤ ×ₗ ℤ ×ₗ ℤ
  | .infinity .negative => toLex (-2, toLex (0, 0))
  | .finite .negative m e _ => toLex (-1, toLex (-e, -m))
  | .zero _ | .notANumber => toLex (0, toLex (0, 0))
  | .finite .positive m e _ => toLex (1, toLex (e, m))
  | .infinity .positive => toLex (2, toLex (0, 0))

theorem compares_magnitude (e e' : ℤ) (m m' : ℕ) :
    ((compare e e').then (compare m m')).Compares (toLex (e, (m : ℤ))) (toLex (e', (m' : ℤ))) := by
  rcases lt_trichotomy e e' with he | rfl | he
  · simp [compare_lt_iff_lt.2 he, Ordering.Compares, Prod.Lex.toLex_lt_toLex, he]
  · rcases lt_trichotomy m m' with hm | rfl | hm
    · simp [compare_lt_iff_lt.2 hm, Ordering.Compares, Prod.Lex.toLex_lt_toLex, hm]
    · simp [Ordering.Compares]
    · simp [compare_gt_iff_gt.2 hm, Ordering.Compares, Prod.Lex.toLex_lt_toLex, hm]
  · simp [compare_gt_iff_gt.2 he, Ordering.Compares, Prod.Lex.toLex_lt_toLex, he]

theorem compares_neg {o : Ordering} {e e' m m' : ℤ}
    (h : o.Compares (toLex (e, m)) (toLex (e', m'))) :
    o.swap.Compares (toLex (-e, -m)) (toLex (-e', -m')) := by
  cases o with
  | lt =>
    simp only [Ordering.swap, Ordering.Compares, Prod.Lex.toLex_lt_toLex] at h ⊢
    omega
  | eq => simpa [Ordering.swap, Ordering.Compares] using h
  | gt =>
    simp only [Ordering.swap, Ordering.Compares, gt_iff_lt, Prod.Lex.toLex_lt_toLex] at h ⊢
    omega

/-- Numbers of one kind compare as their exponents and mantissas do. -/
theorem compares_kind {o : Ordering} {p q : ℤ ×ₗ ℤ} (h : o.Compares p q) (k : ℤ) :
    o.Compares (toLex (k, p)) (toLex (k, q)) := by
  cases o with
  | lt => simpa [Ordering.Compares, Prod.Lex.toLex_lt_toLex] using h
  | eq => simpa [Ordering.Compares] using h
  | gt => simpa [Ordering.Compares, Prod.Lex.toLex_lt_toLex] using h

theorem compares_rank {x y : UnpackedFloat} (hx : x.isNaN = false) (hy : y.isNaN = false) :
    ∃ o, x.compare y = some o ∧ o.Compares (rank x) (rank y) := by
  cases x with
  | notANumber => cases hx
  | infinity s =>
    cases y with
    | notANumber => cases hy
    | infinity t | zero t | finite t =>
      cases s <;> cases t <;> refine ⟨_, rfl, ?_⟩ <;>
        simp [rank, compare, Ordering.Compares, Prod.Lex.toLex_lt_toLex]
  | zero s =>
    cases y with
    | notANumber => cases hy
    | infinity t | zero t | finite t =>
      cases t <;> refine ⟨_, rfl, ?_⟩ <;>
        simp [rank, Ordering.Compares, Prod.Lex.toLex_lt_toLex]
  | finite s m e hm =>
    cases y with
    | notANumber => cases hy
    | infinity t | zero t =>
      cases s <;> cases t <;> refine ⟨_, rfl, ?_⟩ <;>
        simp [rank, Ordering.Compares, Prod.Lex.toLex_lt_toLex]
    | finite t n f hn =>
      have hmagnitude := compares_magnitude e f m n
      cases s <;> cases t <;> refine ⟨_, rfl, ?_⟩
      · exact compares_kind (compares_neg hmagnitude) (-1)
      · simp [rank, Ordering.Compares, Prod.Lex.toLex_lt_toLex]
      · simp [rank, Ordering.Compares, Prod.Lex.toLex_lt_toLex]
      · exact compares_kind hmagnitude 1

theorem compare_eq_none {x y : UnpackedFloat} (h : x.isNaN = true ∨ y.isNaN = true) :
    x.compare y = none := by
  cases x with
  | notANumber => rfl
  | infinity s => cases y <;> cases s <;> simp_all [UnpackedFloat.isNaN, UnpackedFloat.compare]
  | zero s => cases y <;> simp_all [UnpackedFloat.isNaN, UnpackedFloat.compare]
  | finite s => cases y <;> cases s <;> simp_all [UnpackedFloat.isNaN, UnpackedFloat.compare]

/-- The place of a 64-bit number in the order. -/
def place (x : Float) : ℤ ×ₗ ℤ ×ₗ ℤ := rank x.toModel.unpack

/-- Two 64-bit numbers, none of them undefined. -/
def Defined (x y : Float) : Prop := x.isNaN = false ∧ y.isNaN = false

/-- Either one of two 64-bit numbers is undefined, or they compare as their places
    do. -/
theorem compare_cases (x y : Float) :
    (x.toModel.unpack.compare y.toModel.unpack = none ∧ ¬ Defined x y) ∨
    ∃ o, x.toModel.unpack.compare y.toModel.unpack = some o ∧ o.Compares (place x) (place y) ∧
      Defined x y := by
  by_cases h : Defined x y
  · obtain ⟨o, ho, hplace⟩ := compares_rank h.1 h.2
    exact .inr ⟨o, ho, hplace, h⟩
  · refine .inl ⟨compare_eq_none ?_, h⟩
    rw [Defined, not_and_or, Bool.not_eq_false, Bool.not_eq_false] at h
    exact h

/-- A test of how two 64-bit numbers compare holds if both are defined and it holds of
    how their places compare. -/
theorem any_compare_iff {x y : Float} (test : Ordering → Bool) :
    (x.toModel.unpack.compare y.toModel.unpack).any test = true ↔
      Defined x y ∧ test (cmp (place x) (place y)) = true := by
  rcases compare_cases x y with ⟨hnone, hnan⟩ | ⟨o, hsome, hplace, hnan⟩
  · simp [hnone, hnan]
  · simp [hsome, hnan, hplace.cmp_eq]

/-- Two 64-bit numbers compare in one way if both are defined and their places do. -/
theorem compare_beq_iff {x y : Float} (o : Ordering) :
    (x.toModel.unpack.compare y.toModel.unpack == some o) = true ↔
      Defined x y ∧ cmp (place x) (place y) = o := by
  have hany : ∀ c : Option Ordering, (c == some o) = c.any (· == o) := by
    rintro (_ | c) <;> rfl
  rw [hany, any_compare_iff, beq_iff_eq]

theorem le_iff_compare {x y : Float} :
    x ≤ y ↔ (x.toModel.unpack.compare y.toModel.unpack).any (·.isLE) = true :=
  decide_eq_true_iff

theorem lt_iff_compare {x y : Float} :
    x < y ↔ (x.toModel.unpack.compare y.toModel.unpack == some .lt) = true :=
  decide_eq_true_iff

theorem beq_iff_compare {x y : Float} :
    (x == y) = true ↔ (x.toModel.unpack.compare y.toModel.unpack == some .eq) = true :=
  Iff.rfl

theorem le_iff_place {x y : Float} :
    x ≤ y ↔ Defined x y ∧ place x ≤ place y := by
  rw [le_iff_compare, any_compare_iff, ← Ordering.ne_gt_iff_isLE, ← (cmp_compares _ _).ne_gt]

theorem lt_iff_place {x y : Float} :
    x < y ↔ Defined x y ∧ place x < place y := by
  rw [lt_iff_compare, compare_beq_iff, cmp_eq_lt_iff]

theorem beq_iff_place {x y : Float} :
    (x == y) = true ↔ Defined x y ∧ place x = place y := by
  rw [beq_iff_compare, compare_beq_iff, cmp_eq_eq_iff]

/-- A finite number is neither the first nor the last one. -/
theorem place_of_finite {x : Float} (h : Scalar.isFinite x = true) :
    x.isNaN = false ∧ toLex (-2, toLex (0, 0)) < place x ∧ place x < toLex (2, toLex (0, 0)) := by
  have hfinite : x.toModel.unpack.isNaN = false ∧ x.toModel.unpack.isInf = false := by
    rw [Scalar.isFinite, Bool.and_eq_true, Bool.not_eq_true', Bool.not_eq_true'] at h
    exact h
  refine ⟨hfinite.1, ?_⟩
  unfold place
  generalize x.toModel.unpack = u at hfinite ⊢
  cases u with
  | infinity s => cases hfinite.2
  | notANumber => cases hfinite.1
  | zero s => simp [rank, Prod.Lex.toLex_lt_toLex]
  | finite s => cases s <;> simp [rank, Prod.Lex.toLex_lt_toLex]

/-- 64-bit numbers are ordered, undefined ones apart. -/
instance : OrderedNumbers Float where
  defined_of_le h := (le_iff_place.1 h).1
  le_total hx hy := by
    rw [le_iff_place, le_iff_place]
    exact (le_total (place _) (place _)).imp (⟨⟨hx, hy⟩, ·⟩) (⟨⟨hy, hx⟩, ·⟩)
  le_trans h h' := by
    rw [le_iff_place] at h h' ⊢
    exact ⟨⟨h.1.1, h'.1.2⟩, h.2.trans h'.2⟩
  lt_iff := by
    intro x y
    have hsymm : Defined y x ↔ Defined x y := and_comm
    rw [lt_iff_place, le_iff_place, le_iff_place, hsymm, lt_iff_le_not_ge]
    tauto
  beq_iff := by
    intro x y
    have hsymm : Defined y x ↔ Defined x y := and_comm
    rw [beq_iff_place, le_iff_place, le_iff_place, hsymm, le_antisymm_iff]
    tauto
  zero_le_one := by decide
  negInfinity_lt h := by
    obtain ⟨hnan, hlow, -⟩ := place_of_finite h
    exact lt_iff_place.2 ⟨⟨by decide, hnan⟩, hlow⟩
  lt_infinity h := by
    obtain ⟨hnan, -, hhigh⟩ := place_of_finite h
    exact lt_iff_place.2 ⟨⟨hnan, by decide⟩, hhigh⟩

end Binary64

end FuzzyInference
