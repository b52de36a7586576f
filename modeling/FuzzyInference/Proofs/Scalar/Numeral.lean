import FuzzyInference.Scalar.Numeral
import Mathlib

/-!
# What is a numeral

The numeral reader takes a text apart from the left: a sign, the words for
infinity and for an undefined number, digits, a point, digits, and a power of
ten.

Results:

* `readMagnitude_whole` and `readMagnitude_point`: texts that are magnitudes.
* `read?_of_magnitude`: a magnitude without a sign is a numeral.
* `read?_eq_none`: a text that starts in another way is none.
-/

namespace FuzzyInference.Numeral

/-! ## Digits and signs -/

/-- Texts that do not start with a digit. -/
def NoDigit (cs : List Char) : Prop := ∀ c ∈ cs.head?, c.isDigit = false

theorem takeDigits_of_noDigit {ds rest : List Char} (hds : ds.all Char.isDigit = true)
    (hrest : NoDigit rest) : takeDigits (ds ++ rest) = (ds, rest) := by
  have hall : ∀ c ∈ ds, c.isDigit = true := List.all_eq_true.1 hds
  unfold takeDigits
  rw [List.takeWhile_append_of_pos hall, List.dropWhile_append_of_pos hall]
  cases rest with
  | nil => simp
  | cons c rest =>
    have hc : c.isDigit = false := hrest c rfl
    simp [hc]

theorem ne_sign_of_digit {c : Char} (h : c.isDigit = true) : c ≠ '-' ∧ c ≠ '+' := by
  constructor <;> rintro rfl <;> simp at h

theorem takeSign_of_ne {c : Char} {cs : List Char} (h : c ≠ '-' ∧ c ≠ '+') :
    takeSign (c :: cs) = (false, c :: cs) := by
  unfold takeSign
  split <;> simp_all

theorem takeSign_digits {ds : List Char} (h : ds.all Char.isDigit = true) :
    takeSign ds = (false, ds) := by
  cases ds with
  | nil => rfl
  | cons d ds => exact takeSign_of_ne (ne_sign_of_digit (by simp_all))

theorem toLower_digit {c : Char} (h : c.isDigit = true) : c.toLower = c := by
  simp only [Char.isDigit, Bool.and_eq_true, decide_eq_true_eq, ge_iff_le,
    UInt32.le_iff_toNat_le] at h
  have hnot : ¬ (65 ≤ c.val.toNat ∧ c.val.toNat ≤ 90) := by
    have : ('9' : Char).val.toNat = 57 := rfl
    omega
  unfold Char.toLower
  simp only [ge_iff_le, UInt32.le_iff_toNat_le]
  exact dif_neg hnot

/-! ## Values of digits -/

theorem natOfDigits_foldl (n : ℕ) (ds : List Char) :
    ds.foldl (fun n c => 10 * n + (c.toNat - 48)) n = n * 10 ^ ds.length + natOfDigits ds := by
  induction ds using List.reverseRecOn with
  | nil => simp [natOfDigits]
  | append_singleton ds d ih =>
    simp only [natOfDigits, List.foldl_append, List.foldl_cons, List.foldl_nil, List.length_append,
      List.length_singleton, pow_succ] at ih ⊢
    rw [ih]
    ring

theorem natOfDigits_append (ds es : List Char) :
    natOfDigits (ds ++ es) = natOfDigits ds * 10 ^ es.length + natOfDigits es := by
  conv_lhs => rw [natOfDigits, List.foldl_append]
  exact natOfDigits_foldl _ es

theorem natOfDigits_zeros (k : ℕ) : natOfDigits (List.replicate k '0') = 0 := by
  induction k with
  | zero => rfl
  | succ k ih =>
    rw [List.replicate_succ', natOfDigits_append, ih]
    rfl

theorem natOfDigits_toDigits (n : Nat) : natOfDigits (Nat.toDigits 10 n) = n := by
  have h := Nat.ofDigitChars_toDigits (b := 10) (n := n) (by decide) (by decide)
  rw [Nat.ofDigitChars_eq_foldl] at h
  exact h

/-- The digits of a positive number do not start with a zero. -/
theorem head?_toDigits {n : Nat} (h : 0 < n) : (Nat.toDigits 10 n).head? ≠ some '0' := by
  induction n using Nat.strongRecOn with
  | ind n ih =>
    by_cases hsmall : n < 10
    · rw [Nat.toDigits_of_lt_base hsmall]
      interval_cases n <;> decide
    · have hsplit := Nat.toDigits_append_toDigits (b := 10) (n := n / 10) (d := n % 10) (by decide)
        (by omega) (by omega)
      rw [Nat.div_add_mod] at hsplit
      rw [← hsplit, List.head?_append_of_ne_nil _ Nat.toDigits_ne_nil]
      exact ih (n / 10) (by omega) (by omega)

/-! ## Magnitudes -/

/-- What may stand behind a mantissa: nothing, or a complete power of ten. -/
structure PowerText (cs : List Char) : Prop where
  reads : (readPower cs).isSome = true
  noDigit : NoDigit cs
  noPoint : ∀ c ∈ cs.head?, c ≠ '.'

theorem powerText_nil : PowerText [] := ⟨rfl, by simp [NoDigit], by simp⟩

theorem powerText_cons {c : Char} {text ds : List Char} {negative : Bool} (hc : c = 'e' ∨ c = 'E')
    (hsign : takeSign text = (negative, ds)) (hne : ds ≠ []) (hds : ds.all Char.isDigit = true) :
    PowerText (c :: text) := by
  refine ⟨?_, ?_, ?_⟩
  · simp [readPower, hc, hsign, hne, hds]
  · rintro d ⟨⟩
    rcases hc with rfl | rfl <;> decide
  · rintro d ⟨⟩
    rcases hc with rfl | rfl <;> decide

/-- Digits, a complete power of ten behind them, and no point. -/
theorem readMagnitude_whole {ds power : List Char} (hds : ds.all Char.isDigit = true)
    (hne : ds ≠ []) (hp : PowerText power) : (readMagnitude (ds ++ power)).isSome = true := by
  have htake := takeDigits_of_noDigit hds hp.noDigit
  have hreads := hp.reads
  unfold readMagnitude
  simp only [htake]
  cases power with
  | nil => simp [hne, hreads]
  | cons c rest =>
    have hc : c ≠ '.' := hp.noPoint c rfl
    split
    · rename_i heq
      exact absurd (List.cons.inj heq).1 hc
    · simp [hne, hreads]

/-- Digits on at least one side of a point, and a complete power of ten behind
    them. -/
theorem readMagnitude_point (ds : List Char) {fs power : List Char}
    (hds : ds.all Char.isDigit = true) (hfs : fs.all Char.isDigit = true) (hne : ds ≠ [] ∨ fs ≠ [])
    (hp : PowerText power) :
    (readMagnitude (ds ++ '.' :: (fs ++ power))).isSome = true := by
  have hdot : NoDigit ('.' :: (fs ++ power)) := by
    rintro c ⟨⟩
    decide
  have hreads := hp.reads
  unfold readMagnitude
  simp only [takeDigits_of_noDigit hds hdot, takeDigits_of_noDigit hfs hp.noDigit]
  rcases hne with h | h <;> simp [h, hreads]

theorem readMagnitude_eq_none {c : Char} {cs : List Char} (hdigit : c.isDigit = false)
    (hpoint : c ≠ '.') : readMagnitude (c :: cs) = none := by
  have htake : takeDigits (c :: cs) = ([], c :: cs) := by simp [takeDigits, hdigit]
  unfold readMagnitude
  simp only [htake]
  split
  · rename_i heq
    exact absurd (List.cons.inj heq).1 hpoint
  · simp

/-! ## Numerals -/

/-- A text that starts with a digit or a point spells a magnitude or nothing. -/
theorem read?_of_start {c : Char} (hc : c.isDigit = true ∨ c = '.') (cs : List Char) :
    read? (String.ofList (c :: cs)) = (readMagnitude (c :: cs)).map (.decimal false) := by
  have hsign : c ≠ '-' ∧ c ≠ '+' := by
    rcases hc with hc | rfl
    · exact ne_sign_of_digit hc
    · decide
  have hlower : c.toLower ≠ 'i' ∧ c.toLower ≠ 'n' := by
    rcases hc with hc | rfl
    · rw [toLower_digit hc]
      constructor <;> rintro rfl <;> simp at hc
    · decide
  unfold read?
  rw [String.toList_ofList, takeSign_of_ne hsign]
  simp [hlower]

/-- A text that starts with a digit or a point is a numeral if it is a magnitude. -/
theorem read?_of_magnitude {c : Char} {cs : List Char} (hc : c.isDigit = true ∨ c = '.')
    (h : (readMagnitude (c :: cs)).isSome = true) :
    (read? (String.ofList (c :: cs))).isSome = true := by
  rw [read?_of_start hc, Option.isSome_map]
  exact h

/-- A text that starts like no number is a numeral only if it is a word for one. -/
theorem read?_eq_none {s : String} {c : Char} {cs : List Char} (hs : s.toList = c :: cs)
    (hsign : c ≠ '-' ∧ c ≠ '+') (hdigit : c.isDigit = false) (hpoint : c ≠ '.')
    (hword : ∀ word ∈ ["inf", "infinity", "nan"], (c :: cs).map Char.toLower ≠ word.toList) :
    read? s = none := by
  unfold read?
  simp only [hs, takeSign_of_ne hsign, hword "inf" (by simp), hword "infinity" (by simp),
    hword "nan" (by simp), readMagnitude_eq_none hdigit hpoint]
  rfl

end FuzzyInference.Numeral
