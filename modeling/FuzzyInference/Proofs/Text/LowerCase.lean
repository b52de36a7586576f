import FuzzyInference.Text.LowerCase

/-!
# Texts that are their own lower case

No letter has a punctuation mark as its lower case, so a text whose lower case is
a punctuation mark is that mark.

Results:

* `lowerChar_eq_symbol`: what has a mark as its lower case, among characters.
* `lower_symbol` and `lower_eq_symbol`: what has a mark as its lower case, among
  texts.
-/

namespace FuzzyInference.Text

/-- Letters and their lower cases lie behind the marks and digits. -/
theorem lowerRuns_bound : ∀ r ∈ lowerRuns, 65 ≤ r.first ∧ 65 ≤ (r.first : Int) + r.shift := by
  decide +kernel

/-- Below the letters every code is the lower case of itself, and of no other
    code. -/
theorem lowerCode_eq_iff {m n : Nat} (hm : m < 65) : lowerCode n = m ↔ n = m := by
  unfold lowerCode
  split
  · rename_i r hr
    have hbound := lowerRuns_bound r (List.mem_of_find?_eq_some hr)
    have hrange := List.find?_some hr
    simp only [Bool.and_eq_true, decide_eq_true_eq] at hrange
    split
    · omega
    · exact Iff.rfl
  · exact Iff.rfl

theorem lowerChar_eq_symbol {c d : Char} (hd : 0 < d.toNat ∧ d.toNat < 65) (h : lowerChar c = d) :
    c = d := by
  unfold lowerChar at h
  by_cases hvalid : (lowerCode c.toNat).isValidChar
  · have hcode : (Char.ofNat (lowerCode c.toNat)).toNat = lowerCode c.toNat := by
      rw [Char.ofNat, dif_pos hvalid]
      rfl
    rw [h] at hcode
    have hsame : c.toNat = d.toNat := (lowerCode_eq_iff hd.2).1 hcode.symm
    rw [← Char.ofNat_toNat c, hsame, Char.ofNat_toNat]
  · have hnull : (Char.ofNat (lowerCode c.toNat)).toNat = 0 := by
      rw [Char.ofNat, dif_neg hvalid]
      rfl
    rw [h] at hnull
    omega

/-- Every character has some lower case. -/
theorem length_lowerAfter (before cs : List Char) : cs.length ≤ (lowerAfter before cs).length := by
  induction cs generalizing before with
  | nil => simp
  | cons c cs ih =>
    have hrest := ih (c :: before)
    simp only [lowerAfter, List.length_append, List.length_cons]
    split
    · simp
      omega
    · split
      · simp
        omega
      · simp
        omega

theorem lower_symbol {d : Char} (hd : d.toNat < 65) :
    lower (String.ofList [d]) = String.ofList [d] := by
  have hchar : lowerChar d = d := by
    rw [lowerChar, (lowerCode_eq_iff hd).2 rfl, Char.ofNat_toNat]
  have hsigma : d ≠ 'Σ' := by
    rintro rfl
    exact absurd hd (by decide)
  have hdotted : d ≠ 'İ' := by
    rintro rfl
    exact absurd hd (by decide)
  simp [lower, lowerOf, lowerAfter, hsigma, hdotted, hchar]

theorem lower_eq_symbol {s : String} {d : Char} (hd : 0 < d.toNat ∧ d.toNat < 65)
    (h : lower s = String.ofList [d]) : s = String.ofList [d] := by
  have hchars : lowerAfter [] s.toList = [d] := by
    have := congrArg String.toList h
    simpa [lower, lowerOf] using this
  suffices hs : s.toList = [d] by rw [← hs, String.ofList_toList]
  have hlength := length_lowerAfter [] s.toList
  rw [hchars] at hlength
  match hs : s.toList with
  | [] =>
    rw [hs] at hchars
    cases hchars
  | [c] =>
    rw [hs] at hchars
    simp only [lowerAfter, List.append_nil] at hchars
    split at hchars
    · split at hchars
      · cases hchars
        exact absurd hd.2 (by decide)
      · cases hchars
        exact absurd hd.2 (by decide)
    · split at hchars
      · cases hchars
      · rw [lowerChar_eq_symbol hd (List.cons.inj hchars).1]
  | _ :: _ :: _ =>
    rw [hs] at hlength
    simp at hlength

end FuzzyInference.Text
