import FuzzyInference.Formula.Token
import FuzzyInference.Proofs.Scalar.Numeral

/-!
# Numbers among the tokens

The lexer and the numeral reader describe numbers in two different ways: the
lexer measures how far a number goes, the reader takes a text apart. What the
lexer cuts out as a number, the reader can read.

Results:

* `powerText_powerRun`: a power of ten that the lexer takes is complete.
* `scan_of_lexFrom`: every token is what the scanner found.
* `magnitude_of_lex` and `number_of_lex`: every number token spells a magnitude, and has a value.
-/

namespace FuzzyInference.Token

open Numeral

/-! ## Runs of digits -/

theorem take_digitRun (cs : List Char) : cs.take (digitRun cs) = cs.takeWhile Char.isDigit :=
  (List.prefix_iff_eq_take.1 (List.takeWhile_prefix Char.isDigit)).symm

theorem drop_digitRun (cs : List Char) : cs.drop (digitRun cs) = cs.dropWhile Char.isDigit := by
  have h : cs.takeWhile Char.isDigit ++ cs.dropWhile Char.isDigit = cs :=
    List.takeWhile_append_dropWhile
  calc cs.drop (digitRun cs)
      = (cs.takeWhile Char.isDigit ++ cs.dropWhile Char.isDigit).drop (digitRun cs) := by rw [h]
    _ = cs.dropWhile Char.isDigit := by rw [digitRun, List.drop_left]

/-! ## Powers of ten -/

theorem takeWhile_digit_ne_nil {ds : List Char} (h : digitRun ds ≠ 0) :
    ds.takeWhile Char.isDigit ≠ [] := by
  intro hnil
  simp [digitRun, hnil] at h

/-- What the lexer takes behind a mantissa is empty or a complete power of ten. -/
theorem powerText_powerRun (cs : List Char) : PowerText (cs.take (powerRun cs)) := by
  match cs with
  | [] => exact powerText_nil
  | [c] =>
    by_cases hc : c = 'e' ∨ c = 'E' <;> simp only [powerRun, hc, if_true, if_false] <;>
      exact powerText_nil
  | c :: s :: ds =>
    by_cases hc : c = 'e' ∨ c = 'E'
    · by_cases hs : s = '+' ∨ s = '-'
      · by_cases hrun : digitRun ds = 0
        · simp only [powerRun, hc, hs, hrun, if_true]
          exact powerText_nil
        · have htake : (c :: s :: ds).take (2 + digitRun ds) =
              c :: s :: ds.takeWhile Char.isDigit := by
            rw [Nat.add_comm, List.take_succ_cons, List.take_succ_cons, take_digitRun]
          simp only [powerRun, hc, hs, hrun, if_true, if_false, htake]
          rcases hs with rfl | rfl
          · exact powerText_cons hc rfl (takeWhile_digit_ne_nil hrun) List.all_takeWhile
          · exact powerText_cons hc rfl (takeWhile_digit_ne_nil hrun) List.all_takeWhile
      · by_cases hrun : digitRun (s :: ds) = 0
        · simp only [powerRun, hc, hs, hrun, if_true, if_false]
          exact powerText_nil
        · have htake : (c :: s :: ds).take (1 + digitRun (s :: ds)) =
              c :: (s :: ds).takeWhile Char.isDigit := by
            rw [Nat.add_comm, List.take_succ_cons, take_digitRun]
          simp only [powerRun, hc, hs, hrun, if_true, if_false, htake]
          exact powerText_cons hc (takeSign_digits List.all_takeWhile) (takeWhile_digit_ne_nil hrun)
            List.all_takeWhile
    · simp only [powerRun, hc, if_false]
      exact powerText_nil

/-! ## Tokens -/

theorem numberRun_reads {c : Char} (hc : c.isDigit = true) (cs : List Char) :
    (readMagnitude (c :: cs.take (numberRun cs))).isSome = true := by
  have hall : (c :: cs.takeWhile Char.isDigit).all Char.isDigit = true := by
    simp only [List.all_cons, hc, Bool.true_and]
    exact List.all_takeWhile
  unfold numberRun
  simp only [drop_digitRun]
  split
  · rename_i rest hdot
    have hcs : cs = cs.takeWhile Char.isDigit ++ '.' :: rest := by
      rw [← hdot, List.takeWhile_append_dropWhile]
    have hmantissa : cs.take (digitRun cs + 1 + digitRun rest) =
        cs.takeWhile Char.isDigit ++ '.' :: rest.takeWhile Char.isDigit := by
      rw [Nat.add_assoc, List.take_add, take_digitRun, drop_digitRun, hdot, Nat.add_comm,
        List.take_succ_cons, take_digitRun]
    rw [List.take_add, hmantissa, List.append_assoc, ← List.cons_append, List.cons_append]
    exact readMagnitude_point (c :: cs.takeWhile Char.isDigit) hall List.all_takeWhile
      (.inl (by simp)) (powerText_powerRun _)
  · rw [List.take_add, take_digitRun, ← List.cons_append]
    exact readMagnitude_whole hall (by simp) (powerText_powerRun _)

/-- The text of a token that the scanner calls a number is a numeral. -/
theorem read?_of_scan {c : Char} {cs : List Char} {more : Nat}
    (h : scan c cs = some (.number, more)) :
    (read? (String.ofList (c :: cs.take more))).isSome = true := by
  unfold scan at h
  split at h
  · rename_i hc
    cases h
    exact read?_of_magnitude (.inl hc) (numberRun_reads hc cs)
  · split at h
    · cases h
    · split at h <;> try cases h
      rename_i ds _
      dsimp only at h
      split at h
      · cases h
      · rename_i hrun
        cases h
        rw [List.take_add, take_digitRun]
        exact read?_of_magnitude (.inr rfl)
          (readMagnitude_point [] rfl List.all_takeWhile
            (.inr (takeWhile_digit_ne_nil hrun)) (powerText_powerRun _))

theorem start_of_scan {c : Char} {cs : List Char} {more : Nat}
    (h : scan c cs = some (.number, more)) : c.isDigit = true ∨ c = '.' := by
  unfold scan at h
  split at h
  · rename_i hc
    exact .inl hc
  · split at h
    · cases h
    · split at h <;> try cases h
      exact .inr rfl

/-- Every token is what the scanner found where it starts. -/
theorem scan_of_lexFrom {start : Nat} {cs : List Char} {ts : List Token}
    (h : lexFrom start cs = .ok ts) :
    ∀ t ∈ ts, ∃ c ds more, scan c ds = some (t.kind, more) ∧
      t.text = String.ofList (c :: ds.take more) := by
  induction start, cs using lexFrom.induct generalizing ts with
  | case1 start =>
    simp only [lexFrom, Except.ok.injEq] at h
    simp [← h]
  | case2 start c cs hgap ih =>
    rw [lexFrom, if_pos hgap] at h
    exact ih h
  | case3 start c cs hgap hscan =>
    rw [lexFrom, if_neg hgap] at h
    simp [hscan] at h
  | case4 start c cs hgap kind more hscan text =>
    rename_i ih
    rw [lexFrom, if_neg hgap] at h
    simp only [hscan] at h
    cases hrest : lexFrom (start + byteSize (c :: cs.take more)) (cs.drop more) with
    | error fault => simp [hrest, bind, Except.bind] at h
    | ok us =>
      simp only [hrest, bind, Except.bind, pure, Except.pure, Except.ok.injEq] at h
      subst h
      intro t ht
      rcases List.mem_cons.1 ht with rfl | ht
      · exact ⟨c, cs, more, hscan, rfl⟩
      · exact ih hrest t ht

/-- Every number among the tokens of a source is spelled by a magnitude. -/
theorem magnitude_of_lex {source : String} {ts : List Token} (h : lex source = .ok ts) :
    ∀ t ∈ ts, t.kind = .number → ∃ d, read? t.text = some (.decimal false d) := by
  intro t ht hk
  obtain ⟨c, cs, more, hscan, htext⟩ := scan_of_lexFrom h t ht
  rw [hk] at hscan
  have hsome := read?_of_scan hscan
  rw [read?_of_start (start_of_scan hscan), Option.isSome_map] at hsome
  obtain ⟨d, hd⟩ := Option.isSome_iff_exists.1 hsome
  refine ⟨d, ?_⟩
  rw [htext, read?_of_start (start_of_scan hscan), hd]
  rfl

/-- Every number among the tokens of a source has a value. -/
theorem number_of_lex {α : Type} [Scalar α] {source : String} {ts : List Token}
    (h : lex source = .ok ts) :
    ∀ t ∈ ts, t.kind = .number → ∃ v : α, Scalar.read? t.text = some v := by
  intro t ht hk
  obtain ⟨d, hd⟩ := magnitude_of_lex h t ht hk
  exact ⟨(Numeral.decimal false d).toScalar, by simp [Scalar.read?, hd]⟩

end FuzzyInference.Token
