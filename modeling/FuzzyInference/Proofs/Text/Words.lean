import FuzzyInference.Rule.Bracketed
import Mathlib.Data.List.Basic

/-!
# Words of joined texts

A blank ends a word, so the words of two texts with a blank between them are the
words of the one and then of the other. Blanks around a text add no words, and a
word without a blank in it is the only one of its text.

The words of a statement are those of the text with its signs spelled out. They
start with the words that its first word spells.

Results:

* `wordsOf_append`: the words of two texts with a blank between them.
* `wordsOf_trimmed` and `statementWords_trim`: blanks around a text do not count.
* `words_intercalate`: the words of joined words.
* `statementWordsOf_cons`: the words that a first word spells.
-/

namespace FuzzyInference.Text

/-! ## Blanks between texts -/

theorem splitWord_blank {c : Char} (hc : isBlank c = true) (cs : List Char) :
    splitWord (c :: cs) = ([], wordsOf cs) := by
  simp only [splitWord, hc, if_true]
  rfl

theorem splitWord_letter {c : Char} (hc : isBlank c = false) (cs : List Char) :
    splitWord (c :: cs) = (c :: (splitWord cs).1, (splitWord cs).2) := by
  simp only [splitWord, hc, Bool.false_eq_true, if_false]

theorem wordsOf_blank {c : Char} (hc : isBlank c = true) (cs : List Char) :
    wordsOf (c :: cs) = wordsOf cs := by
  rw [wordsOf, splitWord_blank hc]
  rfl

theorem wordsOf_letter {c : Char} (hc : isBlank c = false) (cs : List Char) :
    wordsOf (c :: cs) = (c :: (splitWord cs).1) :: (splitWord cs).2 := by
  rw [wordsOf, splitWord_letter hc]
  rfl

theorem wordsOf_eq (cs : List Char) :
    wordsOf cs =
      if (splitWord cs).1 = [] then (splitWord cs).2
      else (splitWord cs).1 :: (splitWord cs).2 := by
  simp only [wordsOf, List.isEmpty_iff]

theorem splitWord_append {c : Char} (hc : isBlank c = true) (cs ds : List Char) :
    splitWord (cs ++ c :: ds) = ((splitWord cs).1, (splitWord cs).2 ++ wordsOf ds) ∧
      wordsOf (cs ++ c :: ds) = wordsOf cs ++ wordsOf ds := by
  -- Both at once: a blank leads from the one to the other, a letter back.
  induction cs with
  | nil => exact ⟨splitWord_blank hc ds, wordsOf_blank hc ds⟩
  | cons d cs ih =>
    rw [List.cons_append]
    cases hd : isBlank d with
    | true =>
      rw [splitWord_blank hd, splitWord_blank hd, wordsOf_blank hd, wordsOf_blank hd, ih.2]
      exact ⟨rfl, rfl⟩
    | false =>
      rw [splitWord_letter hd, splitWord_letter hd, wordsOf_letter hd, wordsOf_letter hd, ih.1]
      exact ⟨rfl, rfl⟩

/-- The words of two texts with a blank between them. -/
theorem wordsOf_append {c : Char} (hc : isBlank c = true) (cs ds : List Char) :
    wordsOf (cs ++ c :: ds) = wordsOf cs ++ wordsOf ds := (splitWord_append hc cs ds).2

/-! ## Blanks around a text -/

theorem wordsOf_blanks_append {blank : List Char} (h : ∀ c ∈ blank, isBlank c = true)
    (cs : List Char) : wordsOf (blank ++ cs) = wordsOf cs := by
  induction blank with
  | nil => rfl
  | cons c blank ih =>
    obtain ⟨hc, hblank⟩ := List.forall_mem_cons.1 h
    rw [List.cons_append, wordsOf_blank hc, ih hblank]

theorem wordsOf_append_blanks {blank : List Char} (h : ∀ c ∈ blank, isBlank c = true)
    (cs : List Char) : wordsOf (cs ++ blank) = wordsOf cs := by
  cases blank with
  | nil => rw [List.append_nil]
  | cons c blank =>
    obtain ⟨hc, hblank⟩ := List.forall_mem_cons.1 h
    have hnone := wordsOf_blanks_append hblank []
    rw [List.append_nil] at hnone
    rw [wordsOf_append hc, hnone]
    exact List.append_nil _

theorem blank_of_mem_takeWhile {cs : List Char} {c : Char} (h : c ∈ cs.takeWhile isBlank) :
    isBlank c = true :=
  List.all_eq_true.1 List.all_takeWhile c h

theorem dropBlankEnd_append_end (cs : List Char) :
    dropBlankEnd cs ++ (cs.reverse.takeWhile isBlank).reverse = cs := by
  rw [dropBlankEnd, ← List.reverse_append, List.takeWhile_append_dropWhile, List.reverse_reverse]

/-- A text is its trimmed text with blanks around it. -/
theorem exists_trimmed (cs : List Char) :
    ∃ front back, cs = front ++ trimmed cs ++ back ∧ (∀ c ∈ front, isBlank c = true) ∧
      ∀ c ∈ back, isBlank c = true := by
  refine ⟨cs.takeWhile isBlank, ((cs.dropWhile isBlank).reverse.takeWhile isBlank).reverse, ?_,
    fun c => blank_of_mem_takeWhile, fun c hc => blank_of_mem_takeWhile (List.mem_reverse.1 hc)⟩
  rw [List.append_assoc, trimmed, dropBlankEnd_append_end, List.takeWhile_append_dropWhile]

theorem trimmed_eq_self {cs : List Char} (hfirst : ∀ c ∈ cs.head?, isBlank c = false)
    (hlast : ∀ c ∈ cs.getLast?, isBlank c = false) : trimmed cs = cs := by
  have hdrop : ∀ ds : List Char, (∀ c ∈ ds.head?, isBlank c = false) →
      ds.dropWhile isBlank = ds := by
    intro ds hds
    cases ds with
    | nil => rfl
    | cons c ds =>
      have hc := hds c rfl
      exact List.dropWhile_cons_of_neg (by rw [hc]; exact Bool.false_ne_true)
  rw [trimmed, hdrop cs hfirst, dropBlankEnd, hdrop, List.reverse_reverse]
  rwa [List.head?_reverse]

theorem wordsOf_trimmed (cs : List Char) : wordsOf (trimmed cs) = wordsOf cs := by
  obtain ⟨front, back, hcs, hfront, hback⟩ := exists_trimmed cs
  calc wordsOf (trimmed cs) = wordsOf (front ++ trimmed cs ++ back) := by
        rw [wordsOf_append_blanks hback, wordsOf_blanks_append hfront]
    _ = wordsOf cs := by rw [← hcs]

theorem words_trim (line : String) : words (trim line) = words line := by
  rw [words, trim, String.toList_ofList, wordsOf_trimmed, words]

/-! ## Words -/

/-- A word without a blank is the only one of its text. -/
theorem wordsOf_word {w : List Char} (hne : w ≠ []) (h : ∀ c ∈ w, isBlank c = false) :
    wordsOf w = [w] := by
  have hsplit : splitWord w = (w, []) := by
    clear hne
    induction w with
    | nil => rfl
    | cons c w ih =>
      obtain ⟨hc, hw⟩ := List.forall_mem_cons.1 h
      rw [splitWord_letter hc, ih hw]
  rw [wordsOf, hsplit]
  exact if_neg fun hempty => hne (List.isEmpty_iff.1 hempty)

theorem toList_intercalate_cons {w : String} {ws : List String} (h : ws ≠ []) :
    (" ".intercalate (w :: ws)).toList = w.toList ++ ' ' :: (" ".intercalate ws).toList := by
  rw [String.intercalate_cons_of_ne_nil h, String.toList_append, String.toList_append,
    List.append_assoc]
  rfl

/-- The words of joined words are the words. -/
theorem words_intercalate {ws : List String}
    (h : ∀ w ∈ ws, w ≠ "" ∧ ∀ c ∈ w.toList, isBlank c = false) :
    words (" ".intercalate ws) = ws := by
  induction ws with
  | nil => rfl
  | cons w ws ih =>
    obtain ⟨⟨hne, hw⟩, hws⟩ := List.forall_mem_cons.1 h
    have hchars : w.toList ≠ [] := fun e => hne (String.toList_eq_nil_iff.1 e)
    have hfirst : wordsOf w.toList = [w.toList] := wordsOf_word hchars hw
    by_cases hnil : ws = []
    · rw [hnil, String.intercalate_singleton, words, hfirst, List.map_singleton,
        String.ofList_toList]
    · have hspace : isBlank ' ' = true := by decide
      rw [words, toList_intercalate_cons hnil, wordsOf_append hspace, hfirst,
        List.singleton_append, List.map_cons, String.ofList_toList, ← words, ih hws]

theorem toList_intercalate_ne_nil {ws : List String} (hne : ws ≠ [])
    (h : ∀ w ∈ ws, w ≠ "" ∧ ∀ c ∈ w.toList, isBlank c = false) :
    (" ".intercalate ws).toList ≠ [] := by
  intro hnil
  have hws := words_intercalate h
  rw [words, hnil] at hws
  exact hne hws.symm

theorem wordsOf_eq_nil {cs : List Char} : wordsOf cs = [] ↔ ∀ c ∈ cs, isBlank c = true := by
  induction cs with
  | nil => exact ⟨fun _ => nofun, fun _ => rfl⟩
  | cons c cs ih =>
    cases hc : isBlank c with
    | true => simp [wordsOf_blank hc, hc, ih]
    | false => simp [wordsOf_letter hc, hc]

/-- Joined words have no blanks around them. -/
theorem trimmed_intercalate {ws : List String}
    (h : ∀ w ∈ ws, w ≠ "" ∧ ∀ c ∈ w.toList, isBlank c = false) :
    trimmed (" ".intercalate ws).toList = (" ".intercalate ws).toList := by
  suffices hends : (∀ c ∈ (" ".intercalate ws).toList.head?, isBlank c = false) ∧
      ∀ c ∈ (" ".intercalate ws).toList.getLast?,
        isBlank c = false from trimmed_eq_self hends.1 hends.2
  induction ws with
  | nil => exact ⟨nofun, nofun⟩
  | cons w ws ih =>
    obtain ⟨⟨hne, hw⟩, hws⟩ := List.forall_mem_cons.1 h
    have hchars : w.toList ≠ [] := fun e => hne (String.toList_eq_nil_iff.1 e)
    by_cases hnil : ws = []
    · rw [hnil, String.intercalate_singleton]
      exact ⟨fun c hc => hw c (List.mem_of_mem_head? hc),
        fun c hc => hw c (List.mem_of_getLast? hc)⟩
    · obtain ⟨v, vs, rfl⟩ := List.exists_cons_of_ne_nil hnil
      have hjoined : (" ".intercalate (v :: vs)).toList ≠ [] := toList_intercalate_ne_nil hnil hws
      rw [toList_intercalate_cons hnil, List.head?_append_of_ne_nil _ hchars,
        List.getLast?_append_of_ne_nil _
        (List.cons_ne_nil _ _), List.getLast?_cons_of_ne_nil hjoined]
      exact ⟨fun c hc => hw c (List.mem_of_mem_head? hc), (ih hws).2⟩

/-- Where the first word of a text ends. -/
theorem splitWord_rest (cs : List Char) :
    ∃ rest, cs = (splitWord cs).1 ++ rest ∧ ∀ c ∈ rest.head?, isBlank c = true := by
  induction cs with
  | nil => exact ⟨[], rfl, nofun⟩
  | cons c cs ih =>
    obtain ⟨rest, hcs, hrest⟩ := ih
    cases hc : isBlank c with
    | true => exact ⟨c :: cs, by rw [splitWord_blank hc, List.nil_append], by simpa using hc⟩
    | false => exact ⟨rest, by rw [splitWord_letter hc, List.cons_append, ← hcs], hrest⟩

/-- Where the first word of a text stands. -/
theorem exists_first {cs w : List Char} {ws : List (List Char)} (h : wordsOf cs = w :: ws) :
    ∃ front rest, cs = front ++ (w ++ rest) ∧ (∀ c ∈ front, isBlank c = true) ∧
      ∀ c ∈ rest.head?, isBlank c = true := by
  induction cs with
  | nil => cases h
  | cons c cs ih =>
    cases hc : isBlank c with
    | true =>
      rw [wordsOf_blank hc] at h
      obtain ⟨front, rest, hcs, hfront, hrest⟩ := ih h
      exact ⟨c :: front, rest, by rw [hcs, List.cons_append],
        List.forall_mem_cons.2 ⟨hc, hfront⟩, hrest⟩
    | false =>
      obtain ⟨rest, hcs, hrest⟩ := splitWord_rest cs
      rw [wordsOf_letter hc] at h
      obtain ⟨rfl, -⟩ := List.cons.inj h
      exact ⟨[], rest, by rw [List.nil_append, List.cons_append, ← hcs], by simp, hrest⟩

/-! ## Words of statements -/

theorem spaced_of_isBlank {c : Char} (h : isBlank c = true) : spaced c = [c] := by
  unfold spaced
  rw [if_neg, if_neg]
  · rintro (rfl | rfl | rfl) <;> exact absurd h (by decide)
  · rintro rfl
    exact absurd h (by decide)

theorem spaced_blanks {blank : List Char} (h : ∀ c ∈ blank, isBlank c = true) :
    blank.flatMap spaced = blank := by
  induction blank with
  | nil => rfl
  | cons c blank ih =>
    obtain ⟨hc, hblank⟩ := List.forall_mem_cons.1 h
    rw [List.flatMap_cons, spaced_of_isBlank hc, ih hblank]
    rfl

theorem statementWords_trim (line : String) : statementWords (trim line) = statementWords line := by
  obtain ⟨front, back, hcs, hfront, hback⟩ := exists_trimmed line.toList
  have hwords : wordsOf ((trimmed line.toList).flatMap spaced) =
      wordsOf (line.toList.flatMap spaced) :=
    calc wordsOf ((trimmed line.toList).flatMap spaced)
      _ = wordsOf ((front ++ trimmed line.toList ++ back).flatMap spaced) := by
        rw [List.flatMap_append, List.flatMap_append, spaced_blanks hfront, spaced_blanks hback,
          wordsOf_append_blanks hback, wordsOf_blanks_append hfront]
      _ = wordsOf (line.toList.flatMap spaced) := by rw [← hcs]
  rw [statementWords, trim, String.toList_ofList, hwords, statementWords]

/-- The words that the first word of a text spells come first in the statement. -/
theorem statementWordsOf_cons {cs w : List Char} {ws : List (List Char)}
    (h : wordsOf cs = w :: ws) :
    ∃ more, wordsOf (cs.flatMap spaced) = wordsOf (w.flatMap spaced) ++ more := by
  obtain ⟨front, rest, rfl, hfront, hrest⟩ := exists_first h
  rw [List.flatMap_append, spaced_blanks hfront, wordsOf_blanks_append hfront, List.flatMap_append]
  cases rest with
  | nil => exact ⟨[], by rw [List.flatMap_nil, List.append_nil, List.append_nil]⟩
  | cons c rest =>
    have hc : isBlank c = true := hrest c rfl
    refine ⟨wordsOf (rest.flatMap spaced), ?_⟩
    rw [List.flatMap_cons, spaced_of_isBlank hc, List.singleton_append, wordsOf_append hc]

end FuzzyInference.Text
