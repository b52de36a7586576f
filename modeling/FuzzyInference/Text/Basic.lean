/-!
# Characters, words and lines

A property of characters changes at few code points, so a set of characters is written as the
increasing list of the code points where membership changes: the first one enters the set, the
second leaves it, and so on.

Text is cut at blanks (the white space of every script) into words, and at line feeds into lines.
A carriage return just before a line feed belongs to the line ending. Digits are read in bases up
to sixteen, in either letter case.

Results:

* `words_no_blank`: no word holds a blank.
* `words_ne_nil`: no word is empty.
-/

namespace FuzzyInference

/-! ## Sets of characters -/

/-- A set of characters, as the code points where membership changes. -/
structure CharSet where
  changes : List Nat

namespace CharSet

/-- A character is in the set when an odd number of changes lie at or before it. -/
def has (s : CharSet) (c : Char) : Bool :=
  (s.changes.takeWhile (fun n => decide (n ≤ c.toNat))).length % 2 == 1

end CharSet

/-! ## Words and lines -/

namespace Text

/-- White space of every script. -/
def blanks : CharSet where
  changes := [0x9, 0xe, 0x20, 0x21, 0x85, 0x86, 0xa0, 0xa1, 0x1680, 0x1681, 0x2000, 0x200b, 0x2028,
    0x202a, 0x202f, 0x2030, 0x205f, 0x2060, 0x3000, 0x3001]

/-- Whether a character is white space. -/
def isBlank (c : Char) : Bool := blanks.has c

/-- The word a text starts with, empty if it starts with a blank, and the words
    after it. -/
def splitWord : List Char → List Char × List (List Char)
  | [] => ([], [])
  | c :: cs =>
    let (word, rest) := splitWord cs
    if isBlank c then ([], if word.isEmpty then rest else word :: rest) else (c :: word, rest)

/-- The words of a text. -/
def wordsOf (cs : List Char) : List (List Char) :=
  let (word, rest) := splitWord cs
  if word.isEmpty then rest else word :: rest

/-- The words of a text. -/
def words (s : String) : List String := (wordsOf s.toList).map String.ofList

/-- A text without the blanks at its end. -/
def dropBlankEnd (cs : List Char) : List Char := (cs.reverse.dropWhile isBlank).reverse

/-- A text without the blanks at its start and end. -/
def trimmed (cs : List Char) : List Char := dropBlankEnd (cs.dropWhile isBlank)

/-- A text without the blanks at its start and end. -/
def trim (s : String) : String := String.ofList (trimmed s.toList)

/-- The lines of a text; a text that ends in a line feed has no line after it. -/
def linesOf : List Char → List (List Char)
  | [] => []
  | '\n' :: cs => [] :: linesOf cs
  | '\r' :: '\n' :: cs => [] :: linesOf cs
  | c :: cs =>
    match linesOf cs with
    | [] => [[c]]
    | line :: rest => (c :: line) :: rest

/-- The lines of a text. -/
def lines (s : String) : List String := (linesOf s.toList).map String.ofList

theorem splitWord_no_blank (cs : List Char) :
    (∀ c ∈ (splitWord cs).1, isBlank c = false) ∧
      ∀ w ∈ (splitWord cs).2, w ≠ [] ∧ ∀ c ∈ w, isBlank c = false := by
  induction cs with
  | nil => simp [splitWord]
  | cons c cs ih =>
    obtain ⟨hword, hrest⟩ := ih
    cases hc : isBlank c with
    | false =>
      simp only [splitWord, hc]
      refine ⟨?_, hrest⟩
      intro x hx
      rcases List.mem_cons.1 hx with rfl | hx
      · exact hc
      · exact hword x hx
    | true =>
      simp only [splitWord, hc]
      refine ⟨by simp, ?_⟩
      intro w hw
      cases he : (splitWord cs).1 with
      | nil => exact hrest w (by simpa [he] using hw)
      | cons d ds =>
        simp only [he, List.isEmpty_cons] at hw
        rcases List.mem_cons.1 hw with rfl | hw
        · exact ⟨by simp, by simpa [he] using hword⟩
        · exact hrest w hw

theorem wordsOf_mem {cs w : List Char} (h : w ∈ wordsOf cs) :
    w ≠ [] ∧ ∀ c ∈ w, isBlank c = false := by
  obtain ⟨hword, hrest⟩ := splitWord_no_blank cs
  unfold wordsOf at h
  cases he : (splitWord cs).1 with
  | nil => exact hrest w (by simpa [he] using h)
  | cons d ds =>
    simp only [he, List.isEmpty_cons] at h
    rcases List.mem_cons.1 h with rfl | h
    · exact ⟨by simp, by simpa [he] using hword⟩
    · exact hrest w h

theorem words_ne_nil {cs w : List Char} (h : w ∈ wordsOf cs) : w ≠ [] := (wordsOf_mem h).1

theorem words_no_blank {cs w : List Char} (h : w ∈ wordsOf cs) : ∀ c ∈ w, isBlank c = false :=
  (wordsOf_mem h).2

/-! ## Digits -/

/-- The value of a hexadecimal digit. -/
def hexDigit? (c : Char) : Option Nat :=
  if c.isDigit then some (c.toNat - 48)
  else if 'a' ≤ c ∧ c ≤ 'f' then some (c.toNat - 87)
  else if 'A' ≤ c ∧ c ≤ 'F' then some (c.toNat - 55)
  else none

/-- Whether a character is a digit in a base of at most sixteen. -/
def isDigitIn (base : Nat) (c : Char) : Bool :=
  match hexDigit? c with
  | some n => decide (n < base)
  | none => false

/-- The value of digits in a base. Other characters count as zero. -/
def natInBase (base : Nat) (cs : List Char) : Nat :=
  cs.foldl (fun n c => base * n + (hexDigit? c).getD 0) 0

end Text

end FuzzyInference
