import FuzzyInference.Error.Compile
import FuzzyInference.Text.Basic

/-!
# Words and parentheses of rule text

A statement of the rule language is a list of words. `=` is another way to write
the word `is`, and parentheses and commas are words of their own wherever they
stand.

The parentheses of a condition nest its words into groups, each a list of parts
between commas. Outside of groups a comma is a word like any other.

Results:

* `build_word`: a plain word is added to the level it stands in.
-/

namespace FuzzyInference

namespace Text

/-- A character of rule text with the blanks and spelling it stands for (within the
    engine's `tokenize`). -/
def spaced (c : Char) : List Char :=
  if c = '=' then [' ', 'i', 's', ' ']
  else if c = '(' ∨ c = ')' ∨ c = ',' then [' ', c, ' ']
  else [c]

/-- The words of a statement (the engine's `tokenize`). -/
def statementWords (line : String) : List String :=
  (wordsOf (line.toList.flatMap spaced)).map String.ofList

end Text

/-- A word, or a group of parts between parentheses (within the engine's
    `fold_groups`). -/
inductive Bracketed where
  | word (w : String)
  | group (parts : List (List Bracketed))

namespace Bracketed

/-- The words of one level, and whether a closing parenthesis without an opening one
    cut it short (within the engine's `fold_groups`). -/
structure Level where
  items : List Bracketed
  stray : Bool

/-- A group that is not closed yet: what stands before it in its part, and the parts
    before that one, all in reverse (within the engine's `matching_paren`). -/
structure Open where
  before : List Bracketed
  parts : List (List Bracketed)

/-- Nests words into groups (within the engine's `fold_groups`). `here` is the part
    being read and `parts` the parts before it in its group, both in reverse;
    `opened` are the groups around it, innermost first. -/
def build (here : List Bracketed) (parts : List (List Bracketed)) :
    List Open → List String → Except CompileFault Level
  | [], [] => .ok ⟨here.reverse, false⟩
  | _ :: _, [] => .error .unmatchedOpening
  | opened, w :: ws =>
    if w = "(" then build [] [] (⟨here, parts⟩ :: opened) ws
    else if w = ")" then
      match opened with
      | [] => .ok ⟨here.reverse, true⟩
      | o :: rest => build (.group (here.reverse :: parts).reverse :: o.before) o.parts rest ws
    else if w = "," then
      match opened with
      | [] => build (.word w :: here) parts [] ws
      | o :: rest => build [] (here.reverse :: parts) (o :: rest) ws
    else build (.word w :: here) parts opened ws

/-- The words of a condition nested by their parentheses, of which there have to be
    as many opening as closing ones (within the engine's `parse_tokens`). -/
def ofWords (ws : List String) : Except CompileFault Level :=
  let opening := ws.countP (· == "(")
  let closing := ws.countP (· == ")")
  if closing < opening then .error .moreOpening
  else if opening < closing then .error .moreClosing
  else build [] [] [] ws

theorem build_word {w : String} (hw : w ≠ "(" ∧ w ≠ ")" ∧ w ≠ ",") (here : List Bracketed)
    (parts : List (List Bracketed)) (opened : List Open) (ws : List String) :
    build here parts opened (w :: ws) = build (.word w :: here) parts opened ws := by
  cases opened <;> simp [build, hw.1, hw.2.1, hw.2.2]

end Bracketed

end FuzzyInference
