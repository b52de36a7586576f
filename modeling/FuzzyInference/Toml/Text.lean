import FuzzyInference.Text.Basic
import FuzzyInference.Toml.Basic

/-!
# The small parts of TOML text

Blanks, comments, line ends, strings and keys. A reader gives what it read and
the characters behind it. Strings come in two kinds: basic ones, which have
escapes, and literal ones, which have none; each kind is written on one line or,
between three quotes, on several.
-/

namespace FuzzyInference.Toml

/-- What was read, and the characters behind it. -/
abbrev Rest (β : Type) : Type := β × List Char

/-- A reader of the start of a text. -/
abbrev Reader (β : Type) : Type := List Char → Option (Rest β)

/-! ## Blanks -/

/-- Whether a character is a blank within a line. -/
def isSpace (c : Char) : Bool := c == ' ' || c == '\t'

/-- Whether a character may stand in a comment or a string: no control character but
    the tab. -/
def isPlain (c : Char) : Bool := c == '\t' || (decide (32 ≤ c.toNat) && c.toNat != 127)

/-- Skips the blanks within a line. -/
def dropSpace (cs : List Char) : List Char := cs.dropWhile isSpace

/-- What follows a line feed, with or without a carriage return before it. -/
def afterNewline? : List Char → Option (List Char)
  | '\n' :: cs => some cs
  | '\r' :: '\n' :: cs => some cs
  | _ => none

/-- What follows the end of a line. Spaces and a comment may come before it. -/
def afterLine? (cs : List Char) : Option (List Char) :=
  let cs := match dropSpace cs with
    | '#' :: cs => cs.dropWhile isPlain
    | cs => cs
  if cs.isEmpty then some [] else afterNewline? cs

/-- Skips spaces and line ends. -/
def dropBlankLines : List Char → List Char
  | [] => []
  | '\r' :: '\n' :: cs => dropBlankLines cs
  | c :: cs => if c == '\n' || isSpace c then dropBlankLines cs else c :: cs

/-- Skips spaces, line ends and comments, from inside of a comment or outside. -/
def dropGap (comment : Bool) : List Char → List Char
  | [] => []
  | '\r' :: '\n' :: cs => dropGap false cs
  | c :: cs =>
    if c = '\n' then dropGap false cs
    else if (comment && isPlain c) || isSpace c then dropGap comment cs
    else if c = '#' then dropGap true cs
    else c :: cs

/-! ## Strings -/

/-- A character by its number, written in some digits. -/
def numberedChar (digits : Nat) (cs : List Char) : Option (Rest Char) :=
  let ds := cs.take digits
  let n := Text.natInBase 16 ds
  if ds.length = digits ∧ ds.all (Text.isDigitIn 16) ∧ n.isValidChar then
    some (Char.ofNat n, cs.drop digits)
  else none

/-- The character that an escape stands for, behind its backslash. -/
def escaped : Reader Char
  | 'b' :: cs => some ('\x08', cs)
  | 't' :: cs => some ('\t', cs)
  | 'n' :: cs => some ('\n', cs)
  | 'f' :: cs => some ('\x0c', cs)
  | 'r' :: cs => some ('\r', cs)
  | '"' :: cs => some ('"', cs)
  | '\\' :: cs => some ('\\', cs)
  | 'u' :: cs => numberedChar 4 cs
  | 'U' :: cs => numberedChar 8 cs
  | _ => none

/-- A string on one line, behind its opening quote. -/
def lineString (quote : Char) (done : List Char) (cs : List Char) : Option (Rest String) :=
  match cs with
  | [] => none
  | c :: cs =>
    if c = quote then some (String.ofList done.reverse, cs)
    else if c = '\\' ∧ quote = '"' then
      match escaped cs with
      | none => none
      | some (e, rest) =>
        if rest.length ≤ cs.length then lineString quote (e :: done) rest else none
    else if isPlain c then lineString quote (c :: done) cs
    else none
termination_by cs.length

/-- What follows a backslash at the end of a line, without the blanks in front of
    the next text. -/
def afterFoldedLine? (cs : List Char) : Option (List Char) :=
  (afterNewline? (dropSpace cs)).map dropBlankLines

/-- A string on several lines, behind its opening quotes. Up to two quotes in front
    of the closing three are part of it. -/
def blockString (quote : Char) (done : List Char) (cs : List Char) : Option (Rest String) :=
  match cs with
  | [] => none
  | c :: cs =>
    if c = quote then
      let more := (cs.takeWhile (· == quote)).length
      if more < 2 then blockString quote (quote :: done) cs
      else
        let inside := min (more - 2) 2
        some (String.ofList (done.reverse ++ List.replicate inside quote), cs.drop (inside + 2))
    else if c = '\\' ∧ quote = '"' then
      match afterFoldedLine? cs with
      | some rest => if rest.length ≤ cs.length then blockString quote done rest else none
      | none =>
        match escaped cs with
        | none => none
        | some (e, rest) =>
          if rest.length ≤ cs.length then blockString quote (e :: done) rest else none
    else if c = '\n' then blockString quote ('\n' :: done) cs
    else if c = '\r' then
      match cs with
      | '\n' :: rest => blockString quote ('\n' :: done) rest
      | _ => none
    else if isPlain c then blockString quote (c :: done) cs
    else none
termination_by cs.length

/-- A string, at its opening quote. A line end right behind three quotes is not part
    of it. -/
def quotedString : Reader String
  | '"' :: '"' :: '"' :: cs => blockString '"' [] ((afterNewline? cs).getD cs)
  | '\'' :: '\'' :: '\'' :: cs => blockString '\'' [] ((afterNewline? cs).getD cs)
  | '"' :: cs => lineString '"' [] cs
  | '\'' :: cs => lineString '\'' [] cs
  | _ => none

/-! ## Keys -/

/-- Whether a character may stand in a name without quotes. -/
def isBare (c : Char) : Bool := c.isAlphanum || c == '_' || c == '-'

/-- A name: bare, or a string on one line. -/
def keyName : Reader String
  | '"' :: cs => lineString '"' [] cs
  | '\'' :: cs => lineString '\'' [] cs
  | cs =>
    let name := cs.takeWhile isBare
    if name.isEmpty then none else some (String.ofList name, cs.dropWhile isBare)

/-- The names of a key, with points between them and spaces around. -/
def keyNames (done : List String) (cs : List Char) : Option (Rest (List String)) :=
  match keyName (dropSpace cs) with
  | none => none
  | some (name, after) =>
    match dropSpace after with
    | '.' :: rest => if rest.length < cs.length then keyNames (name :: done) rest else none
    | rest => some ((name :: done).reverse, rest)
termination_by cs.length

/-- How deep tables and arrays may be nested. -/
def depthLimit : Nat := 80

/-- A key with the spaces around it. -/
def key (cs : List Char) : Option (Rest Key) := do
  let (names, rest) ← keyNames [] cs
  let last ← names.getLast?
  if names.length < depthLimit then return (⟨names.dropLast, last⟩, rest) else none

end FuzzyInference.Toml
