import FuzzyInference.Error.Compile
import FuzzyInference.Text.Quoted

/-!
# Tokens of formulas

A formula is cut into tokens, each the longest one that starts where it stands:
numbers, names, operators, parentheses and commas. Blanks, tabs, line ends and
form feeds separate tokens. A name may hold dots after its first character.

The power of ten of a number belongs to it only if it is complete, so `1e` is
the number `1` and the name `e`. The shapes of numbers and names are the patterns
of the engine's `TokenKind`.
-/

namespace FuzzyInference

/-- The kinds of token (the engine's `TokenKind`). -/
inductive TokenKind where
  | number
  | name
  | power
  | floorDivide
  | plus
  | minus
  | times
  | divide
  | remainder
  | opening
  | closing
  | comma
  deriving Repr, DecidableEq

/-- A token, its text and the byte of the source it starts at (the engine's
    `Token`). -/
structure Token where
  kind : TokenKind
  text : String
  start : Nat
  deriving Repr, DecidableEq

namespace Token

/-- Characters between tokens (within the engine's `TokenKind`). -/
def isGap (c : Char) : Bool := c == ' ' || c == '\t' || c == '\r' || c == '\n' || c == '\x0c'

/-- Characters a name may start with (the engine's `TokenKind.Ident`). -/
def isNameStart (c : Char) : Bool := c == '_' || c.isAlpha

/-- Characters a name may go on with (the engine's `TokenKind.Ident`). -/
def isNameRest (c : Char) : Bool := c == '_' || c == '.' || c.isAlphanum

/-- How many digits a text starts with. -/
def digitRun (cs : List Char) : Nat := (cs.takeWhile Char.isDigit).length

/-- The length of the complete power of ten a text starts with. -/
def powerRun : List Char → Nat
  | [] => 0
  | c :: cs =>
    if c = 'e' ∨ c = 'E' then
      match cs with
      | [] => 0
      | s :: ds =>
        if s = '+' ∨ s = '-' then if digitRun ds = 0 then 0 else 2 + digitRun ds
        else if digitRun cs = 0 then 0 else 1 + digitRun cs
    else 0

/-- The length of what follows the first digit of a number (the engine's
    `TokenKind.Number`). -/
def numberRun (cs : List Char) : Nat :=
  let whole := digitRun cs
  let mantissa := match cs.drop whole with
    | '.' :: rest => whole + 1 + digitRun rest
    | _ => whole
  mantissa + powerRun (cs.drop mantissa)

/-- The kind of the token that starts with a character, and how many more characters
    it has. -/
def scan (c : Char) (cs : List Char) : Option (TokenKind × Nat) :=
  if c.isDigit then some (.number, numberRun cs)
  else if isNameStart c then some (.name, (cs.takeWhile isNameRest).length)
  else match c, cs with
    | '.', cs =>
      let places := digitRun cs
      if places = 0 then none else some (.number, places + powerRun (cs.drop places))
    | '*', '*' :: _ => some (.power, 1)
    | '/', '/' :: _ => some (.floorDivide, 1)
    | '+', _ => some (.plus, 0)
    | '-', _ => some (.minus, 0)
    | '*', _ => some (.times, 0)
    | '/', _ => some (.divide, 0)
    | '%', _ => some (.remainder, 0)
    | '(', _ => some (.opening, 0)
    | ')', _ => some (.closing, 0)
    | ',', _ => some (.comma, 0)
    | _, _ => none

/-- The bytes of a text. -/
def byteSize (cs : List Char) : Nat := cs.foldr (fun c n => c.utf8Size + n) 0

/-- The tokens of a text that starts at a byte of the source. -/
def lexFrom (start : Nat) : List Char → Except CompileFault (List Token)
  | [] => .ok []
  | c :: cs =>
    if isGap c then lexFrom (start + c.utf8Size) cs
    else match scan c cs with
      | none => .error (.badCharacter start (String.ofList (Text.quotedOf [c])))
      | some (kind, more) => do
        let text := c :: cs.take more
        let rest ← lexFrom (start + byteSize text) (cs.drop more)
        return ⟨kind, String.ofList text, start⟩ :: rest
termination_by cs => cs.length
decreasing_by
  · simp
  · simp only [List.length_drop, List.length_cons]; omega

/-- The tokens of a source (the engine's `lex`). -/
def lex (source : String) : Except CompileFault (List Token) := lexFrom 0 source.toList

end Token

end FuzzyInference
