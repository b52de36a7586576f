import FuzzyInference.Decimal.Notation
import FuzzyInference.Json.Basic

/-!
# Writing JSON

Documents are written with two blanks for each level, one member or item on a
line, in the order they are given. Numbers that are not finite are written as
`null`.
-/

namespace FuzzyInference.Json

/-- The escape of one character of a JSON string. -/
def escape (c : Char) : List Char :=
  match c with
  | '"' => ['\\', '"']
  | '\\' => ['\\', '\\']
  | '\n' => ['\\', 'n']
  | '\r' => ['\\', 'r']
  | '\t' => ['\\', 't']
  | '\x08' => ['\\', 'b']
  | '\x0c' => ['\\', 'f']
  | c =>
    if c.toNat < 32 then
      let digits := Nat.toDigits 16 c.toNat
      '\\' :: 'u' :: List.replicate (4 - digits.length) '0' ++ digits
    else [c]

/-- A JSON string. -/
def quote (s : String) : String := "\"" ++ String.ofList (s.toList.flatMap escape) ++ "\""

/-- The blanks of a level. -/
def indent (level : Nat) : String := String.ofList (List.replicate (2 * level) ' ')

/-- Items between brackets, one on a line. -/
def bracketed (level : Nat) (opening closing : String) (items : List String) : String :=
  match items with
  | [] => opening ++ closing
  | items =>
    let inner := indent (level + 1)
    opening ++ "\n" ++ inner ++ (",\n" ++ inner).intercalate items ++ "\n" ++
      indent level ++ closing

mutual

/-- The text of a value at a level. -/
def writeAt (level : Nat) : Json Float → String
  | .null => "null"
  | .bool b => if b then "true" else "false"
  | .int n => toString n
  | .float x => FloatText.document.write x
  | .string s => quote s
  | .array items => bracketed level "[" "]" (writeItems (level + 1) items)
  | .object members => bracketed level "\x7b" "\x7d" (writeMembers (level + 1) members)
  | .unreadable => "null"

/-- The texts of several values at a level. -/
def writeItems (level : Nat) : List (Json Float) → List String
  | [] => []
  | j :: js => writeAt level j :: writeItems level js

/-- The texts of several members at a level. -/
def writeMembers (level : Nat) : List (String × Json Float) → List String
  | [] => []
  | (name, j) :: rest => (quote name ++ ": " ++ writeAt level j) :: writeMembers level rest

end

/-- The text of a document (the engine's `to_string`). -/
def write (j : Json Float) : String := writeAt 0 j

end FuzzyInference.Json
