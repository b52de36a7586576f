import FuzzyInference.Toml.Number

/-!
# Reading TOML

The values and the statements of a TOML text, and the tables that the whole text
builds. A text is refused as a whole if any part of it is malformed.
-/

namespace FuzzyInference.Toml

/-! ## Values -/

/-- The items of an array behind its opening bracket. A comma may follow the last
    one. -/
def items {β : Type} (item : Reader β) (done : List β) (cs : List Char) :
    Option (Rest (List β)) :=
  match dropGap false cs with
  | ']' :: rest => some (done.reverse, rest)
  | start =>
    match item start with
    | none => none
    | some (v, after) =>
      match dropGap false after with
      | ',' :: rest => if rest.length < cs.length then items item (v :: done) rest else none
      | ']' :: rest => some ((v :: done).reverse, rest)
      | _ => none
termination_by cs.length

/-- A key, an equals sign and a value. -/
def keyValue (value : Reader (Toml Float)) (cs : List Char) : Option (Rest (Key × Toml Float)) := do
  let (k, cs) ← key cs
  let (v, rest) ← value (dropSpace (← after? '=' cs))
  return ((k, v), rest)

/-- The entries of a written table behind its opening brace, of which there is at
    least one. -/
def entries (value : Reader (Toml Float)) (done : Entries Float) (cs : List Char) :
    Option (Rest (Entries Float)) :=
  match keyValue value cs with
  | none => none
  | some ((k, v), after) =>
    match putKey k v done with
    | none => none
    | some done =>
      match dropSpace after with
      | ',' :: rest => if rest.length < cs.length then entries value done rest else none
      | '\x7d' :: rest => some (done, rest)
      | _ => none
termination_by cs.length

/-- A value at its first character, with some levels of nesting left. -/
def value (levels : Nat) (cs : List Char) : Option (Rest (Toml Float)) :=
  match cs with
  | '"' :: _ => (quotedString cs).map fun (s, rest) => (.string s, rest)
  | '\'' :: _ => (quotedString cs).map fun (s, rest) => (.string s, rest)
  | 't' :: 'r' :: 'u' :: 'e' :: rest => some (.bool true, rest)
  | 'f' :: 'a' :: 'l' :: 's' :: 'e' :: rest => some (.bool false, rest)
  | '[' :: cs =>
    match levels with
    | 0 => none
    | n + 1 => (items (value n) [] cs).map fun (vs, rest) => (.array vs, rest)
  | '\x7b' :: cs =>
    match levels with
    | 0 => none
    | n + 1 =>
      match dropSpace cs with
      | '\x7d' :: rest => some (.table .inline [], rest)
      | _ => (entries (value n) [] cs).map fun (es, rest) => (.table .inline es, rest)
  | _ => (moment cs).or (number cs)

/-! ## Statements -/

/-- A statement through the end of its line. -/
def statement (cs : List Char) : Option (Rest (Statement Float)) :=
  match cs with
  | '[' :: '[' :: cs => do
    let (k, cs) ← key cs
    return (.nextHeader k, ← afterLine? (← after? ']' (← after? ']' cs)))
  | '[' :: cs => do
    let (k, cs) ← key cs
    return (.header k, ← afterLine? (← after? ']' cs))
  | cs => do
    let ((k, v), cs) ← keyValue (value (depthLimit - 1)) cs
    return (.entry k v, ← afterLine? cs)

/-- The statements of a text. Lines may be blank or hold only a comment. -/
def statements (done : List (Statement Float)) (cs : List Char) : Option (List (Statement Float)) :=
  match afterLine? cs with
  | some [] => some done.reverse
  | some (c :: rest) =>
    if (c :: rest).length < cs.length then statements done (c :: rest) else none
  | none =>
    match statement (dropSpace cs) with
    | none => none
    | some (s, []) => some (s :: done).reverse
    | some (s, rest) => if rest.length < cs.length then statements (s :: done) rest else none
termination_by cs.length

/-- The tables that a text builds. A mark of the byte order in front of it is
    skipped. -/
def read? (s : String) : Option (Entries Float) := do
  let cs := match s.toList with
    | '\ufeff' :: cs => cs
    | cs => cs
  ofStatements? (← statements [] cs)

end FuzzyInference.Toml
