import FuzzyInference.Scalar.Numeral
import FuzzyInference.Json.Basic
import FuzzyInference.Text.Basic

/-!
# Reading JSON

A reader of JSON text. Whole numbers of 64 bits are kept as such, other numbers
become the nearest scalar. Text that is well formed but has no value is read as
`unreadable`.

Every step gives what it read and the characters left, of which there are fewer
than before; their number bounds the recursion.

Results:

* `length_dropGap_le`: skipping blanks never adds characters.
-/

namespace FuzzyInference.Json

/-- What a step read, and the characters left. -/
abbrev Read (β : Type) (cs : List Char) : Type :=
  Option (β × { rest : List Char // rest.length < cs.length })

/-- The white space of JSON. -/
def isGap (c : Char) : Bool := c == ' ' || c == '\n' || c == '\t' || c == '\r'

/-- A text without the white space at its start. -/
def dropGap (cs : List Char) : List Char := cs.dropWhile isGap

theorem length_dropGap_le (cs : List Char) : (dropGap cs).length ≤ cs.length := by
  induction cs with
  | nil => simp [dropGap]
  | cons c cs ih =>
    simp only [dropGap, List.dropWhile_cons] at ih ⊢
    split
    · simp only [List.length_cons]; omega
    · simp

/-! ## Strings -/

/-- A string, unless it holds half of a surrogate pair. -/
structure Quoted where
  chars : List Char
  whole : Bool

/-- The value of four hexadecimal digits. -/
def hexCode? (a b c d : Char) : Option Nat :=
  if [a, b, c, d].all (Text.isDigitIn 16) then some (Text.natInBase 16 [a, b, c, d]) else none

/-- The characters with an escape of one letter. -/
def shortEscape? : Char → Option Char
  | '"' => some '"'
  | '\\' => some '\\'
  | '/' => some '/'
  | 'b' => some '\x08'
  | 'f' => some '\x0c'
  | 'n' => some '\n'
  | 'r' => some '\r'
  | 't' => some '\t'
  | _ => none

/-- A string behind its opening quote, through the closing one. `high` is the first
    half of a surrogate pair, read just before. -/
def readString (high : Option Nat) (done : List Char) (whole : Bool) :
    List Char → Option (Quoted × List Char)
  | [] => none
  | '"' :: cs => some (⟨done.reverse, whole && high.isNone⟩, cs)
  | '\\' :: 'u' :: a :: b :: c :: d :: cs =>
    match hexCode? a b c d with
    | none => none
    | some n =>
      if 0xd800 ≤ n ∧ n < 0xdc00 then readString (some n) done (whole && high.isNone) cs
      else if 0xdc00 ≤ n ∧ n < 0xe000 then
        match high with
        | some h =>
          readString none (Char.ofNat (0x10000 + 1024 * (h - 0xd800) + (n - 0xdc00)) ::
            done) whole cs
        | none => readString none done false cs
      else readString none (Char.ofNat n :: done) (whole && high.isNone) cs
  | '\\' :: e :: cs =>
    match shortEscape? e with
    | none => none
    | some c => readString none (c :: done) (whole && high.isNone) cs
  | c :: cs =>
    if c.toNat < 32 ∨ c = '\\' then none
    else readString none (c :: done) (whole && high.isNone) cs

theorem length_readString {high : Option Nat} {done : List Char} {whole : Bool} {cs : List Char}
    {q : Quoted} {rest : List Char} (h : readString high done whole cs = some (q, rest)) :
    rest.length < cs.length := by
  fun_induction readString high done whole cs <;> simp_all <;> omega

/-- A string with the bound on what is left. -/
def quotedString (cs : List Char) : Read Quoted cs :=
  match h : readString none [] true cs with
  | none => none
  | some (q, rest) => some (q, ⟨rest, length_readString h⟩)

/-! ## Numbers -/

/-- The digits of a number and its sign, before they get a value. -/
structure NumberText where
  negative : Bool
  whole : List Char
  fraction : List Char
  power : Option Int

/-- Whole digits, with no zero in front of others. -/
def wholeDigits (cs : List Char) : Option (List Char × List Char) :=
  match Numeral.takeDigits cs with
  | ([], _) => none
  | ('0' :: _ :: _, _) => none
  | (ds, rest) => some (ds, rest)

/-- A fraction, if there is one, and what follows. -/
def fractionDigits : List Char → Option (List Char × List Char)
  | '.' :: cs =>
    match Numeral.takeDigits cs with
    | ([], _) => none
    | (ds, rest) => some (ds, rest)
  | cs => some ([], cs)

/-- A power of ten, if there is one, and what follows. -/
def powerDigits : List Char → Option (Option Int × List Char)
  | [] => some (none, [])
  | c :: cs =>
    if c = 'e' ∨ c = 'E' then
      let (negative, cs) := Numeral.takeSign cs
      match Numeral.takeDigits cs with
      | ([], _) => none
      | (ds, rest) =>
        let n : Int := Numeral.natOfDigits ds
        some (some (if negative then -n else n), rest)
    else some (none, c :: cs)

/-- The text of a number and what follows it. -/
def numberText (cs : List Char) : Option (NumberText × List Char) := do
  let (negative, cs) := match cs with
    | '-' :: cs => (true, cs)
    | cs => (false, cs)
  let (whole, cs) ← wholeDigits cs
  let (fraction, cs) ← fractionDigits cs
  let (power, cs) ← powerDigits cs
  return (⟨negative, whole, fraction, power⟩, cs)

/-- The value of a number: a whole number of 64 bits, or the nearest scalar if it is
    finite. -/
def numberValue (t : NumberText) : Json Float :=
  let sign (x : Float) : Float := if t.negative then -x else x
  let n := Numeral.natOfDigits t.whole
  if t.fraction.isEmpty && t.power.isNone && !(t.negative && n == 0) &&
      (if t.negative then n ≤ Nat.pow 2 63 else n < Nat.pow 2 64) then
    .int (if t.negative then -(n : Int) else n)
  else
    let x := Numeral.toFloat
      ⟨Numeral.natOfDigits (t.whole ++ t.fraction), t.power.getD 0 - (t.fraction.length : Int)⟩
    if x.isInf then .unreadable else .float (sign x)

/-- A number with the bound on what is left. -/
def number (cs : List Char) : Read (Json Float) cs :=
  match numberText cs with
  | none => none
  | some (t, rest) => if h : rest.length < cs.length then some (numberValue t, ⟨rest, h⟩) else none

/-! ## Values -/

/-- The deepest nesting that has a value. -/
def depthLimit : Nat := 127

/-- A container at a depth, unless it is too deep. -/
def limited (depth : Nat) (j : Json Float) : Json Float :=
  if depthLimit < depth then .unreadable else j

/-- A word with a value of its own. -/
def keyword (cs : List Char) : Read (Json Float) cs :=
  match cs with
  | 'n' :: 'u' :: 'l' :: 'l' :: cs => some (.null, ⟨cs, by simp only [List.length_cons]; omega⟩)
  | 't' :: 'r' :: 'u' :: 'e' :: cs =>
    some (.bool true, ⟨cs, by simp only [List.length_cons]; omega⟩)
  | 'f' :: 'a' :: 'l' :: 's' :: 'e' :: cs =>
    some (.bool false, ⟨cs, by simp only [List.length_cons]; omega⟩)
  | _ => none

mutual

/-- A value that starts with the first character, inside of `depth` containers. -/
def value (depth : Nat) (cs : List Char) : Read (Json Float) cs :=
  match cs with
  | [] => none
  | '"' :: cs =>
    match quotedString cs with
    | none => none
    | some (q, ⟨rest, h⟩) =>
      some (if q.whole then .string (String.ofList q.chars) else .unreadable,
        ⟨rest, by simp only [List.length_cons]; omega⟩)
  | '[' :: cs =>
    match hs : dropGap cs with
    | [] => none
    | c :: rest =>
      have hle := length_dropGap_le cs
      if c = ']' then
        some (limited (depth + 1) (.array []), ⟨rest, by
          rw [hs] at hle; simp only [List.length_cons] at hle ⊢; omega⟩)
      else
        match items (depth + 1) [] (c :: rest) with
        | none => none
        | some (js, ⟨rest', h⟩) =>
          some (limited (depth + 1) (.array js), ⟨rest', by
            rw [hs] at hle; simp only [List.length_cons] at hle h ⊢; omega⟩)
  | '\x7b' :: cs =>
    match hs : dropGap cs with
    | [] => none
    | c :: rest =>
      have hle := length_dropGap_le cs
      if c = '\x7d' then
        some (limited (depth + 1) (.object []), ⟨rest, by
          rw [hs] at hle; simp only [List.length_cons] at hle ⊢; omega⟩)
      else
        match members (depth + 1) [] true (c :: rest) with
        | none => none
        | some (j, ⟨rest', h⟩) =>
          some (limited (depth + 1) j, ⟨rest', by
            rw [hs] at hle; simp only [List.length_cons] at hle h ⊢; omega⟩)
  | c :: cs => if c.isDigit || c == '-' then number (c :: cs) else keyword (c :: cs)
termination_by (cs.length, 0)
decreasing_by
  all_goals apply Prod.Lex.left
  all_goals rw [hs] at hle
  all_goals simp only [List.length_cons] at hle ⊢
  all_goals omega

/-- The items of an array through its closing bracket; `done` are the ones before,
    in reverse. -/
def items (depth : Nat) (done : List (Json Float)) (cs : List Char) : Read (List (Json Float)) cs :=
  match value depth cs with
  | none => none
  | some (j, ⟨after, h⟩) =>
    match hs : dropGap after with
    | [] => none
    | c :: rest =>
      have hle := length_dropGap_le after
      if c = ',' then
        have hgap := length_dropGap_le rest
        match items depth (j :: done) (dropGap rest) with
        | none => none
        | some (js, ⟨rest', h'⟩) =>
          some (js, ⟨rest', by rw [hs] at hle; simp only [List.length_cons] at hle; omega⟩)
      else if c = ']' then
        some ((j :: done).reverse,
          ⟨rest, by rw [hs] at hle; simp only [List.length_cons] at hle; omega⟩)
      else none
termination_by (cs.length, 1)
decreasing_by
  · apply Prod.Lex.right; omega
  · apply Prod.Lex.left
    rw [hs] at hle
    simp only [List.length_cons] at hle
    omega

/-- The members of an object through its closing bracket; `done` are the ones
    before, in reverse, and `whole` says whether their names have values. -/
def members (depth : Nat) (done : List (String × Json Float)) (whole : Bool) (cs : List Char) :
    Read (Json Float) cs :=
  match cs with
  | '"' :: cs =>
    match quotedString cs with
    | none => none
    | some (q, ⟨after, h₁⟩) =>
      match hs₁ : dropGap after with
      | [] => none
      | c :: afterColon =>
        have hle₁ := length_dropGap_le after
        if c = ':' then
          have hgap₁ := length_dropGap_le afterColon
          match value depth (dropGap afterColon) with
          | none => none
          | some (j, ⟨afterValue, h₂⟩) =>
            match hs₂ : dropGap afterValue with
            | [] => none
            | c :: rest =>
              have hle₂ := length_dropGap_le afterValue
              let done' := (String.ofList q.chars, j) :: done
              if c = ',' then
                have hgap₂ := length_dropGap_le rest
                match members depth done' (whole && q.whole) (dropGap rest) with
                | none => none
                | some (o, ⟨rest', h₃⟩) =>
                  some (o, ⟨rest', by
                    rw [hs₁] at hle₁; rw [hs₂] at hle₂
                    simp only [List.length_cons] at hle₁ hle₂ ⊢; omega⟩)
              else if c = '\x7d' then
                some (if whole && q.whole then .object done'.reverse else .unreadable, ⟨rest, by
                  rw [hs₁] at hle₁; rw [hs₂] at hle₂
                  simp only [List.length_cons] at hle₁ hle₂ ⊢; omega⟩)
              else none
        else none
  | _ => none
termination_by (cs.length, 1)
decreasing_by
  · apply Prod.Lex.left
    rw [hs₁] at hle₁
    simp only [List.length_cons] at hle₁ ⊢
    omega
  · apply Prod.Lex.left
    rw [hs₁] at hle₁
    rw [hs₂] at hle₂
    simp only [List.length_cons] at hle₁ hle₂ ⊢
    omega

end

/-- The value of a text that holds nothing else (within the engine's `from_str`). -/
def read? (s : String) : Option (Json Float) :=
  match value 0 (dropGap s.toList) with
  | none => none
  | some (j, ⟨rest, _⟩) => if (dropGap rest).isEmpty then some j else none

end FuzzyInference.Json
