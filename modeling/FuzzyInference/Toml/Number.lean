import FuzzyInference.Scalar.Numeral
import FuzzyInference.Toml.Text

/-!
# Numbers and dates of TOML

Whole numbers have 64 bits and are written in base ten, or without a sign in
base sixteen, eight or two. Digits may have single underscores between them. A
decimal number with a fraction or a power of ten becomes the nearest scalar,
which may not be positive infinity. Dates and times are checked and then
forgotten.
-/

namespace FuzzyInference.Toml

/-! ## Numbers -/

/-- Takes digits and the underscores between them; what is taken has no
    underscores. -/
def takeDigits (isDigit : Char → Bool) (done : List Char) : Reader (List Char)
  | [] => some (done.reverse, [])
  | '_' :: cs =>
    match cs with
    | [] => none
    | c :: cs => if isDigit c then takeDigits isDigit (c :: done) cs else none
  | c :: cs => if isDigit c then takeDigits isDigit (c :: done) cs else some (done.reverse, c :: cs)

/-- Digits, at least one and the first one no underscore. -/
def digits (isDigit : Char → Bool) : Reader (List Char)
  | [] => none
  | c :: cs => if isDigit c then takeDigits isDigit [c] cs else none

/-- The digits of a whole number in base ten, which has no zero in front of
    others. -/
def wholeDigits : Reader (List Char)
  | '0' :: cs => some (['0'], cs)
  | cs => digits Char.isDigit cs

/-- The digits behind a point, if there is one. -/
def fractionDigits : Reader (Option (List Char))
  | '.' :: cs => do
    let (ds, rest) ← digits Char.isDigit cs
    return (some ds, rest)
  | cs => some (none, cs)

/-- A power of ten, if there is one. -/
def power : Reader (Option Int)
  | [] => some (none, [])
  | c :: cs =>
    if c = 'e' ∨ c = 'E' then do
      let (negative, cs) := Numeral.takeSign cs
      let (ds, rest) ← digits Char.isDigit cs
      let n : Int := Numeral.natOfDigits ds
      return (some (if negative then -n else n), rest)
    else some (none, c :: cs)

/-- A whole number of 64 bits. -/
def ofInt? (n : Int) : Option (Toml Float) :=
  if -(Nat.pow 2 63 : Int) ≤ n ∧ n < Nat.pow 2 63 then some (.int n) else none

/-- A whole number in another base, behind the mark of the base. -/
def inBase (base : Nat) (cs : List Char) : Option (Rest (Toml Float)) := do
  let (ds, rest) ← digits (Text.isDigitIn base) cs
  return (← ofInt? (Text.natInBase base ds), rest)

/-- A number in base ten behind its sign. -/
def decimal (negative : Bool) (cs : List Char) : Option (Rest (Toml Float)) := do
  let (whole, cs) ← wholeDigits cs
  let (fraction, cs) ← fractionDigits cs
  let (tens, rest) ← power cs
  if fraction.isNone && tens.isNone then
    let n : Int := Numeral.natOfDigits whole
    return (← ofInt? (if negative then -n else n), rest)
  else
    let fraction := fraction.getD []
    let x := Numeral.toFloat
      ⟨Numeral.natOfDigits (whole ++ fraction), tens.getD 0 - (fraction.length : Int)⟩
    if x.isInf && !negative then none else return (.float (if negative then -x else x), rest)

/-- A number at its sign or its first digit. -/
def number (cs : List Char) : Option (Rest (Toml Float)) :=
  match cs with
  | '0' :: 'x' :: cs => inBase 16 cs
  | '0' :: 'o' :: cs => inBase 8 cs
  | '0' :: 'b' :: cs => inBase 2 cs
  | cs =>
    let (negative, cs) := Numeral.takeSign cs
    match cs with
    | 'i' :: 'n' :: 'f' :: rest =>
      some (.float (if negative then -(1.0 / 0.0) else 1.0 / 0.0), rest)
    | 'n' :: 'a' :: 'n' :: rest => some (.float (0.0 / 0.0), rest)
    | cs => decimal negative cs

/-! ## Dates and times -/

/-- A number of exactly some digits, in bounds. -/
def fixedDigits (count lo hi : Nat) (cs : List Char) : Option (Rest Nat) :=
  let ds := cs.take count
  let n := Numeral.natOfDigits ds
  if ds.length = count ∧ ds.all Char.isDigit ∧ lo ≤ n ∧ n ≤ hi then
    some (n, cs.drop count) else none

/-- What follows a character. -/
def after? (c : Char) : List Char → Option (List Char)
  | d :: cs => if d = c then some cs else none
  | [] => none

/-- Whether a year has a day more. -/
def isLeap (year : Nat) : Bool := year % 4 == 0 && (year % 100 != 0 || year % 400 == 0)

/-- The number of days in a month. -/
def daysIn (year month : Nat) : Nat :=
  if month = 2 then if isLeap year then 29 else 28
  else if month ∈ [4, 6, 9, 11] then 30
  else 31

/-- What follows a date. -/
def afterDate? (cs : List Char) : Option (List Char) := do
  let (year, cs) ← fixedDigits 4 0 9999 cs
  let (month, cs) ← fixedDigits 2 1 12 (← after? '-' cs)
  let (_, cs) ← fixedDigits 2 1 (daysIn year month) (← after? '-' cs)
  return cs

/-- What follows a time of day. -/
def afterTime? (cs : List Char) : Option (List Char) := do
  let (_, cs) ← fixedDigits 2 0 23 cs
  let (_, cs) ← fixedDigits 2 0 59 (← after? ':' cs)
  let (_, cs) ← fixedDigits 2 0 60 (← after? ':' cs)
  match cs with
  | '.' :: ds =>
    if (ds.takeWhile Char.isDigit).isEmpty then none else some (ds.dropWhile Char.isDigit)
  | cs => some cs

/-- What follows the distance to world time, if one is given. -/
def afterOffset? : List Char → Option (List Char)
  | [] => some []
  | c :: cs =>
    if c = 'Z' ∨ c = 'z' then some cs
    else if c = '+' ∨ c = '-' then do
      let (_, cs) ← fixedDigits 2 0 23 cs
      let (_, cs) ← fixedDigits 2 0 59 (← after? ':' cs)
      return cs
    else some (c :: cs)

/-- What follows the time of a date, if one is given. A space may be just a
    space. -/
def afterTimeOfDate? : List Char → Option (List Char)
  | [] => some []
  | c :: cs =>
    if c = 'T' ∨ c = 't' then (afterTime? cs).bind afterOffset?
    else if c = ' ' then
      match afterTime? cs with
      | some rest => afterOffset? rest
      | none => some (c :: cs)
    else some (c :: cs)

/-- A date with or without a time, or a time. -/
def moment (cs : List Char) : Option (Rest (Toml Float)) := do
  let rest ← match afterDate? cs with
    | some rest => afterTimeOfDate? rest
    | none => afterTime? cs
  return (.date, rest)

end FuzzyInference.Toml
