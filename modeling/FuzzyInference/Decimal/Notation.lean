import FuzzyInference.Decimal.Basic

/-!
# Decimal notations

The ways this library writes a number: positional text for messages, scientific
text, and the two document notations. Each is a decimal with a rule for the
place of its point; a `FloatText` record collects the decisions of one notation.
-/

namespace FuzzyInference

namespace Decimal

/-- A run of zeros. -/
def zeros (n : Nat) : List Char := List.replicate n '0'

/-- Positional digits: every place down to the last digit, with a leading zero below
    one. -/
def positional (d : Decimal) : List Char :=
  let ds := digits d.coefficient
  if d.coefficient = 0 then ['0']
  else if 0 ≤ d.exponent then ds ++ zeros d.exponent.toNat
  else
    let places := (-d.exponent).toNat
    if places < ds.length then ds.take (ds.length - places) ++ '.' :: ds.drop (ds.length - places)
    else '0' :: '.' :: zeros (places - ds.length) ++ ds

/-- Scientific digits: one digit, a point and the others if there are any, `e` and
    the power of ten. `plus` writes the sign of a power that is not negative. -/
def scientific (plus : Bool) (d : Decimal) : List Char :=
  let body := match digits d.coefficient with
    | [] => ['0']
    | [c] => [c]
    | c :: cs => c :: '.' :: cs
  let power := d.magnitude
  let sign := if power < 0 then ['-'] else if plus then ['+'] else []
  body ++ 'e' :: sign ++ digits power.natAbs

end Decimal

/-- The decisions of one notation for 64-bit numbers. -/
structure FloatText where
  /-- What a number half way between two shortest decimals becomes. -/
  tie : Tie
  /-- Whether a leading digit at this power of ten is written positionally. -/
  isPositional : Int → Bool
  /-- Whether an integral number written positionally ends in `.0`. -/
  pointZero : Bool
  /-- Whether the power of ten of a scientific number carries a plus sign. -/
  plusPower : Bool
  notANumber : String
  infinity : String

namespace FloatText

/-- Positional at every size, with no `.0`: the numbers inside messages. -/
def message : FloatText := ⟨.up, fun _ => true, false, false, "NaN", "inf"⟩

/-- Scientific at every size. -/
def scientific : FloatText := ⟨.up, fun _ => false, false, false, "NaN", "inf"⟩

/-- Document text: positional from `1e-5` up to but not including `1e16`; what is
    not finite is `null`. -/
def document : FloatText :=
  ⟨.toEven, fun power => decide (-5 ≤ power) && decide (power < 16), true, true, "null", "null"⟩

/-- Configuration text: positional at every size, with `.0`. -/
def configuration : FloatText := ⟨.up, fun _ => true, true, false, "nan", "inf"⟩

/-- The digits of a magnitude. -/
def magnitude (t : FloatText) (d : Decimal) : List Char :=
  if t.isPositional d.magnitude then
    let body := d.positional
    if t.pointZero && decide (0 ≤ d.exponent) then body ++ ['.', '0'] else body
  else d.scientific t.plusPower

/-- The text of a number in a notation; the sign of a zero is written. -/
def write (t : FloatText) (x : Float) : String :=
  if x.isNaN then t.notANumber
  else
    let sign := if Binary.signBit x then "-" else ""
    if x.isInf then (if t.infinity = "null" then "null" else sign ++ t.infinity)
    else sign ++ String.ofList (t.magnitude ((Binary.ofFloat x).shortest t.tie))

/-- Scientific text with exactly `count` significant digits, correctly rounded. -/
def significant (count : Nat) (x : Float) : String :=
  if x.isNaN then "NaN"
  else
    let sign := if Binary.signBit x then "-" else ""
    if x.isInf then sign ++ "inf"
    else
      let d := (Binary.ofFloat x).significant count
      if d.coefficient = 0 then
        let fraction := if count ≤ 1 then "" else "." ++ String.ofList (Decimal.zeros (count - 1))
        sign ++ "0" ++ fraction ++ "e0"
      else sign ++ String.ofList (d.scientific false)

end FloatText

end FuzzyInference
