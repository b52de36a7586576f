import FuzzyInference.Decimal.Notation
import FuzzyInference.Scalar.Basic

/-!
# Numerals

A written number is an optional sign, digits with at most one point, and an optional power of
ten; at least one digit stands before or after the point. A scalar is read from its numeral: a
signed decimal magnitude, or one of the words for infinity and for an undefined number.
-/

namespace FuzzyInference

/-! ## Parts of a numeral -/

namespace Numeral

/-- The leading decimal digits and what follows them. -/
def takeDigits (cs : List Char) : List Char × List Char :=
  (cs.takeWhile Char.isDigit, cs.dropWhile Char.isDigit)

/-- The value of a digit list. -/
def natOfDigits (ds : List Char) : Nat := ds.foldl (fun n c => 10 * n + (c.toNat - 48)) 0

/-- An optional sign: whether it is a minus, and what follows it. -/
def takeSign : List Char → Bool × List Char
  | '-' :: cs => (true, cs)
  | '+' :: cs => (false, cs)
  | cs => (false, cs)

/-- The power of ten after a mantissa: nothing, or `e` with an optional sign and
    digits. -/
def readPower : List Char → Option Int
  | [] => some 0
  | c :: cs =>
    if c = 'e' || c = 'E' then
      let (negative, ds) := takeSign cs
      if ds.isEmpty || !ds.all Char.isDigit then none
      else some (if negative then -(natOfDigits ds : Int) else natOfDigits ds)
    else none

/-- An unsigned numeral as a decimal magnitude. -/
def readMagnitude (cs : List Char) : Option Decimal :=
  let (whole, rest) := takeDigits cs
  let (fraction, rest) := match rest with
    | '.' :: rest => takeDigits rest
    | rest => ([], rest)
  if whole.isEmpty && fraction.isEmpty then none
  else (readPower rest).map fun power =>
    ⟨natOfDigits (whole ++ fraction), power - (fraction.length : Int)⟩

/-- The nearest 64-bit number to a decimal magnitude. Magnitudes far outside the
    range are settled by their leading power, so that no power of ten larger than
    needed is ever computed. -/
def toFloat (d : Decimal) : Float :=
  if d.coefficient = 0 then 0.0
  else
    let power := d.magnitude
    if 310 < power then 1.0 / 0.0
    else if power < -345 then 0.0
    else Float.ofScientific d.coefficient (decide (d.exponent < 0)) d.exponent.natAbs

/-- A natural number below `bound`: an optional plus sign and digits. -/
def readNat? (bound : Nat) (s : String) : Option Nat :=
  let ds := match s.toList with
    | '+' :: cs => cs
    | cs => cs
  if ds.isEmpty || !ds.all Char.isDigit then none
  else
    let n := natOfDigits ds
    if n < bound then some n else none

end Numeral

/-! ## Written scalars -/

/-- What a numeral says, before it is rounded to a scalar. -/
inductive Numeral where
  | decimal (negative : Bool) (magnitude : Decimal)
  | infinity (negative : Bool)
  | notANumber

namespace Numeral

/-- The numeral a text spells. -/
def read? (s : String) : Option Numeral :=
  let (negative, cs) := takeSign s.toList
  let word := cs.map Char.toLower
  if word = "inf".toList || word = "infinity".toList then some (.infinity negative)
  else if word = "nan".toList then some .notANumber
  else (readMagnitude cs).map (.decimal negative)

variable {α : Type} [Scalar α]

/-- Gives a scalar its sign. -/
def withSign (negative : Bool) (x : α) : α := if negative then -x else x

/-- The scalar nearest to a numeral. -/
def toScalar : Numeral → α
  | .decimal negative d => withSign negative (Scalar.ofDecimal d)
  | .infinity negative => withSign negative Scalar.infinity
  | .notANumber => Scalar.notANumber

end Numeral

/-- The scalar a text spells. -/
def Scalar.read? {α : Type} [Scalar α] (s : String) : Option α :=
  (Numeral.read? s).map Numeral.toScalar

end FuzzyInference
