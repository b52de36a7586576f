/-!
# Decimal and binary magnitudes

A decimal magnitude is a natural coefficient and a power of ten. Every written number in this
library passes through this type: the shortest and the rounded digits of a binary number are
`Decimal`s, and each notation is a way to write one.

A finite binary floating-point number is a sign and a magnitude `mantissa · 2 ^ exponent`. The
magnitude is kept exactly, as a fraction of two natural numbers, so its decimal digits come from
exact arithmetic.

The shortest digits of a binary number are the fewest that read back as the same number, and of
those the nearest to it. The decimals that read back are those of an interval around the number,
half way to each neighbour, whose ends belong to it when the mantissa is even. For a grid of
`count` digits only the two decimals around the number can be in the interval without a nearer
one being in it too, so each grid is settled by two comparisons of natural numbers. Seventeen
digits always suffice.

Results:

* `Decimal.coefficient_trim_mul`: dropping trailing zeros keeps the value.
* `le_roundQuotient` and `roundQuotient_le`: a rounded quotient is the floor or the floor plus one.
-/

namespace FuzzyInference

/-! ## Decimal magnitudes -/

/-- The magnitude `coefficient · 10 ^ exponent`. -/
structure Decimal where
  coefficient : Nat
  exponent : Int
  deriving Repr, DecidableEq, Inhabited

namespace Decimal

/-- The decimal digits of a natural number, `0` having one. -/
def digits (n : Nat) : List Char := Nat.toDigits 10 n

/-- How many decimal digits a natural number has. -/
def digitCount (n : Nat) : Nat := (digits n).length

/-- Strips trailing decimal zeros: `n = m · 10 ^ k`, with `m` not divisible by ten
    unless it is `0`. -/
def stripZeros (n : Nat) : Nat × Nat :=
  if _h : n ≠ 0 ∧ n % 10 = 0 then
    let (m, k) := stripZeros (n / 10)
    (m, k + 1)
  else (n, 0)
termination_by n
decreasing_by omega

theorem stripZeros_mul (n : Nat) : (stripZeros n).1 * Nat.pow 10 (stripZeros n).2 = n := by
  fun_induction stripZeros n with
  | case1 n h m k hk ih =>
    rw [hk] at ih
    show m * (Nat.pow 10 k * 10) = n
    rw [← Nat.mul_assoc, ih]
    omega
  | case2 n h => exact Nat.mul_one n

/-- The same magnitude with no trailing zeros in its coefficient; zero has exponent
    `0`. -/
def trim (d : Decimal) : Decimal :=
  if d.coefficient = 0 then ⟨0, 0⟩
  else ⟨(stripZeros d.coefficient).1, d.exponent + (stripZeros d.coefficient).2⟩

theorem coefficient_trim_mul (d : Decimal) (h : d.coefficient ≠ 0) :
    d.trim.coefficient * Nat.pow 10 (stripZeros d.coefficient).2 = d.coefficient := by
  rw [trim, if_neg h]
  exact stripZeros_mul d.coefficient

/-- The power of ten of the leading digit. -/
def magnitude (d : Decimal) : Int := d.exponent + digitCount d.coefficient - 1

end Decimal

/-! ## Binary magnitudes -/

/-- The magnitude `mantissa · 2 ^ exponent` of a 64-bit number. -/
structure Binary where
  mantissa : Nat
  exponent : Int
  deriving Repr, DecidableEq

/-- Which of two equally near neighbours rounding takes. -/
inductive Tie where
  | toEven
  | up
  deriving Repr, DecidableEq

/-- The nearest natural number to `num / den`. -/
def roundQuotient (tie : Tie) (num den : Nat) : Nat :=
  let low := num / den
  let twice := 2 * (num % den)
  if twice < den then low
  else if den < twice then low + 1
  else match tie with
    | .up => low + 1
    | .toEven => if low % 2 = 0 then low else low + 1

theorem le_roundQuotient (tie : Tie) (num den : Nat) : num / den ≤ roundQuotient tie num den := by
  unfold roundQuotient
  cases tie <;> simp only <;> split <;> (try split) <;> (try split) <;> omega

theorem roundQuotient_le (tie : Tie) (num den : Nat) :
    roundQuotient tie num den ≤ num / den + 1 := by
  unfold roundQuotient
  cases tie <;> simp only <;> split <;> (try split) <;> (try split) <;> omega

namespace Binary

/-- Whether the sign bit is set, zeros and not-a-numbers included. -/
def signBit (x : Float) : Bool := x.toBits >>> 63 == 1

/-- The exact magnitude of a finite 64-bit number. -/
def ofFloat (x : Float) : Binary :=
  let biased := (x.toBits >>> 52 &&& 0x7ff).toNat
  let fraction := (x.toBits &&& 0xfffffffffffff).toNat
  if biased = 0 then ⟨fraction, -1074⟩
  else ⟨Nat.pow 2 52 + fraction, (biased : Int) - 1075⟩

/-- Whether the neighbour below is only half a unit in the last place away. -/
def hasCloseLower (b : Binary) : Bool := b.mantissa == Nat.pow 2 52 && decide (-1074 < b.exponent)

/-- The factors of numerator and denominator that `2 ^ exponent` contributes. -/
def scale (b : Binary) : Nat × Nat := (Nat.pow 2 b.exponent.toNat, Nat.pow 2 (-b.exponent).toNat)

/-- The numerator of the magnitude in lowest power-of-two terms. -/
def num (b : Binary) : Nat := b.mantissa * b.scale.1

/-- The denominator of the magnitude. -/
def den (b : Binary) : Nat := b.scale.2

/-- The power of ten of the leading decimal digit of `num / den`, for a positive
    fraction. -/
def leadingPower (num den : Nat) : Int :=
  if den ≤ num then (Decimal.digitCount (num / den) : Int) - 1
  else -(Decimal.digitCount ((den + num - 1) / num - 1) : Int)

/-- The fraction `num / den` divided by `10 ^ power`. -/
def overPower (num den : Nat) (power : Int) : Nat × Nat :=
  (num * Nat.pow 10 (-power).toNat, den * Nat.pow 10 power.toNat)

/-- The magnitude rounded to `count` significant decimal digits, a half going to the
    even digit. -/
def significant (count : Nat) (b : Binary) : Decimal :=
  if b.mantissa = 0 then ⟨0, 0⟩
  else
    let power := leadingPower b.num b.den - (count : Int) + 1
    let (n, d) := overPower b.num b.den power
    let c := roundQuotient .toEven n d
    if c = Nat.pow 10 count then ⟨Nat.pow 10 (count - 1), power + 1⟩ else ⟨c, power⟩

/-! ## Shortest digits -/

/-- The decimals that read back as the number, over the common denominator `4 ·
    den`. -/
structure Interval where
  lower : Nat
  upper : Nat
  closed : Bool

/-- The interval of reals that round to the number, in units of a quarter of its
    last place. -/
def interval (b : Binary) : Interval where
  lower := (4 * b.mantissa - (if b.hasCloseLower then 1 else 2)) * b.scale.1
  upper := (4 * b.mantissa + 2) * b.scale.1
  closed := b.mantissa % 2 == 0

/-- Whether `value` lies between the ends once both are multiplied by `unit`. -/
def Interval.has (i : Interval) (unit value : Nat) : Bool :=
  if i.closed then i.lower * unit ≤ value && value ≤ i.upper * unit
  else i.lower * unit < value && value < i.upper * unit

/-- The decimal on the grid `10 ^ power` that reads back as the number, the nearer
    if both neighbours do. -/
def onGrid? (tie : Tie) (b : Binary) (power : Int) : Option Decimal :=
  let up := Nat.pow 10 (-power).toNat
  let (n, d) := overPower (4 * b.num) (4 * b.den) power
  let low := n / d
  let lowFits := b.interval.has up (low * d)
  let highFits := b.interval.has up ((low + 1) * d)
  if lowFits && highFits then some ⟨roundQuotient tie n d, power⟩
  else if lowFits then some ⟨low, power⟩
  else if highFits then some ⟨low + 1, power⟩
  else none

/-- The fewest decimal digits that read back as the number, trailing zeros
    removed. -/
def shortest (tie : Tie) (b : Binary) : Decimal :=
  if b.mantissa = 0 then ⟨0, 0⟩
  else
    let top := leadingPower b.num b.den
    let found := (List.range 17).findSome? fun (count : Nat) => b.onGrid? tie (top - (count : Int))
    (found.getD (b.significant 17)).trim

end Binary

end FuzzyInference
