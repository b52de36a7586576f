import FuzzyInference.Decimal.Basic

/-!
# Scalars

Curves, truth values and universes are computed over a scalar type. The class
`Scalar` lists what the computations use: arithmetic, order, rounding to whole
numbers, the two special values and the elementary functions. Programs run on
64-bit binary numbers; the same definitions read over an exact number type give
the mathematics that those numbers approximate.

Every definition keeps one fixed order of operations, because rounding makes
another order another function.
-/

namespace FuzzyInference

/-- The arithmetic that fuzzy inference is computed in. -/
class Scalar (α : Type) extends Add α, Sub α, Mul α, Div α, Neg α, LT α, LE α, BEq α,
    OfScientific α where
  decLt : (a b : α) → Decidable (a < b)
  decLe : (a b : α) → Decidable (a ≤ b)
  ofNat : Nat → α
  ofInt : Int → α
  /-- The number nearest to a decimal magnitude. -/
  ofDecimal : Decimal → α
  infinity : α
  notANumber : α
  isNaN : α → Bool
  isInfinite : α → Bool
  abs : α → α
  floor : α → α
  ceil : α → α
  /-- The nearest whole number, a half going to the even one. -/
  roundEven : α → α
  /-- The remainder of division truncated towards zero. -/
  remainder : α → α → α
  /-- The whole part of a number that is not negative. -/
  toNat : α → Nat
  exp : α → α
  ln : α → α
  log2 : α → α
  log10 : α → α
  sqrt : α → α
  pow : α → α → α
  sin : α → α
  tan : α → α
  asin : α → α
  acos : α → α
  atan : α → α
  atan2 : α → α → α
  sinh : α → α
  tanh : α → α
  asinh : α → α
  acosh : α → α
  /-- The text of a number inside messages. -/
  text : α → String

namespace Scalar

variable {α : Type} [Scalar α]

instance : DecidableLT α := Scalar.decLt

instance : DecidableLE α := Scalar.decLe

instance (priority := low) {n : Nat} : OfNat α n := ⟨Scalar.ofNat n⟩

/-- A number that is neither infinite nor undefined. -/
def isFinite (x : α) : Bool := !isNaN x && !isInfinite x

/-- The smaller of two numbers; the second when they are equal, and the other one
    when one is undefined. -/
def minimum (a b : α) : α := if isNaN a || b ≤ a then b else a

/-- The larger of two numbers; the second when they are equal, and the other one
    when one is undefined. -/
def maximum (a b : α) : α := if isNaN a || a ≤ b then b else a

/-- A number moved into `[lo, hi]`. -/
def clamp (x lo hi : α) : α := if x < lo then lo else if hi < x then hi else x

/-- A number without its fraction. -/
def truncate (x : α) : α := if x < 0 then ceil x else floor x

/-- The fraction of a number, with its sign. -/
def fraction (x : α) : α := x - truncate x

/-- The power of a number by repeated squaring: `power` is squared once per binary
    digit of `n` and multiplied into `acc` where the digit is one. -/
def squaring (acc power : α) (n : Nat) : α :=
  if n = 0 then acc
  else
    let acc := if n % 2 = 1 then acc * power else acc
    if n / 2 = 0 then acc else squaring acc (power * power) (n / 2)
termination_by n

/-- A whole power of a number; a negative one is the reciprocal of the positive
    one. -/
def powInt (x : α) (n : Int) : α :=
  let p := squaring 1 x n.natAbs
  if n < 0 then 1 / p else p

/-- The whole number nearest to zero on the way from `x`, as an integer. -/
def toInt (x : α) : Int := if x < 0 then -(toNat (-x) : Int) else toNat x

/-- The logarithm of one more than a number. What adding one rounds away is made up
    for by the ratio of the number to what was added. -/
def lnOnePlus (x : α) : α :=
  let sum := 1 + x
  if sum == 1 then x else ln sum * (x / (sum - 1))

/-- The inverse hyperbolic tangent. The difference under the fraction is exact near
    `1` and rounded near `-1`, so rounding keeps the function from being odd. -/
def atanh (x : α) : α := (0.5 : α) * lnOnePlus (2 * x / (1 - x))

/-- An angle in radians as degrees. -/
def degrees (x : α) : α := x * (57.29577951308232 : α)

/-- An angle in degrees as radians. -/
def radians (x : α) : α := x * (0.017453292519943295 : α)

/-- The base of the natural logarithm. -/
def e : α := (2.718281828459045 : α)

/-- The ratio of a circle's circumference to its diameter. -/
def pi : α := (3.141592653589793 : α)

end Scalar

end FuzzyInference
