import FuzzyInference.Scalar.Numeral

/-!
# 64-bit binary scalars

The scalars programs run on. Two operations are computed exactly from the
binary magnitudes: the remainder, which is always representable, and rounding
with halves to even.
-/

namespace FuzzyInference.Binary64

/-- `mantissa · 2 ^ exponent` for a product that is representable. -/
def compose (negative : Bool) (mantissa : Nat) (exponent : Int) : Float :=
  let x := Float.scaleB (Float.ofNat mantissa) exponent
  if negative then -x else x

/-- The remainder of division truncated towards zero, with the sign of the dividend.
    Both magnitudes are brought to the smaller exponent, where the remainder is one
    of natural numbers. -/
def remainder (a b : Float) : Float :=
  if a.isNaN || b.isNaN || a.isInf || b == 0.0 then 0.0 / 0.0
  else if b.isInf then a
  else
    let m := Binary.ofFloat a
    let n := Binary.ofFloat b
    let low := min m.exponent n.exponent
    let dividend := m.mantissa * Nat.pow 2 (m.exponent - low).toNat
    let divisor := n.mantissa * Nat.pow 2 (n.exponent - low).toNat
    compose (Binary.signBit a) (dividend % divisor) low

/-- The nearest whole number, a half going to the even one, with the sign kept.
    Adding and taking away `2 ^ 52` leaves no room for a fraction. -/
def roundEven (x : Float) : Float :=
  let size := x.abs
  if size < 4503599627370496.0 then
    let whole := (size + 4503599627370496.0) - 4503599627370496.0
    if Binary.signBit x then -whole else whole
  else x

/-- 64-bit numbers with the arithmetic of the machine. -/
instance : Scalar Float where
  decLt := Float.decLt
  decLe := Float.decLe
  ofNat := Float.ofNat
  ofInt := Float.ofInt
  ofDecimal := Numeral.toFloat
  infinity := 1.0 / 0.0
  notANumber := 0.0 / 0.0
  isNaN := Float.isNaN
  isInfinite := Float.isInf
  abs := Float.abs
  floor := Float.floor
  ceil := Float.ceil
  roundEven := roundEven
  remainder := remainder
  toNat x := x.toUInt64.toNat
  exp := Float.exp
  ln := Float.log
  log2 := Float.log2
  log10 := Float.log10
  sqrt := Float.sqrt
  pow := Float.pow
  sin := Float.sin
  tan := Float.tan
  asin := Float.asin
  acos := Float.acos
  atan := Float.atan
  atan2 := Float.atan2
  sinh := Float.sinh
  tanh := Float.tanh
  asinh := Float.asinh
  acosh := Float.acosh
  text := FloatText.message.write

end FuzzyInference.Binary64
