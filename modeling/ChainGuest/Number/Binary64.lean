/-! # Binary64

    Double-precision numbers as bit patterns: one sign bit, eleven exponent bits
    and fifty-two fraction bits. A finite number is an integer times a power of
    two, and all arithmetic here is exact arithmetic on integers followed by one
    rounding to the nearest pattern, ties to the even one.
-/

namespace ChainGuest

/-- A double-precision number, as its bits. -/
structure Binary64 where
  bits : UInt64
  deriving DecidableEq

/-- `a / b` to the nearest integer, a half to the even neighbour. -/
def roundDiv (a b : Nat) : Nat :=
  let q := a / b
  let r := 2 * (a % b)
  if r < b then q
  else if b < r then q + 1
  else q + q % 2

namespace Binary64

/-! ## Fields -/

/-- The sign bit alone, `2 ^ 63`. -/
def signBit : Nat := 0x8000000000000000

/-- The least exponent field alone, `2 ^ 52`, which is also the bit that normal
    significands have above their fraction. -/
def leadingBit : Nat := 0x10000000000000

/-- Whether the sign bit is set. -/
def isNegative (x : Binary64) : Bool := signBit ≤ x.bits.toNat

/-- The bits without the sign. -/
def magnitudeBits (x : Binary64) : Nat := x.bits.toNat % signBit

/-- The exponent field. -/
def exponentField (x : Binary64) : Nat := x.magnitudeBits / leadingBit

/-- The fraction field. -/
def fractionField (x : Binary64) : Nat := x.magnitudeBits % leadingBit

/-- Neither infinite nor a NaN. -/
def isFinite (x : Binary64) : Bool := x.exponentField < 2047

/-- Not a number. -/
def isNaN (x : Binary64) : Bool := x.exponentField = 2047 && x.fractionField ≠ 0

/-- The integer significand of a finite number. -/
def significand (x : Binary64) : Nat :=
  if x.exponentField = 0 then x.fractionField else leadingBit + x.fractionField

/-- The power of two that scales the significand of a finite number. -/
def scale (x : Binary64) : Int :=
  (if x.exponentField = 0 then 1 else (x.exponentField : Int)) - 1075

/-- The magnitude of a finite number, as numerator and denominator. -/
def ratio (x : Binary64) : Nat × Nat :=
  if 0 ≤ x.scale then (x.significand * Nat.pow 2 x.scale.toNat, 1)
  else (x.significand, Nat.pow 2 (-x.scale).toNat)

/-- A pattern from its sign and the bits below it. -/
def ofFields (negative : Bool) (magnitude : Nat) : Binary64 :=
  ⟨UInt64.ofNat (magnitude + if negative then signBit else 0)⟩

/-- The bits of infinity, below the sign. -/
def infinityBits : Nat := 2047 * leadingBit

/-- Infinity of either sign. -/
def infinity (negative : Bool) : Binary64 := ofFields negative infinityBits

/-- The quiet NaN without payload. -/
def nan : Binary64 := ofFields false (infinityBits + leadingBit / 2)

/-- Zero of either sign. -/
def zero (negative : Bool) : Binary64 := ofFields negative 0

/-- The number with the other sign. -/
def neg (x : Binary64) : Binary64 := ofFields (!x.isNegative) x.magnitudeBits

/-! ## Rounding -/

/-- The exponent `e` with `2 ^ e ≤ num / den < 2 ^ (e + 1)`. -/
def floorLog2 (num den : Nat) : Int :=
  let estimate := (num.log2 : Int) - den.log2
  let low := if 0 ≤ estimate then den * Nat.pow 2 estimate.toNat ≤ num
    else den ≤ num * Nat.pow 2 (-estimate).toNat
  if low then estimate else estimate - 1

/-- The nearest pattern to `num / den`, with the sign given: beyond the greatest
    finite number this is infinity, and below half the least one it is zero. -/
def ofRatio (negative : Bool) (num den : Nat) : Binary64 :=
  if num = 0 then zero negative
  else
    let scale := max (floorLog2 num den - 52) (-1074)
    let units := if 0 ≤ scale then roundDiv num (den * Nat.pow 2 scale.toNat)
      else roundDiv (num * Nat.pow 2 (-scale).toNat) den
    -- Units of the leading bit and more carry into the exponent field.
    let magnitude := (scale + 1074).toNat * leadingBit + units
    ofFields negative (min magnitude infinityBits)

/-- The nearest pattern to a natural number. -/
def ofNat (n : Nat) : Binary64 := ofRatio false n 1

/-- The product of two finite numbers. -/
def mul (x y : Binary64) : Binary64 :=
  ofRatio (x.isNegative != y.isNegative) (x.ratio.1 * y.ratio.1) (x.ratio.2 * y.ratio.2)

/-- The quotient of two finite numbers, the second not zero. -/
def div (x y : Binary64) : Binary64 :=
  ofRatio (x.isNegative != y.isNegative) (x.ratio.1 * y.ratio.2) (x.ratio.2 * y.ratio.1)

/-- The nearest pattern to `digits * 10 ^ exponent`. Exponents so large or small
    that the answer cannot be finite and positive are not raised to. -/
def ofDecimal (negative : Bool) (digits : Nat) (exponent : Int) : Binary64 :=
  if digits = 0 then zero negative
  else if 400 < exponent then infinity negative
  else if exponent + (digits.log2 : Int) < -1200 then zero negative
  else if 0 ≤ exponent then ofRatio negative (digits * Nat.pow 10 exponent.toNat) 1
  else ofRatio negative digits (Nat.pow 10 (-exponent).toNat)

/-! ## Widening -/

/-- The double with the value of a single-precision pattern: the sign of zero,
    infinities and the payload of a NaN are kept. -/
def ofBinary32 (bits : Nat) : Binary64 :=
  let negative := 0x80000000 ≤ bits
  let exponent := bits / 0x800000 % 256
  let fraction := bits % 0x800000
  if exponent = 255 then ofFields negative (infinityBits + fraction * 0x20000000)
  else if exponent = 0 then ofRatio negative fraction (Nat.pow 2 149)
  else ofFields negative ((exponent + 896) * leadingBit + fraction * 0x20000000)

end Binary64

end ChainGuest
