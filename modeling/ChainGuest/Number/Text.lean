import ChainGuest.Number.Shortest

/-! # Number text

    How finite double-precision numbers are written, with a fraction or an exponent
    always, so that none looks like an integer. Numbers are written with the fewest
    digits that read back, in positional form for exponents in a middle range; a
    style may ask that integers up to a bound are written with all their digits.
-/

namespace ChainGuest

/-- What a style of number text decides. -/
structure NumberStyle where
  /-- The least exponent of the leading digit in positional form. -/
  leastPositional : Int
  /-- The first exponent beyond positional form. -/
  beyondPositional : Int
  /-- Integers of lesser magnitude are written with all their digits. -/
  exactBelow : Nat

namespace NumberStyle

/-- The shortest digits, positional from `0.00001` up to below `1e16`. -/
def plain : NumberStyle := ⟨-5, 16, 0⟩

/-- As plain, but integers below `1e21` are exact. -/
def exactIntegers : NumberStyle := ⟨-5, 16, 1000000000000000000000⟩

end NumberStyle

namespace Binary64

/-- The magnitude of a number that is finite and an integer. -/
def integral? (x : Binary64) : Option Nat :=
  if x.isFinite then
    let (num, den) := x.ratio
    if num % den = 0 then some (num / den) else none
  else none

end Binary64

/-- The decimal digits of a natural number. -/
def decimalDigits (n : Nat) : List Char := Nat.toDigits 10 n

namespace Decimal

/-- The exponent of the leading digit. -/
def leading (d : Decimal) : Int := d.exponent + (decimalDigits d.digits).length - 1

/-- Positional form: all digits, and a point with a digit on either side. -/
def positional (d : Decimal) : List Char :=
  let digits := decimalDigits d.digits
  if 0 ≤ d.exponent then digits ++ List.replicate d.exponent.toNat '0' ++ ['.', '0']
  else if 0 ≤ d.leading then
    let whole := d.leading.toNat + 1
    digits.take whole ++ '.' :: digits.drop whole
  else '0' :: '.' :: List.replicate (-d.leading - 1).toNat '0' ++ digits

/-- Scientific form: one digit, a point and the other digits if there are others, and
    the exponent with its sign. -/
def scientific (d : Decimal) : List Char :=
  let mantissa := match decimalDigits d.digits with
    | first :: second :: more => first :: '.' :: second :: more
    | digits => digits
  mantissa ++ 'e' :: (if 0 ≤ d.leading then '+' else '-') :: decimalDigits d.leading.natAbs

end Decimal

/-- The text of a magnitude. -/
def NumberStyle.magnitudeText (style : NumberStyle) (x : Binary64) : List Char :=
  let short : List Char :=
    if x.significand = 0 then ['0', '.', '0']
    else
      let d := shortestDecimal x.significand x.scale
      if style.leastPositional ≤ d.leading ∧ d.leading < style.beyondPositional then d.positional
      else d.scientific
  match x.integral? with
  | some n => if n < style.exactBelow then decimalDigits n ++ ['.', '0'] else short
  | none => short

/-- The text of a finite number, with a minus sign if its sign bit is set. -/
def NumberStyle.text (style : NumberStyle) (x : Binary64) : List Char :=
  if x.isNegative then '-' :: style.magnitudeText x else style.magnitudeText x

end ChainGuest
