import ChainGuest.Number.Binary64
import ChainGuest.Text.Blank

/-! # Parameters

    A parameter is a text that the host's configuration gives under a key, and can be
    read as a switch or as a number.
-/

namespace ChainGuest

/-! ## Number text -/

namespace NumberText

/-- The number that decimal digits spell. -/
def digitsValue (cs : List Char) : Nat := cs.foldl (fun n c => n * 10 + (c.toNat - '0'.toNat)) 0

/-- An exponent after its mark: digits, after at most one sign. -/
def exponent? (cs : List Char) : Option Int :=
  let (minus, digits) := match cs with
    | '-' :: rest => (true, rest)
    | '+' :: rest => (false, rest)
    | _ => (false, cs)
  if digits.isEmpty || !digits.all Char.isDigit then none
  else
    let n : Int := digitsValue digits
    some (if minus then -n else n)

/-- A decimal: digits with at most one point among or around them, at least one digit, and
    an exponent at most. -/
def decimal? (minus : Bool) (cs : List Char) : Option Binary64 := do
  let whole := cs.takeWhile Char.isDigit
  let rest := cs.dropWhile Char.isDigit
  let (fraction, rest) := match rest with
    | '.' :: more => (more.takeWhile Char.isDigit, more.dropWhile Char.isDigit)
    | _ => ([], rest)
  if whole.isEmpty && fraction.isEmpty then none
  let exponent ← match rest with
    | [] => some 0
    | e :: more => if e = 'e' ∨ e = 'E' then exponent? more else none
  return .ofDecimal minus (digitsValue (whole ++ fraction)) (exponent - fraction.length)

/-- The nearest double to the number that a text spells: a decimal, `inf`, `infinity` or
    `nan` in either case, after at most one sign. -/
def parse? (cs : List Char) : Option Binary64 :=
  let (minus, body) := match cs with
    | '-' :: rest => (true, rest)
    | '+' :: rest => (false, rest)
    | _ => (false, cs)
  let word := String.ofList (body.map Char.toLower)
  if word = "inf" ∨ word = "infinity" then some (.infinity minus)
  else if word = "nan" then some .nan
  else decimal? minus body

end NumberText

structure Parameter where
  key : String
  value : String
  deriving DecidableEq

namespace Parameter

/-- Only the text `true` is on. -/
def asBool (p : Parameter) : Bool := p.value == "true"

/-- The number that the text spells, with blanks around it. -/
def asNumber (p : Parameter) : Option Binary64 := NumberText.parse? (trimBlank p.value.toList)

end Parameter

end ChainGuest
