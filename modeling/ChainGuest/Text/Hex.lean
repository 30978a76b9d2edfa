import ChainGuest.Text.Utf8

/-! # Hex text

    Bytes as pairs of hex digits, with or without `0x` in front. Writing uses lower
    case and the mark; reading takes either case and either spelling of the mark.
-/

namespace ChainGuest.Hex

/-- The value of a hex digit of either case. -/
def digit? (c : Char) : Option Nat :=
  if '0' ≤ c ∧ c ≤ '9' then some (c.toNat - '0'.toNat)
  else if 'a' ≤ c ∧ c ≤ 'f' then some (c.toNat - 'a'.toNat + 10)
  else if 'A' ≤ c ∧ c ≤ 'F' then some (c.toNat - 'A'.toNat + 10)
  else none

/-- The digits of a text without a leading `0x` or `0X`. -/
def dropMark : List Char → List Char
  | '0' :: 'x' :: digits => digits
  | '0' :: 'X' :: digits => digits
  | digits => digits

/-- A text without a leading `0x` or `0X`. -/
def stripMark (s : String) : String := String.ofList (dropMark s.toList)

/-! ## Writing -/

/-- The two lowercase digits of a byte. -/
def byteDigits (b : UInt8) : List Char :=
  [Nat.digitChar (b.toNat / 16), Nat.digitChar (b.toNat % 16)]

/-- The lowercase digits of bytes. -/
def digits (bytes : List UInt8) : List Char := bytes.flatMap byteDigits

/-- Bytes in hex, behind `0x`. -/
def encode (bytes : List UInt8) : String := String.ofList ('0' :: 'x' :: digits bytes)

/-! ## Reading -/

/-- Why digits are no bytes. -/
inductive Fault where
  /-- The digits do not pair up. -/
  | oddLength
  /-- The byte at `index` is no hex digit. -/
  | badByte (byte : UInt8) (index : Nat)
  deriving DecidableEq

/-- A byte as a character between quotes, with what is not printable escaped. -/
def quoteByte (b : UInt8) : String :=
  let c := Char.ofNat b.toNat
  let inner :=
    if b = 0 then "\\0"
    else if c = '\t' then "\\t"
    else if c = '\n' then "\\n"
    else if c = '\r' then "\\r"
    else if c = '\'' then "\\'"
    else if c = '\\' then "\\\\"
    else if b < 0x20 ∨ (0x7f ≤ b ∧ b ≤ 0xa0) ∨ b = 0xad then
      "\\u\x7b" ++ String.ofList (Nat.toDigits 16 b.toNat) ++ "\x7d"
    else c.toString
  "'" ++ inner ++ "'"

def Fault.message : Fault → String
  | .oddLength => "Odd number of digits"
  | .badByte byte index =>
    "Invalid character " ++ quoteByte byte ++ " at position " ++ toString index

/-- The value of the digit that a byte of the text is. -/
def byteDigit (b : UInt8) (index : Nat) : Except Fault Nat :=
  match digit? (Char.ofNat b.toNat) with
  | some n => .ok n
  | none => .error (.badByte b index)

/-- The bytes that pairs of digits spell. -/
def pairUp : List Nat → List UInt8
  | high :: low :: rest => UInt8.ofNat (high * 16 + low) :: pairUp rest
  | _ => []

/-- The bytes that the digits of a text spell. The count of the digits is looked at
    before the digits themselves. -/
def decode (s : String) : Except Fault (List UInt8) :=
  let bytes := Utf8.encode (stripMark s)
  if bytes.length % 2 = 1 then .error .oddLength
  else (bytes.zipIdx.mapM fun (b, index) => byteDigit b index).map pairUp

end ChainGuest.Hex
