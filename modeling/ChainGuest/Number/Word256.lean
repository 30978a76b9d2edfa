import ChainGuest.Text.Hex
import ChainGuest.Wire.Error

/-! # 256-bit words

    Unsigned words and their hex text, and signed words, which are the same bits
    read in two's complement.
-/

namespace ChainGuest

/-- An unsigned word of 256 bits. -/
abbrev U256 : Type := BitVec 256

namespace U256

/-- The number that hex digits spell, most significant first. -/
def ofHexDigits? : List Char → Option Nat :=
  List.foldlM (fun n c => (Hex.digit? c).map (n * 16 + ·)) 0

/-- The word that a text spells: one to 64 hex digits, after at most one mark. -/
def ofHex (s : String) : Except Wire.DecodeError U256 :=
  let digits := Hex.dropMark s.toList
  if digits.isEmpty || 64 < digits.length then .error (.invalidHex s)
  else
    match ofHexDigits? digits with
    | some n => .ok (BitVec.ofNat 256 n)
    | none => .error (.invalidHex s)

/-- Decimal text. -/
def toDecimal (u : U256) : String := toString u.toNat

/-- Lowercase hex text, without a mark or leading zeros. -/
def toHex (u : U256) : String := String.ofList (Nat.toDigits 16 u.toNat)

end U256

/-- A signed word of 256 bits, as its two's complement pattern. -/
structure I256 where
  bits : U256
  deriving DecidableEq

namespace I256

def zero : I256 := ⟨0⟩

/-- The word whose pattern a text spells. -/
def ofHex (s : String) : Except Wire.DecodeError I256 := (U256.ofHex s).map I256.mk

/-- The sign bit. -/
def isNegative (x : I256) : Bool := x.bits.getLsbD 255

/-- The magnitude; that of the least word is `2 ^ 255`. -/
def magnitude (x : I256) : U256 := if x.isNegative then ~~~x.bits + 1 else x.bits

/-- The same number as a word of 64 bits, if it is one: a magnitude of more than 64
    bits is not, and of those with 64 bits only the least negative one is. -/
def toInt64? (x : I256) : Option Int64 :=
  let m := x.magnitude.toNat
  if UInt64.size ≤ m then none
  else if x.isNegative then
    if m < 0x8000000000000000 then some (-(Int64.ofNat m))
    else if m = 0x8000000000000000 then some Int64.minValue
    else none
  else if m < 0x8000000000000000 then some (Int64.ofNat m)
  else none

/-- A word of 64 bits, widened. -/
def ofInt64 (k : Int64) : I256 :=
  let magnitude := BitVec.ofNat 256 k.toInt.natAbs
  if k < 0 then ⟨~~~magnitude + 1⟩ else ⟨magnitude⟩

/-- Decimal text, with a minus sign before the magnitude of a negative word. -/
def toDecimal (x : I256) : String :=
  if x.isNegative then "-" ++ x.magnitude.toDecimal else U256.toDecimal x.bits

end I256

end ChainGuest
