import ChainGuest.Number.Binary64
import ChainGuest.Text.Utf8

/-! # Writing tokens

    Tokens to be written and their bytes. Every token is written in its shortest
    form, so the form of an integer or a header depends on its size alone.
-/

namespace ChainGuest.Wire

/-- A token to be written. -/
inductive Token where
  /-- The header of an array of so many elements. -/
  | array (length : UInt32)
  /-- The header of a map of so many entries. -/
  | map (length : UInt32)
  | uint (n : UInt64)
  | sint (n : Int64)
  | float (x : Binary64)
  | bool (b : Bool)
  | nil
  | text (s : String)
  /-- A string, or nil. -/
  | optText (s : Option String)
  | binary (bytes : List UInt8)
  /-- Bytes as an array of integers. -/
  | byteList (bytes : List UInt8)
  /-- The map header and the key of a tagged value. -/
  | tag (name : String)
  /-- Bytes as they are. -/
  | raw (bytes : List UInt8)

/-- A natural number in `width` bytes, most significant first. -/
def bigEndianBytes : (width : Nat) → Nat → List UInt8
  | 0, _ => []
  | width + 1, n => UInt8.ofNat (n / Nat.pow 256 width) :: bigEndianBytes width n

/-- An unsigned integer: in the marker below 128, else in 1, 2, 4 or 8 bytes. -/
def unsignedBytes (n : Nat) : List UInt8 :=
  if n < 0x80 then [UInt8.ofNat n]
  else if n < 0x100 then 0xcc :: bigEndianBytes 1 n
  else if n < 0x10000 then 0xcd :: bigEndianBytes 2 n
  else if n < 0x100000000 then 0xce :: bigEndianBytes 4 n
  else 0xcf :: bigEndianBytes 8 n

/-- A signed integer: one that is not negative as an unsigned one, else in the
    marker from -32 on, else in 1, 2, 4 or 8 bytes of two's complement. -/
def signedBytes (n : Int) : List UInt8 :=
  if 0 ≤ n then unsignedBytes n.toNat
  else if -0x20 ≤ n then [UInt8.ofNat (0x100 + n).toNat]
  else if -0x80 ≤ n then 0xd0 :: bigEndianBytes 1 (0x100 + n).toNat
  else if -0x8000 ≤ n then 0xd1 :: bigEndianBytes 2 (0x10000 + n).toNat
  else if -0x80000000 ≤ n then 0xd2 :: bigEndianBytes 4 (0x100000000 + n).toNat
  else 0xd3 :: bigEndianBytes 8 (0x10000000000000000 + n).toNat

/-- The header of an array. -/
def arrayHeader (length : Nat) : List UInt8 :=
  if length < 0x10 then [UInt8.ofNat (0x90 + length)]
  else if length < 0x10000 then 0xdc :: bigEndianBytes 2 length
  else 0xdd :: bigEndianBytes 4 length

/-- The header of a map. -/
def mapHeader (length : Nat) : List UInt8 :=
  if length < 0x10 then [UInt8.ofNat (0x80 + length)]
  else if length < 0x10000 then 0xde :: bigEndianBytes 2 length
  else 0xdf :: bigEndianBytes 4 length

/-- The header of a string. -/
def stringHeader (length : Nat) : List UInt8 :=
  if length < 0x20 then [UInt8.ofNat (0xa0 + length)]
  else if length < 0x100 then 0xd9 :: bigEndianBytes 1 length
  else if length < 0x10000 then 0xda :: bigEndianBytes 2 length
  else 0xdb :: bigEndianBytes 4 length

/-- The header of a binary. -/
def binaryHeader (length : Nat) : List UInt8 :=
  if length < 0x100 then 0xc4 :: bigEndianBytes 1 length
  else if length < 0x10000 then 0xc5 :: bigEndianBytes 2 length
  else 0xc6 :: bigEndianBytes 4 length

/-- A string. -/
def textBytes (s : String) : List UInt8 :=
  let payload := Utf8.encode s
  stringHeader payload.length ++ payload

/-- The bytes of a token. -/
def Token.encode : Token → List UInt8
  | .array length => arrayHeader length.toNat
  | .map length => mapHeader length.toNat
  | .uint n => unsignedBytes n.toNat
  | .sint n => signedBytes n.toInt
  | .float x => 0xcb :: bigEndianBytes 8 x.bits.toNat
  | .bool b => [if b then 0xc3 else 0xc2]
  | .nil => [0xc0]
  | .text s => textBytes s
  | .optText (some s) => textBytes s
  | .optText none => [0xc0]
  | .binary bytes => binaryHeader bytes.length ++ bytes
  | .byteList bytes => arrayHeader bytes.length ++ bytes.flatMap fun b => unsignedBytes b.toNat
  | .tag name => mapHeader 1 ++ textBytes name
  | .raw bytes => bytes

/-- The bytes of tokens, one after another. -/
def encodeTokens (tokens : List Token) : List UInt8 := tokens.flatMap Token.encode

/-- A collection: an array whose elements are arrays of `fields` elements, each
    written as its tokens. -/
def encodeCollection (fields : Nat) (records : List (List Token)) : List UInt8 :=
  arrayHeader records.length ++
    records.flatMap fun tokens => arrayHeader fields ++ encodeTokens tokens

end ChainGuest.Wire
