import ChainGuest.Wire.Buffer
import ChainGuest.Wire.Token

/-! # Record schemas

    A record travels as an array of its fields. The array carries no names, so the
    order of the fields is the contract; one schema per record fixes the names, the
    types and the order, and both reading and writing follow it.
-/

namespace ChainGuest

open Wire

/-! ## Field types -/

/-- What a field of a record may hold, and how it is written. -/
inductive FieldType where
  | u64
  | u32
  | u8
  | i64
  | float
  | text
  /-- A text or nil. -/
  | optText
  /-- Bytes written as a binary. -/
  | binary
  /-- Bytes written as an array of integers. -/
  | byteList
  deriving DecidableEq

/-- The values of a field. -/
abbrev FieldType.Carrier : FieldType → Type
  | .u64 => UInt64
  | .u32 => UInt32
  | .u8 => UInt8
  | .i64 => Int64
  | .float => Binary64
  | .text => String
  | .optText => Option String
  | .binary => List UInt8
  | .byteList => List UInt8

/-- Read a field. -/
def FieldType.read : (t : FieldType) → Reader t.Carrier
  | .u64 => Reader.u64
  | .u32 => Reader.u32
  | .u8 => Reader.u8
  | .i64 => Reader.i64
  | .float => Reader.float
  | .text => Reader.text
  | .optText => Reader.optional Reader.text
  | .binary => Reader.binary
  | .byteList => Reader.byteList

/-- The token that writes a field. -/
def FieldType.token : (t : FieldType) → t.Carrier → Token
  | .u64, n => .uint n
  | .u32, n => .uint n.toUInt64
  | .u8, n => .uint n.toUInt64
  | .i64, n => .sint n
  | .float, x => .float x
  | .text, s => .text s
  | .optText, s => .optText s
  | .binary, bytes => .binary bytes
  | .byteList, bytes => .byteList bytes

/-! ## Rows -/

/-- The fields of a record, in the order they are written. -/
abbrev Schema : Type := List (String × FieldType)

/-- One value for each field. -/
@[reducible] def Row : Schema → Type
  | [] => Unit
  | (_, t) :: schema => t.Carrier × Row schema

namespace Row

/-- Read one field after another. -/
def read : (schema : Schema) → Reader (Row schema)
  | [] => pure ()
  | (_, t) :: schema => do
    let value ← t.read
    let row ← read schema
    return (value, row)

/-- The tokens of the fields, one after another. -/
def tokens : (schema : Schema) → Row schema → List Token
  | [], _ => []
  | (_, t) :: schema, (value, row) => t.token value :: tokens schema row

end Row

/-! ## Entities -/

/-- A type of records, which are the rows of its schema. -/
class Entity (α : Type) where
  schema : Schema
  toRow : α → Row schema
  ofRow : Row schema → α
  ofRow_toRow : ∀ a, ofRow (toRow a) = a
  toRow_ofRow : ∀ r, toRow (ofRow r) = r

namespace Entity

variable {α : Type} [Entity α]

/-- Read the fields of a record. -/
def read : Reader α := do
  return ofRow (← Row.read (schema α))

/-- The tokens of a record's fields. -/
def tokens (a : α) : List Token := Row.tokens (schema α) (toRow a)

/-- An array of records. The length that each record's own array claims is read and
    not looked at. -/
def readAll : Reader (List α) := Reader.array do
  let _ ← Reader.arrayLength
  read

end Entity

/-- The collection of records that a buffer holds. -/
def decodeCollection {α : Type} [Entity α] (config : Config) (bytes : List UInt8) :
    Except DecodeError (List α) × List Leftover :=
  decodeBuffer config .collection Entity.readAll bytes

end ChainGuest
