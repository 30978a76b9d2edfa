import ChainGuest.Number.Binary64
import ChainGuest.Text.Utf8
import ChainGuest.Wire.Cursor

/-! # Reading tokens

    A token is one marker byte, a payload of a size that the marker fixes, and
    for strings and binaries as many bytes as the payload counts. This module
    says which markers each reader admits and reads single tokens; a reader that
    fails inside a token's marker or payload has not moved.
-/

namespace ChainGuest.Wire

/-! ## Token forms -/

/-- What follows a marker: the size of the payload, and what the payload says. -/
structure Form (α : Type) where
  width : Nat
  value : List UInt8 → α

/-- A form without payload. -/
def Form.bare {α : Type} (a : α) : Form α := ⟨0, fun _ => a⟩

/-- The number that bytes spell, most significant first. -/
def bigEndian (bytes : List UInt8) : Nat :=
  bytes.foldl (fun n b => n * 256 + b.toNat) 0

/-- The same as a signed number, in two's complement. -/
def bigEndianSigned (bytes : List UInt8) : Int :=
  let n := bigEndian bytes
  let modulus := Nat.pow 256 bytes.length
  if 2 * n < modulus then n else (n : Int) - modulus

/-- The counts that follow a marker as one, two or four bytes. -/
def Form.count (width : Nat) : Form Nat := ⟨width, bigEndian⟩

/-- The marker of nil. -/
def nilForm? (marker : UInt8) : Option (Form Unit) :=
  if marker = 0xc0 then some (.bare ()) else none

/-- The markers of false and true. -/
def boolForm? (marker : UInt8) : Option (Form Bool) :=
  if marker = 0xc2 then some (.bare false)
  else if marker = 0xc3 then some (.bare true)
  else none

/-- The markers of integers: small ones stand in the marker itself, others follow
    it in one, two, four or eight bytes, unsigned or in two's complement. -/
def integerForm? (marker : UInt8) : Option (Form Int) :=
  if marker < 0x80 then some (.bare marker.toNat)
  else if 0xe0 ≤ marker then some (.bare ((marker.toNat : Int) - 256))
  else if marker = 0xcc then some ⟨1, fun p => bigEndian p⟩
  else if marker = 0xcd then some ⟨2, fun p => bigEndian p⟩
  else if marker = 0xce then some ⟨4, fun p => bigEndian p⟩
  else if marker = 0xcf then some ⟨8, fun p => bigEndian p⟩
  else if marker = 0xd0 then some ⟨1, bigEndianSigned⟩
  else if marker = 0xd1 then some ⟨2, bigEndianSigned⟩
  else if marker = 0xd2 then some ⟨4, bigEndianSigned⟩
  else if marker = 0xd3 then some ⟨8, bigEndianSigned⟩
  else none

/-- The markers of floats: single precision is widened. -/
def floatForm? (marker : UInt8) : Option (Form Binary64) :=
  if marker = 0xca then some ⟨4, fun p => .ofBinary32 (bigEndian p)⟩
  else if marker = 0xcb then some ⟨8, fun p => ⟨UInt64.ofNat (bigEndian p)⟩⟩
  else none

/-- The markers of strings, with their length in bytes. -/
def stringForm? (marker : UInt8) : Option (Form Nat) :=
  if 0xa0 ≤ marker ∧ marker ≤ 0xbf then some (.bare (marker.toNat - 0xa0))
  else if marker = 0xd9 then some (.count 1)
  else if marker = 0xda then some (.count 2)
  else if marker = 0xdb then some (.count 4)
  else none

/-- The markers of binaries, with their length in bytes. -/
def binaryForm? (marker : UInt8) : Option (Form Nat) :=
  if marker = 0xc4 then some (.count 1)
  else if marker = 0xc5 then some (.count 2)
  else if marker = 0xc6 then some (.count 4)
  else none

/-- The markers of arrays, with the number of their elements. -/
def arrayForm? (marker : UInt8) : Option (Form Nat) :=
  if 0x90 ≤ marker ∧ marker ≤ 0x9f then some (.bare (marker.toNat - 0x90))
  else if marker = 0xdc then some (.count 2)
  else if marker = 0xdd then some (.count 4)
  else none

/-- The markers of maps, with the number of their entries. -/
def mapForm? (marker : UInt8) : Option (Form Nat) :=
  if 0x80 ≤ marker ∧ marker ≤ 0x8f then some (.bare (marker.toNat - 0x80))
  else if marker = 0xde then some (.count 2)
  else if marker = 0xdf then some (.count 4)
  else none

namespace Reader

/-! ## Single tokens -/

/-- A marker and its payload. -/
def token {α : Type} (shape : Shape) (form? : UInt8 → Option (Form α)) : Reader α := fun c =>
  match c.rest with
  | [] => (.error (.unexpectedEof c.position 1 0), c)
  | marker :: tail =>
    match form? marker with
    | none => (.error (.unexpectedMarker c.position shape marker), c)
    | some form =>
      match splitFront? form.width tail with
      | none => (.error (.unexpectedEof (c.position + 1) form.width tail.length), c)
      | some (payload, rest) => (.ok (form.value payload), c.advance (1 + form.width) rest)

def nil : Reader Unit := token .nil nilForm?

def bool : Reader Bool := token .bool boolForm?

def float : Reader Binary64 := token .float floatForm?

/-- An integer of any form, refused without moving if `kind` does not hold it. -/
def integer (kind : IntKind) : Reader Int := fun c =>
  match token .integer integerForm? c with
  | (.ok n, c') =>
    if kind.Holds n then (.ok n, c') else (.error (.integerOutOfRange c.position kind), c)
  | (.error e, c') => (.error e, c')

def u8 : Reader UInt8 := do return UInt8.ofNat (← integer .u8).toNat

def u32 : Reader UInt32 := do return UInt32.ofNat (← integer .u32).toNat

def u64 : Reader UInt64 := do return UInt64.ofNat (← integer .u64).toNat

def i64 : Reader Int64 := do return Int64.ofInt (← integer .i64)

/-- The number of elements of the array that starts here. -/
def arrayLength : Reader Nat := token .array arrayForm?

/-- The number of entries of the map that starts here. -/
def mapLength : Reader Nat := token .map mapForm?

/-! ## Nil or not -/

/-- Whether the next token is nil; nothing is read. -/
def peekNil : Reader Bool := fun c => (.ok (c.rest.head? == some 0xc0), c)

/-- Read a nil if one is next, and say whether. -/
def tryNil : Reader Bool := do
  if ← peekNil then
    nil
    return true
  else
    return false

/-- Nil, or what `r` reads. -/
def optional {α : Type} (r : Reader α) : Reader (Option α) := do
  if ← tryNil then return none else return some (← r)

/-! ## Strings and bytes -/

/-- A string. One that is cut short stops after its header, and one that is no
    text stops after its payload. -/
def text : Reader String := do
  let length ← token .string stringForm?
  let start ← position
  let payload ← take length
  match Utf8.decode? payload with
  | some s => return s
  | none => Attempt.fail (.invalidUtf8 start)

/-- Bytes written as a binary. -/
def binary : Reader (List UInt8) := do
  take (← token .binary binaryForm?)

/-! ## Arrays -/

/-- An array of what `r` reads. -/
def array {α : Type} (r : Reader α) : Reader (List α) := do
  times (← arrayLength) r

/-- Bytes written as an array of integers. -/
def byteList : Reader (List UInt8) := array u8

/-- The tag of a tagged value, which is the key of a map of one entry. -/
def valueTag : Reader String := do
  let start ← position
  let length ← mapLength
  if length = 1 then text else Attempt.fail (.invalidTagMap start length)

end Reader

end ChainGuest.Wire
