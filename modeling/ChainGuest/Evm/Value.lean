import ChainGuest.Failure
import ChainGuest.Number.Word256
import ChainGuest.Value

/-! # Values of contract calls

    The arguments of a contract call, typed as its signature types them. Each is a
    map of one entry, its tag to its payload. Integers travel as hex text of their
    256 bits, and bytes as arrays of integers.
-/

namespace ChainGuest.Evm

open Wire

inductive Value where
  | bool (b : Bool)
  | uint (u : U256)
  | int (x : I256)
  | text (s : String)
  | address (s : String)
  | bytes (b : List UInt8)
  | fixedBytes (b : List UInt8)
  | array (items : List Value)
  | fixedArray (items : List Value)
  | tuple (items : List Value)

namespace Value

/-! ## Variants -/

/-- The kinds of values. -/
inductive Variant where
  | bool
  | uint
  | int
  | text
  | address
  | bytes
  | fixedBytes
  | array
  | fixedArray
  | tuple
  deriving DecidableEq

/-- The name of a kind, in messages and as its tag on the wire. -/
def Variant.name : Variant → String
  | .bool => "Bool"
  | .uint => "Uint"
  | .int => "Int"
  | .text => "String"
  | .address => "Address"
  | .bytes => "Bytes"
  | .fixedBytes => "FixedBytes"
  | .array => "Array"
  | .fixedArray => "FixedArray"
  | .tuple => "Tuple"

def Variant.all : List Variant :=
  [.bool, .uint, .int, .text, .address, .bytes, .fixedBytes, .array, .fixedArray, .tuple]

/-- The kind that has this tag. -/
def Variant.ofTag? (tag : String) : Option Variant := Variant.all.find? (·.name == tag)

@[simp] theorem Variant.ofTag?_name (v : Variant) : Variant.ofTag? v.name = some v := by
  cases v <;> decide

def variant : Value → Variant
  | .bool _ => .bool
  | .uint _ => .uint
  | .int _ => .int
  | .text _ => .text
  | .address _ => .address
  | .bytes _ => .bytes
  | .fixedBytes _ => .fixedBytes
  | .array _ => .array
  | .fixedArray _ => .fixedArray
  | .tuple _ => .tuple

/-- What `pick` finds in a value, or the failure to be of kind `expected`. -/
def pickAs {α : Type} (expected : Variant) (pick : Value → Option α) (v : Value) :
    Except ValueError α :=
  match pick v with
  | some a => .ok a
  | none => .error (.wrongVariant expected.name v.variant.name)

def asBool : Value → Except ValueError Bool :=
  pickAs .bool fun | .bool b => some b | _ => none

def asUint : Value → Except ValueError U256 :=
  pickAs .uint fun | .uint u => some u | _ => none

def asInt : Value → Except ValueError I256 :=
  pickAs .int fun | .int x => some x | _ => none

def asText : Value → Except ValueError String :=
  pickAs .text fun | .text s => some s | _ => none

def asAddress : Value → Except ValueError String :=
  pickAs .address fun | .address s => some s | _ => none

def asBytes : Value → Except ValueError (List UInt8) :=
  pickAs .bytes fun | .bytes b => some b | _ => none

def asFixedBytes : Value → Except ValueError (List UInt8) :=
  pickAs .fixedBytes fun | .fixedBytes b => some b | _ => none

def asArray : Value → Except ValueError (List Value) :=
  pickAs .array fun | .array items => some items | _ => none

def asFixedArray : Value → Except ValueError (List Value) :=
  pickAs .fixedArray fun | .fixedArray items => some items | _ => none

def asTuple : Value → Except ValueError (List Value) :=
  pickAs .tuple fun | .tuple items => some items | _ => none

/-- The bytes of an address. -/
def asAddressBytes (v : Value) : Except Failure (List UInt8) := do
  let address ← v.asAddress.mapError fun e => .of (.value e)
  parseHexBytes address "address"

/-! ## Reading -/

/-- The children of a container: an array of values, one level deeper. -/
def readChildren (limit : Nat) (inner : Option (Reader Value)) : Reader (List Value) :=
  Reader.inside limit inner Reader.array

/-- A value whose children are read by `inner`. -/
def readLevel (limit : Nat) (inner : Option (Reader Value)) : Reader Value := do
  let tag ← Reader.valueTag
  match Variant.ofTag? tag with
  | some .bool => return .bool (← Reader.bool)
  | some .uint => return .uint (← Attempt.ofExcept (U256.ofHex (← Reader.text)))
  | some .int => return .int (← Attempt.ofExcept (I256.ofHex (← Reader.text)))
  | some .text => return .text (← Reader.text)
  | some .address => return .address (← Reader.text)
  | some .bytes => return .bytes (← Reader.byteList)
  | some .fixedBytes => return .fixedBytes (← Reader.byteList)
  | some .array => return .array (← readChildren limit inner)
  | some .fixedArray => return .fixedArray (← readChildren limit inner)
  | some .tuple => return .tuple (← readChildren limit inner)
  | none => Attempt.fail (.unknownValueTag tag)

/-- A value with at most `room` containers around one another. -/
def readWithin (limit : Nat) : (room : Nat) → Reader Value
  | 0 => fun c => readLevel limit none c
  | room + 1 => fun c => readLevel limit (some (readWithin limit room)) c

/-- A value, within the levels that the limit leaves at the cursor. -/
def read (limit : Nat) : Reader Value := fun c => readWithin limit (limit - c.depth) c

/-- The values that a buffer holds, as an array. -/
def listOfBytes (config : Config) (bytes : List UInt8) :
    Except DecodeError (List Value) × List Leftover :=
  decodeBuffer config .values (Reader.array (read config.maxValueDepth)) bytes

/-! ## Writing -/

mutual

/-- The tokens of a value. -/
def tokens : Value → List Token
  | .bool b => [.tag Variant.bool.name, .bool b]
  | .uint u => [.tag Variant.uint.name, .text u.toHex]
  | .int x => [.tag Variant.int.name, .text (U256.toHex x.bits)]
  | .text s => [.tag Variant.text.name, .text s]
  | .address s => [.tag Variant.address.name, .text s]
  | .bytes b => [.tag Variant.bytes.name, .byteList b]
  | .fixedBytes b => [.tag Variant.fixedBytes.name, .byteList b]
  | .array items => .tag Variant.array.name :: childTokens items
  | .fixedArray items => .tag Variant.fixedArray.name :: childTokens items
  | .tuple items => .tag Variant.tuple.name :: childTokens items

/-- The tokens of an array of values. -/
def childTokens (items : List Value) : List Token :=
  .array (UInt32.ofNat items.length) :: itemTokens items

/-- The tokens of values, one after another. -/
def itemTokens : List Value → List Token
  | [] => []
  | v :: vs => tokens v ++ itemTokens vs

end

/-! ## Size -/

mutual

/-- How many containers stand around one another in a value. -/
def nesting : Value → Nat
  | .array items | .fixedArray items | .tuple items => 1 + itemNesting items
  | _ => 0

/-- The greatest nesting of some values. -/
def itemNesting : List Value → Nat
  | [] => 0
  | v :: vs => max (nesting v) (itemNesting vs)

end

end Value

end ChainGuest.Evm
