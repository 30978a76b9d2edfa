import ChainGuest.Wire.Buffer
import ChainGuest.Wire.Token

/-! # Generic values

    A value is written as a map of one entry, its tag to its payload: a boolean,
    an unsigned integer, a string, a list of values, or a struct. A struct is a
    pair of its type's name and a map of its fields, which keep the order and the
    repetitions they were written with.
-/

namespace ChainGuest

open Wire

inductive Value where
  | bool (b : Bool)
  | u64 (n : UInt64)
  | text (s : String)
  | list (items : List Value)
  | struct (typeName : String) (fields : List (String × Value))

/-- A value was asked for what it is not. -/
inductive ValueError where
  | wrongVariant (expected found : String)
  deriving DecidableEq

def ValueError.message : ValueError → String
  | .wrongVariant expected found => s!"wrong value variant: expected {expected}, found {found}"

namespace Value

/-! ## Variants -/

/-- The kinds of values. -/
inductive Variant where
  | bool
  | u64
  | text
  | list
  | struct
  deriving DecidableEq

/-- The tag of a kind on the wire. -/
def Variant.tag : Variant → String
  | .bool => "b"
  | .u64 => "u64"
  | .text => "s"
  | .list => "l"
  | .struct => "st"

/-- The name of a kind in messages. -/
def Variant.name : Variant → String
  | .bool => "Bool"
  | .u64 => "U64"
  | .text => "String"
  | .list => "List"
  | .struct => "Struct"

def Variant.all : List Variant := [.bool, .u64, .text, .list, .struct]

/-- The kind that has this tag. -/
def Variant.ofTag? (tag : String) : Option Variant := Variant.all.find? (·.tag == tag)

@[simp] theorem Variant.ofTag?_tag (v : Variant) : Variant.ofTag? v.tag = some v := by
  cases v <;> decide

def variant : Value → Variant
  | .bool _ => .bool
  | .u64 _ => .u64
  | .text _ => .text
  | .list _ => .list
  | .struct .. => .struct

/-- What `pick` finds in a value, or the failure to be of kind `expected`. -/
def pickAs {α : Type} (expected : Variant) (pick : Value → Option α) (v : Value) :
    Except ValueError α :=
  match pick v with
  | some a => .ok a
  | none => .error (.wrongVariant expected.name v.variant.name)

def asBool : Value → Except ValueError Bool :=
  pickAs .bool fun | .bool b => some b | _ => none

def asU64 : Value → Except ValueError UInt64 :=
  pickAs .u64 fun | .u64 n => some n | _ => none

def asText : Value → Except ValueError String :=
  pickAs .text fun | .text s => some s | _ => none

def asList : Value → Except ValueError (List Value) :=
  pickAs .list fun | .list items => some items | _ => none

/-- The type's name and the fields of a struct. -/
def asStruct : Value → Except ValueError (String × List (String × Value)) :=
  pickAs .struct fun | .struct typeName fields => some (typeName, fields) | _ => none

/-- The first field of this name. -/
def fieldOf? (name : String) (fields : List (String × Value)) : Option Value :=
  fields.lookup name

/-! ## Reading -/

/-- A field: its name and its value. -/
def readField (inner : Reader Value) : Reader (String × Value) := do
  let name ← Reader.text
  let value ← inner
  return (name, value)

/-- The pair of a struct's type name and its fields. -/
def readStruct (inner : Reader Value) : Reader Value := do
  let start ← Reader.position
  let length ← Reader.arrayLength
  if length ≠ 2 then Attempt.fail (.invalidStructArity start length)
  else
    let typeName ← Reader.text
    let count ← Reader.mapLength
    return .struct typeName (← Reader.times count (readField inner))

/-- A value whose containers are read by `inner`. -/
def readLevel (limit : Nat) (inner : Option (Reader Value)) : Reader Value := do
  let tag ← Reader.valueTag
  match Variant.ofTag? tag with
  | some .bool => return .bool (← Reader.bool)
  | some .u64 => return .u64 (← Reader.u64)
  | some .text => return .text (← Reader.text)
  | some .list => return .list (← Reader.inside limit inner Reader.array)
  | some .struct => Reader.inside limit inner readStruct
  | none => Attempt.fail (.unknownValueTag tag)

/-- A value with at most `room` containers around one another. The recursion is on
    the room, so a configured limit bounds it whatever the bytes claim. -/
def readWithin (limit : Nat) : (room : Nat) → Reader Value
  | 0 => fun c => readLevel limit none c
  | room + 1 => fun c => readLevel limit (some (readWithin limit room)) c

/-- A value, within the levels that the limit leaves at the cursor. -/
def read (limit : Nat) : Reader Value := fun c => readWithin limit (limit - c.depth) c

/-- The value that a buffer holds. -/
def ofBytes (config : Config) (bytes : List UInt8) : Except DecodeError Value × List Leftover :=
  decodeBuffer config .value (read config.maxValueDepth) bytes

/-! ## Writing -/

mutual

/-- The tokens of a value. -/
def tokens : Value → List Token
  | .bool b => [.tag Variant.bool.tag, .bool b]
  | .u64 n => [.tag Variant.u64.tag, .uint n]
  | .text s => [.tag Variant.text.tag, .text s]
  | .list items => .tag Variant.list.tag :: .array (UInt32.ofNat items.length) :: itemTokens items
  | .struct typeName fields =>
    .tag Variant.struct.tag :: .array 2 :: .text typeName ::
      .map (UInt32.ofNat fields.length) :: fieldTokens fields

/-- The tokens of values, one after another. -/
def itemTokens : List Value → List Token
  | [] => []
  | v :: vs => tokens v ++ itemTokens vs

/-- The tokens of fields, one after another. -/
def fieldTokens : List (String × Value) → List Token
  | [] => []
  | (name, v) :: fields => .text name :: tokens v ++ fieldTokens fields

end

/-! ## Size -/

mutual

/-- How many containers stand around one another in a value. -/
def nesting : Value → Nat
  | .bool _ | .u64 _ | .text _ => 0
  | .list items => 1 + itemNesting items
  | .struct _ fields => 1 + fieldNesting fields

/-- The greatest nesting of some values. -/
def itemNesting : List Value → Nat
  | [] => 0
  | v :: vs => max (nesting v) (itemNesting vs)

/-- The greatest nesting of some fields. -/
def fieldNesting : List (String × Value) → Nat
  | [] => 0
  | (_, v) :: fields => max (nesting v) (fieldNesting fields)

end

end Value

end ChainGuest
