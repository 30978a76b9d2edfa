import ChainGuest.Text.Hex

/-! # Decoding failures

    Why bytes from the host are refused. Every position is a byte offset from
    the start of the buffer.
-/

namespace ChainGuest.Wire

/-- What a single token holds. -/
inductive Shape where
  | nil
  | bool
  | integer
  | float
  | string
  | binary
  | array
  | map
  deriving DecidableEq

/-- The shape's name in messages. -/
def Shape.name : Shape → String
  | .nil => "nil"
  | .bool => "bool"
  | .integer => "integer"
  | .float => "float"
  | .string => "string"
  | .binary => "binary"
  | .array => "array"
  | .map => "map"

/-- The integer types a field may have. -/
inductive IntKind where
  | u8
  | u16
  | u32
  | u64
  | i8
  | i16
  | i32
  | i64
  deriving DecidableEq

namespace IntKind

/-- The type's name in messages. -/
def name : IntKind → String
  | .u8 => "u8"
  | .u16 => "u16"
  | .u32 => "u32"
  | .u64 => "u64"
  | .i8 => "i8"
  | .i16 => "i16"
  | .i32 => "i32"
  | .i64 => "i64"

/-- The least integer of the type. -/
def least : IntKind → Int
  | .i8 => -0x80
  | .i16 => -0x8000
  | .i32 => -0x80000000
  | .i64 => -0x8000000000000000
  | _ => 0

/-- The greatest integer of the type. -/
def greatest : IntKind → Int
  | .u8 => 0xff
  | .u16 => 0xffff
  | .u32 => 0xffffffff
  | .u64 => 0xffffffffffffffff
  | .i8 => 0x7f
  | .i16 => 0x7fff
  | .i32 => 0x7fffffff
  | .i64 => 0x7fffffffffffffff

/-- `n` is an integer of the type. -/
def Holds (k : IntKind) (n : Int) : Prop := k.least ≤ n ∧ n ≤ k.greatest

instance (k : IntKind) (n : Int) : Decidable (k.Holds n) :=
  inferInstanceAs (Decidable (_ ∧ _))

end IntKind

/-- Why a buffer could not be decoded. -/
inductive DecodeError where
  /-- The bytes end before the token does. -/
  | unexpectedEof (position needed remaining : Nat)
  /-- The next token has another shape. -/
  | unexpectedMarker (position : Nat) (expected : Shape) (marker : UInt8)
  /-- The integer is outside the type asked for. -/
  | integerOutOfRange (position : Nat) (target : IntKind)
  /-- The payload of a string is no text. -/
  | invalidUtf8 (position : Nat)
  /-- The text is no 256-bit hex integer. -/
  | invalidHex (text : String)
  /-- No kind of value has this tag. -/
  | unknownValueTag (tag : String)
  /-- A tagged value is a map of exactly one entry. -/
  | invalidTagMap (position length : Nat)
  /-- A struct is a pair of its type name and its fields. -/
  | invalidStructArity (position length : Nat)
  /-- Values are nested more deeply than configured. -/
  | depthLimitExceeded (limit : Nat)
  /-- Bytes are left after the last token. -/
  | trailingBytes (position remaining : Nat)
  deriving DecidableEq

/-- The text of a decoding failure. -/
def DecodeError.message : DecodeError → String
  | .unexpectedEof position needed remaining =>
    s!"unexpected end of buffer at {position}: needed {needed} byte(s), {remaining} remaining"
  | .unexpectedMarker position expected marker =>
    let found := String.ofList (Hex.byteDigits marker)
    s!"expected {expected.name} at {position}, found marker 0x{found}"
  | .integerOutOfRange position target =>
    s!"integer at {position} does not fit into {target.name}"
  | .invalidUtf8 position => s!"invalid UTF-8 string at {position}"
  | .invalidHex text => s!"invalid hex integer '{text}'"
  | .unknownValueTag tag => "unknown `Value` type: " ++ tag
  | .invalidTagMap position length =>
    s!"value tag map at {position} must have exactly one entry, found {length}"
  | .invalidStructArity position length =>
    s!"struct value at {position} must be a 2-element array, found {length}"
  | .depthLimitExceeded limit =>
    s!"value nesting exceeds the configured depth limit of {limit}"
  | .trailingBytes position remaining =>
    s!"{remaining} trailing byte(s) after decoding at {position}"

end ChainGuest.Wire
