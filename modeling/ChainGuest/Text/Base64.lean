import ChainGuest.Text.Utf8

/-! # Base64

    Bytes as text over 64 symbols, six bits a symbol, padded to groups of four. Only
    the canonical text of some bytes is accepted: padding is required, and the bits
    that the last symbol holds beyond the last byte must be zero.
-/

namespace ChainGuest.Base64

/-! ## Symbols -/

/-- The symbol of six bits, as a byte. -/
def symbol (n : Nat) : UInt8 :=
  if n < 26 then UInt8.ofNat ('A'.toNat + n)
  else if n < 52 then UInt8.ofNat ('a'.toNat + (n - 26))
  else if n < 62 then UInt8.ofNat ('0'.toNat + (n - 52))
  else if n = 62 then '+'.toUInt8
  else '/'.toUInt8

/-- The six bits that a byte is the symbol of. -/
def symbolValue? (b : UInt8) : Option Nat :=
  let n := b.toNat
  if 'A'.toNat ≤ n ∧ n ≤ 'Z'.toNat then some (n - 'A'.toNat)
  else if 'a'.toNat ≤ n ∧ n ≤ 'z'.toNat then some (n - 'a'.toNat + 26)
  else if '0'.toNat ≤ n ∧ n ≤ '9'.toNat then some (n - '0'.toNat + 52)
  else if b = '+'.toUInt8 then some 62
  else if b = '/'.toUInt8 then some 63
  else none

/-- The padding. -/
def pad : UInt8 := '='.toUInt8

/-! ## Writing -/

/-- The symbols of bytes, three bytes to four symbols. -/
def symbols : List UInt8 → List UInt8
  | a :: b :: c :: rest =>
    let n := a.toNat * 65536 + b.toNat * 256 + c.toNat
    symbol (n / 262144) :: symbol (n / 4096 % 64) :: symbol (n / 64 % 64) :: symbol (n % 64) ::
      symbols rest
  | [a, b] =>
    let n := a.toNat * 1024 + b.toNat * 4
    [symbol (n / 4096), symbol (n / 64 % 64), symbol (n % 64), pad]
  | [a] =>
    let n := a.toNat * 16
    [symbol (n / 64), symbol (n % 64), pad, pad]
  | [] => []

/-- The text of bytes. -/
def encode (bytes : List UInt8) : String :=
  String.ofList ((symbols bytes).map fun b => Char.ofNat b.toNat)

/-! ## Reading -/

/-- Why a text is not the text of any bytes. -/
inductive Fault where
  /-- A byte that may not stand where it does. -/
  | invalidByte (byte : UInt8) (offset : Nat)
  /-- The symbols stop inside a byte. -/
  | invalidLength (length : Nat)
  /-- The padding does not fill up the last group. -/
  | invalidPadding
  /-- The last symbol holds bits beyond the last byte. -/
  | invalidLastSymbol (byte : UInt8) (offset : Nat)
  deriving DecidableEq

def Fault.message : Fault → String
  | .invalidByte byte offset => s!"Invalid symbol {byte.toNat}, offset {offset}."
  | .invalidLength length => s!"Invalid input length: {length}"
  | .invalidPadding => "Invalid padding"
  | .invalidLastSymbol byte offset => s!"Invalid last symbol {byte.toNat}, offset {offset}."

/-- The value of the symbol at an offset. -/
def valueAt (b : UInt8) (offset : Nat) : Except Fault Nat :=
  match symbolValue? b with
  | some n => .ok n
  | none => .error (.invalidByte b offset)

/-- The three bytes of four symbols. -/
def quadBytes (a b c d : Nat) : List UInt8 :=
  let n := a * 262144 + b * 4096 + c * 64 + d
  [UInt8.ofNat (n / 65536), UInt8.ofNat (n / 256 % 256), UInt8.ofNat (n % 256)]

/-- The bytes of symbols that come in groups of four. -/
def quads : List Nat → List UInt8
  | a :: b :: c :: d :: rest => quadBytes a b c d ++ quads rest
  | _ => []

/-- The symbols of the last group and the number of its pads, from the byte at `index`
    on. Padding starts at the third byte of the group at the earliest, and no symbol
    follows it; the offset of the first pad is `firstPad`. -/
def lastGroup (start : Nat) : (index : Nat) → (firstPad : Option Nat) → List UInt8 →
    Except Fault (List Nat × Nat)
  | _, _, [] => .ok ([], 0)
  | index, firstPad, b :: rest =>
    if b = pad then
      if index < 2 then .error (.invalidByte b (start + index))
      else (lastGroup start (index + 1) (firstPad <|> some index) rest).map
        fun (values, pads) => (values, pads + 1)
    else
      match firstPad with
      | some first => .error (.invalidByte pad (start + first))
      | none => do
        let n ← valueAt b (start + index)
        let (values, pads) ← lastGroup start (index + 1) none rest
        return (n :: values, pads)

/-- The bytes that the last group holds. -/
def finishGroup (start : Nat) (group : List UInt8) : Except Fault (List UInt8) := do
  let (values, pads) ← lastGroup start 0 none group
  let count := values.length
  if start + group.length ≠ 0 ∧ count < 2 then .error (.invalidLength (start + count))
  else if (count + pads) % 4 ≠ 0 then .error .invalidPadding
  else
    let last := start + count - 1
    match values with
    | [a, b, c, d] => .ok (quadBytes a b c d)
    | [a, b, c] =>
      if c % 4 ≠ 0 then .error (.invalidLastSymbol (symbol c) last)
      else .ok ((quadBytes a b c 0).take 2)
    | [a, b] =>
      if b % 16 ≠ 0 then .error (.invalidLastSymbol (symbol b) last)
      else .ok ((quadBytes a b 0 0).take 1)
    | _ => .ok []

/-- The bytes of a text. A last byte that stands alone and is no symbol is reported
    first, then the first fault from the left. -/
def decode (s : String) : Except Fault (List UInt8) := do
  let text := Utf8.encode s
  let length := text.length
  if length % 4 = 1 then
    match text.getLast? with
    | some b => if b ≠ pad ∧ (symbolValue? b).isNone then .error (.invalidByte b (length - 1))
    | none => pure ()
  let start := (length - 1) / 4 * 4
  let values ← (text.take start).zipIdx.mapM fun (b, offset) => valueAt b offset
  let tail ← finishGroup start (text.drop start)
  return quads values ++ tail

end ChainGuest.Base64
