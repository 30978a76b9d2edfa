import ChainGuest.Json.Parser
import ChainGuest.Number.Text

/-! # Numbers in JSON

    What a number token is worth. An integer that fits into a 64-bit word stays an
    integer. Any other number is a double: its leading digits are gathered in a
    64-bit word, that word is rounded, and the rounded number is multiplied or
    divided by a rounded power of ten. So each of the three steps may round once.
-/

namespace ChainGuest.Json

/-- What a number token is worth. -/
inductive Number where
  | natural (n : UInt64)
  /-- Minus `n`, for `n` from 1 to the magnitude of the least signed word. -/
  | negative (n : UInt64)
  | real (x : Binary64)
  deriving DecidableEq

namespace Number

/-- The text of a number. A double that is not finite has none in JSON. -/
def chars : Number → List Char
  | .natural n => decimalDigits n.toNat
  | .negative n => '-' :: decimalDigits n.toNat
  | .real x => if x.isFinite then NumberStyle.plain.text x else ['n', 'u', 'l', 'l']

/-! ## Tokens -/

/-- The value of a decimal digit. -/
def digitValue (c : Char) : Nat := c.toNat - '0'.toNat

/-- Gather digits behind `n` as long as the number fits into a word; the number, and the
    digits that are left. -/
def gather (n : Nat) : List Char → Nat × List Char
  | [] => (n, [])
  | c :: cs =>
    let next := n * 10 + digitValue c
    if next < UInt64.size then gather next cs else (n, c :: cs)

/-- The nearest double to a power of ten. -/
def powerOfTen (e : Nat) : Binary64 := .ofNat (Nat.pow 10 e)

/-- `x` scaled by a power of ten. Powers beyond the greatest double are divided by in
    steps, and multiplying by one is out of range. -/
def scale (x : Binary64) (exponent : Int) : Option Binary64 :=
  if 0 ≤ exponent then
    if x.significand = 0 then some x
    else if 308 < exponent then none
    else
      let y := x.mul (powerOfTen exponent.toNat)
      if y.isFinite then some y else none
  else if -308 ≤ exponent then some (x.div (powerOfTen (-exponent).toNat))
  else if x.significand = 0 then some x
  else scale (x.div (powerOfTen 308)) (exponent + 308)
termination_by exponent.natAbs
decreasing_by omega

/-- The parts of a number token. -/
structure Parts where
  minus : Bool
  whole : List Char
  fraction : Option (List Char)
  exponent : Option Int

/-- The exponent that the text after the mark spells. -/
def exponentOf (cs : List Char) : Int :=
  let value (digits : List Char) : Int := digits.foldl (fun n c => n * 10 + digitValue c) 0
  match cs with
  | '-' :: digits => -value digits
  | '+' :: digits => value digits
  | digits => value digits

/-- The parts of a token that the grammar admits. -/
def partsOf (token : List Char) : Parts :=
  let (minus, cs) := match token with
    | '-' :: cs => (true, cs)
    | cs => (false, cs)
  let whole := cs.takeWhile Char.isDigit
  let (fraction, cs) := match cs.dropWhile Char.isDigit with
    | '.' :: cs => (some (cs.takeWhile Char.isDigit), cs.dropWhile Char.isDigit)
    | cs => (none, cs)
  let exponent := match cs with
    | _ :: cs => some (exponentOf cs)
    | [] => none
  ⟨minus, whole, fraction, exponent⟩

/-- What a token is worth, if that is in range. -/
def ofToken? (token : List Char) : Option Number :=
  let parts := partsOf token
  let signed (x : Binary64) : Number := .real (if parts.minus then x.neg else x)
  let (n, more) := gather 0 parts.whole
  if parts.fraction.isNone && parts.exponent.isNone && more.isEmpty then
    if !parts.minus then some (.natural (UInt64.ofNat n))
    else if 1 ≤ n ∧ n ≤ 0x8000000000000000 then some (.negative (UInt64.ofNat n))
    else some (signed (.ofNat n))
  else
    -- Digits that no longer fit count as powers of ten.
    let digits := parts.fraction.getD []
    let (n, left) := gather n digits
    let point : Int := more.length - (digits.length - left.length)
    (scale (.ofNat n) (point + parts.exponent.getD 0)).map signed

end Number

/-! ## Normal documents -/

/-- The members with one more, in the order of their names; a name that is there already
    gets the new value. -/
def insertMember {α : Type} (name : String) (a : α) : List (String × α) → List (String × α)
  | [] => [(name, a)]
  | (other, b) :: members =>
    if name < other then (name, a) :: (other, b) :: members
    else if name = other then (name, a) :: members
    else (other, b) :: insertMember name a members

/-- Containers that may enclose one another in a document. -/
def maxNesting : Nat := 127

mutual

/-- The document with each object's members sorted by name, the last of one name kept, and
    each number in its one form. There is none if more than `room` containers enclose
    one another, or if a number is out of range. -/
def normal? (room : Nat) : Document → Option Document
  | .null => some .null
  | .bool b => some (.bool b)
  | .number token => (Number.ofToken? token).map fun n => .number n.chars
  | .string s => some (.string s)
  | .array items =>
    if room = 0 then none else (normalItems? (room - 1) items).map .array
  | .object members =>
    if room = 0 then none else (normalMembers? (room - 1) [] members).map .object

def normalItems? (room : Nat) : List Document → Option (List Document)
  | [] => some []
  | j :: items => do return (← normal? room j) :: (← normalItems? room items)

def normalMembers? (room : Nat) (done : List (String × Document)) :
    List (String × Document) → Option (List (String × Document))
  | [] => some done
  | (name, j) :: members => do
    let item ← normal? room j
    normalMembers? room (insertMember name item done) members

end

/-- The normal document that a text is. -/
def normalOf? (s : String) : Option Document := (parse? s).bind (normal? maxNesting)

/-- The rows of a table: a text that is an array of objects. -/
def rowsOf? (s : String) : Option (List Document) := do
  match ← normalOf? s with
  | .array rows =>
    if rows.all fun | .object _ => true | _ => false then return rows else none
  | _ => none

end ChainGuest.Json
