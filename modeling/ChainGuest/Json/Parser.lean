import ChainGuest.Json.Basic
import ChainGuest.Text.Hex

/-! # Parsing JSON

    The grammar of JSON text. A string is read piece by piece, because a text may
    escape code units that no character has; which strings are texts is a question
    of its own, and so is how deep a document may be.
-/

namespace ChainGuest.Json

/-! ## Strings -/

/-- A piece of a string. -/
inductive Piece where
  | char (c : Char)
  /-- A code unit of 16 bits, escaped in hex. -/
  | unit (n : Nat)
  deriving DecidableEq

/-- A document whose strings are spelled in pieces. -/
abbrev Spelled : Type := Json (List Piece)

/-- The text that pieces spell. A unit is a character of its own, or the first half of
    a surrogate pair whose second half follows. -/
def resolveChars : List Piece → Option (List Char)
  | [] => some []
  | .char c :: rest => (resolveChars rest).map (c :: ·)
  | .unit high :: .unit low :: rest =>
    if 0xd800 ≤ high ∧ high ≤ 0xdbff then
      if 0xdc00 ≤ low ∧ low ≤ 0xdfff then
        let c := Char.ofNat (0x10000 + (high - 0xd800) * 0x400 + (low - 0xdc00))
        (resolveChars rest).map (c :: ·)
      else none
    else if 0xdc00 ≤ high ∧ high ≤ 0xdfff then none
    else (resolveChars (.unit low :: rest)).map (Char.ofNat high :: ·)
  | .unit n :: rest =>
    if 0xd800 ≤ n ∧ n ≤ 0xdfff then none else (resolveChars rest).map (Char.ofNat n :: ·)

/-- The text that pieces spell. -/
def resolve (pieces : List Piece) : Option String := (resolveChars pieces).map String.ofList

/-- The number that four hex digits spell. -/
def hexUnit? (a b c d : Char) : Option Nat := do
  return (((← Hex.digit? a) * 16 + (← Hex.digit? b)) * 16 + (← Hex.digit? c)) * 16 +
    (← Hex.digit? d)

/-- The character that a letter after a backslash stands for. -/
def escaped? : Char → Option Char
  | '"' => some '"'
  | '\\' => some '\\'
  | '/' => some '/'
  | 'b' => some '\x08'
  | 'f' => some '\x0c'
  | 'n' => some '\n'
  | 'r' => some '\r'
  | 't' => some '\t'
  | _ => none

/-- The rest of a string after its opening quote, up to the closing one; the pieces so
    far are in `done`, last first. -/
def parsePieces : (done : List Piece) → List Char → Option (List Piece × List Char)
  | done, '"' :: cs => some (done.reverse, cs)
  | done, '\\' :: 'u' :: a :: b :: c :: d :: cs =>
    match hexUnit? a b c d with
    | some n => parsePieces (.unit n :: done) cs
    | none => none
  | done, '\\' :: e :: cs =>
    match escaped? e with
    | some c => parsePieces (.char c :: done) cs
    | none => none
  | done, c :: cs => if c.toNat < 0x20 then none else parsePieces (.char c :: done) cs
  | _, [] => none

/-! ## Numbers -/

/-- One digit or more. -/
def parseDigits (cs : List Char) : Option (List Char × List Char) :=
  let digits := cs.takeWhile Char.isDigit
  if digits.isEmpty then none else some (digits, cs.dropWhile Char.isDigit)

/-- The whole part of a number: one zero, or digits that do not start with zero. -/
def parseWhole (cs : List Char) : Option (List Char × List Char) := do
  let (digits, rest) ← parseDigits cs
  if 1 < digits.length ∧ digits.head? = some '0' then none else return (digits, rest)

/-- A point and the digits after it, if there is a point. -/
def parseFraction : List Char → Option (List Char × List Char)
  | '.' :: cs => do
    let (digits, rest) ← parseDigits cs
    return ('.' :: digits, rest)
  | cs => some ([], cs)

/-- An exponent, if there is one. -/
def parseExponent : List Char → Option (List Char × List Char)
  | e :: cs =>
    if e = 'e' ∨ e = 'E' then
      let (sign, cs) := match cs with
        | '+' :: cs => (['+'], cs)
        | '-' :: cs => (['-'], cs)
        | cs => ([], cs)
      (parseDigits cs).map fun (digits, rest) => (e :: sign ++ digits, rest)
    else some ([], e :: cs)
  | [] => some ([], [])

/-- The token of a number. -/
def parseNumber (cs : List Char) : Option (List Char × List Char) := do
  let (sign, cs) := match cs with
    | '-' :: cs => (['-'], cs)
    | cs => ([], cs)
  let (whole, cs) ← parseWhole cs
  let (fraction, cs) ← parseFraction cs
  let (exponent, cs) ← parseExponent cs
  return (sign ++ whole ++ fraction ++ exponent, cs)

/-! ## Documents -/

/-- The blanks of JSON. -/
def isSpace (c : Char) : Bool := c = ' ' || c = '\t' || c = '\n' || c = '\r'

def dropSpace (cs : List Char) : List Char := cs.dropWhile isSpace

mutual

/-- A document and what follows it. Every call needs one of `fuel`. -/
def parseValue : (fuel : Nat) → List Char → Option (Spelled × List Char)
  | 0, _ => none
  | fuel + 1, cs =>
    match dropSpace cs with
    | 'n' :: 'u' :: 'l' :: 'l' :: cs => some (.null, cs)
    | 't' :: 'r' :: 'u' :: 'e' :: cs => some (.bool true, cs)
    | 'f' :: 'a' :: 'l' :: 's' :: 'e' :: cs => some (.bool false, cs)
    | '"' :: cs => (parsePieces [] cs).map fun (pieces, cs) => (.string pieces, cs)
    | '[' :: cs =>
      match dropSpace cs with
      | ']' :: cs => some (.array [], cs)
      | cs => parseItems fuel [] cs
    | '\x7b' :: cs =>
      match dropSpace cs with
      | '\x7d' :: cs => some (.object [], cs)
      | cs => parseMembers fuel [] cs
    | cs => (parseNumber cs).map fun (token, cs) => (.number token, cs)

/-- The items of an array from one item on; those before it are in `done`, last first. -/
def parseItems : (fuel : Nat) → (done : List Spelled) → List Char → Option (Spelled × List Char)
  | 0, _, _ => none
  | fuel + 1, done, cs =>
    match parseValue fuel cs with
    | none => none
    | some (item, cs) =>
      match dropSpace cs with
      | ',' :: cs => parseItems fuel (item :: done) cs
      | ']' :: cs => some (.array (item :: done).reverse, cs)
      | _ => none

/-- The members of an object from one member on; those before it are in `done`, last
    first. -/
def parseMembers : (fuel : Nat) → (done : List (List Piece × Spelled)) → List Char →
    Option (Spelled × List Char)
  | 0, _, _ => none
  | fuel + 1, done, cs =>
    match dropSpace cs with
    | '"' :: cs =>
      match parsePieces [] cs with
      | none => none
      | some (name, cs) =>
        match dropSpace cs with
        | ':' :: cs =>
          match parseValue fuel cs with
          | none => none
          | some (item, cs) =>
            match dropSpace cs with
            | ',' :: cs => parseMembers fuel ((name, item) :: done) cs
            | '\x7d' :: cs => some (.object ((name, item) :: done).reverse, cs)
            | _ => none
        | _ => none
    | _ => none

end

/-- The document that a text is. Every two calls read a character at least, so twice
    the length is fuel enough. -/
def spelled? (s : String) : Option Spelled := do
  let cs := s.toList
  let (j, rest) ← parseValue (2 * cs.length + 2) cs
  if (dropSpace rest).isEmpty then return j else none

/-! ## Texts for strings -/

mutual

/-- The same document with its strings resolved, if all of them are texts. -/
def resolved? : Spelled → Option Document
  | .null => some .null
  | .bool b => some (.bool b)
  | .number token => some (.number token)
  | .string pieces => (resolve pieces).map .string
  | .array items => (resolvedItems? items).map .array
  | .object members => (resolvedMembers? members).map .object

def resolvedItems? : List Spelled → Option (List Document)
  | [] => some []
  | j :: items => do return (← resolved? j) :: (← resolvedItems? items)

def resolvedMembers? : List (List Piece × Spelled) → Option (List (String × Document))
  | [] => some []
  | (name, j) :: members => do
    return ((← resolve name), (← resolved? j)) :: (← resolvedMembers? members)

end

/-- The document that a text is, with texts for its strings. -/
def parse? (s : String) : Option Document := (spelled? s).bind resolved?

end ChainGuest.Json
