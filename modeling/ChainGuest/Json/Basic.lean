/-! # JSON documents

    A document keeps what its text says: members in their order and with their
    repetitions, and numbers as their tokens. `T` is what stands for strings.
-/

namespace ChainGuest

inductive Json (T : Type) where
  | null
  | bool (b : Bool)
  | number (token : List Char)
  | string (s : T)
  | array (items : List (Json T))
  | object (members : List (T × Json T))

/-- A document whose strings are texts. -/
abbrev Document : Type := Json String

namespace Json

/-! ## Writing -/

/-- The two lowercase hex digits of a character below 256. -/
def hexDigits (c : Char) : List Char :=
  [Nat.digitChar (c.toNat / 16), Nat.digitChar (c.toNat % 16)]

/-- A character within quotes: quotes, backslashes and control characters are escaped,
    and nothing else is. -/
def escape (c : Char) : List Char :=
  if c = '"' then ['\\', '"']
  else if c = '\\' then ['\\', '\\']
  else if c = '\x08' then ['\\', 'b']
  else if c = '\x0c' then ['\\', 'f']
  else if c = '\n' then ['\\', 'n']
  else if c = '\r' then ['\\', 'r']
  else if c = '\t' then ['\\', 't']
  else if c.toNat < 0x20 then ['\\', 'u', '0', '0'] ++ hexDigits c
  else [c]

/-- A text within quotes. -/
def quote (s : String) : List Char := '"' :: s.toList.flatMap escape ++ ['"']

mutual

/-- The text of a document, without blanks. -/
def chars : Document → List Char
  | .null => ['n', 'u', 'l', 'l']
  | .bool true => ['t', 'r', 'u', 'e']
  | .bool false => ['f', 'a', 'l', 's', 'e']
  | .number token => token
  | .string s => quote s
  | .array items => '[' :: itemChars items ++ [']']
  | .object members => '\x7b' :: memberChars members ++ ['\x7d']

/-- Items, with commas between them. -/
def itemChars : List Document → List Char
  | [] => []
  | [j] => chars j
  | j :: items => chars j ++ ',' :: itemChars items

/-- Members, with commas between them. -/
def memberChars : List (String × Document) → List Char
  | [] => []
  | [(name, j)] => quote name ++ ':' :: chars j
  | (name, j) :: members => quote name ++ ':' :: chars j ++ ',' :: memberChars members

end

/-- The text of a document, without blanks. -/
def render (j : Document) : String := String.ofList (chars j)

end Json

end ChainGuest
