import ChainGuest.Text.Blank

/-! # Configuration

    How much nesting a value may have, and whether bytes left after a buffer's
    content are refused. Both can be set from the environment; what the
    environment does not say, or says wrongly, keeps its default.
-/

namespace ChainGuest

structure Config where
  /-- Containers that may enclose one another in a value. -/
  maxValueDepth : Nat
  /-- Whether bytes left after a buffer's content are an error. -/
  rejectTrailing : Bool
  deriving DecidableEq

namespace Config

/-- 64 levels, and bytes left over are noticed only. -/
def default : Config := ⟨64, false⟩

/-- A word of 64 bits in decimal: digits, after at most one plus sign. -/
def parseWord? (cs : List Char) : Option Nat :=
  let digits := match cs with
    | '+' :: rest => rest
    | _ => cs
  if digits.isEmpty || !digits.all Char.isDigit then none
  else
    let n := digits.foldl (fun n c => n * 10 + (c.toNat - '0'.toNat)) 0
    if n < UInt64.size then some n else none

/-- The depth that a text sets: a word, with blanks around it. -/
def depthOf (text : Option String) : Nat :=
  (text.bind fun s => parseWord? (trimBlank s.toList)).getD default.maxValueDepth

/-- The texts that turn a switch on, in lower case. -/
def affirmations : List String := ["1", "true", "yes", "on"]

/-- Whether a text turns the rejection on: letters may be in either case, blanks
    are not dropped. No letter beyond ASCII lowers to a letter of these texts. -/
def rejectOf (text : Option String) : Bool :=
  match text with
  | some s => affirmations.contains (s.map Char.toLower)
  | none => default.rejectTrailing

/-- The configuration that the environment asks for. -/
def ofEnvironment (depth reject : Option String) : Config := ⟨depthOf depth, rejectOf reject⟩

end Config

end ChainGuest
