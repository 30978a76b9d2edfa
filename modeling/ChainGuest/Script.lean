import ChainGuest.Evm.Value
import ChainGuest.Record.Kind
import ChainGuest.Value

/-! # Reading scripts

    A script names readers one after another, and runs them on one cursor. A step
    that fails does not stop the script: the next step starts where the failing
    one left the cursor. Inside another step the first failing step is the answer,
    unless it was only attempted.
-/

namespace ChainGuest

open Wire

/-- A step of a script. -/
inductive ReadStep where
  | integer (kind : IntKind)
  | float
  | bool
  | nil
  | tryNil
  | peekNil
  | isEmpty
  | text
  | binary
  | byteList
  | arrayLength
  | mapLength
  | tag
  | value
  | evmValue
  | record (kind : RecordKind)
  | finish
  | checkTrailing
  | optional (step : ReadStep)
  | array (step : ReadStep)
  | nested (steps : List ReadStep)
  /-- Steps one after another, on the level where they stand. -/
  | all (steps : List ReadStep)
  /-- A step whose failure is an answer, so that what follows it goes on. -/
  | attempt (step : ReadStep)

/-- What a step answers. -/
inductive ReadAnswer where
  | unit
  | bool (b : Bool)
  | integer (n : Int)
  | count (n : Nat)
  | float (x : Binary64)
  | text (s : String)
  | bytes (b : List UInt8)
  | value (v : Value)
  | evmValue (v : Evm.Value)
  | record (kind : RecordKind) (r : kind.Carrier)
  | optional (answer : Option ReadAnswer)
  | list (answers : List ReadAnswer)

/-- What `r` reads, or nothing if it fails; the cursor is where `r` stopped. -/
def Wire.Reader.attempt {α : Type} (r : Reader α) : Reader (Option α) := fun c =>
  match r c with
  | (.ok a, c') => (.ok (some a), c')
  | (.error _, c') => (.ok none, c')

namespace ReadStep

mutual

/-- The reader that a step names. -/
def reader (config : Config) : ReadStep → Reader ReadAnswer
  | .integer kind => .integer <$> Reader.integer kind
  | .float => .float <$> Reader.float
  | .bool => .bool <$> Reader.bool
  | .nil => (fun _ => .unit) <$> Reader.nil
  | .tryNil => .bool <$> Reader.tryNil
  | .peekNil => .bool <$> Reader.peekNil
  | .isEmpty => .bool <$> Reader.isEmpty
  | .text => .text <$> Reader.text
  | .binary => .bytes <$> Reader.binary
  | .byteList => .bytes <$> Reader.byteList
  | .arrayLength => .count <$> Reader.arrayLength
  | .mapLength => .count <$> Reader.mapLength
  | .tag => .text <$> Reader.valueTag
  | .value => .value <$> Value.read config.maxValueDepth
  | .evmValue => .evmValue <$> Evm.Value.read config.maxValueDepth
  | .record kind => .record kind <$> Entity.read
  | .finish => (fun _ => .unit) <$> Reader.finish
  | .checkTrailing =>
    (fun _ => .unit) <$> Reader.checkTrailing config.rejectTrailing .value
  | .optional step => .optional <$> Reader.optional (reader config step)
  | .array step => .list <$> Reader.array (reader config step)
  | .nested steps => .list <$> Reader.nested config.maxValueDepth (readers config steps)
  | .all steps => .list <$> readers config steps
  | .attempt step => .optional <$> Reader.attempt (reader config step)

/-- The reader that runs steps until the first failure. -/
def readers (config : Config) : List ReadStep → Reader (List ReadAnswer)
  | [] => pure []
  | step :: steps => do
    let answer ← reader config step
    let answers ← readers config steps
    return answer :: answers

end

/-- Run steps one after another, whatever each answers; every answer stands with the
    cursor after it. -/
def run (config : Config) : List ReadStep → Cursor →
    List (Except DecodeError ReadAnswer × Cursor)
  | [], _ => []
  | step :: steps, c =>
    let (answer, c') := reader config step c
    (answer, c') :: run config steps c'

end ReadStep

end ChainGuest
