import ChainGuest.Json.Basic
import ChainGuest.Number.Text
import ChainGuest.Text.Base64

/-! # Incidents

    What a guest reports to its host: a severity, a message, where it happened, and
    data, which is a tree of named fields or raw bytes. The host takes one JSON
    object whose members stand in a fixed order.
-/

namespace ChainGuest

inductive Severity where
  | info
  | warning
  | error
  | alert
  deriving DecidableEq

namespace Severity

/-- Every severity, the mildest first. -/
def all : List Severity := [.info, .warning, .error, .alert]

def name : Severity → String
  | .info => "info"
  | .warning => "warning"
  | .error => "error"
  | .alert => "alert"

/-- The severity of this name. -/
def ofName? (name : String) : Option Severity := all.find? (·.name == name)

/-- The place of a severity among all. -/
def rank (s : Severity) : Nat := all.idxOf s

/-- Severities compare by how serious they are. -/
def compare (a b : Severity) : Ordering := Ord.compare a.rank b.rank

end Severity

/-! ## Data -/

/-- One piece of an incident's data. -/
inductive Datum where
  | null
  | number (x : Binary64)
  | text (s : String)
  | boolean (b : Bool)
  | struct (fields : List (String × Datum))
  | list (items : List Datum)

/-- Named pieces of data, in the order they were added. -/
abbrev DataFields : Type := List (String × Datum)

namespace DataFields

/-- The value of the field of this name. -/
def get? (fields : DataFields) (name : String) : Option Datum := fields.lookup name

/-- Add a field at the end, unless its name is taken; and whether it was added. -/
def add (fields : DataFields) (name : String) (value : Datum) : Bool × DataFields :=
  match fields.get? name with
  | some _ => (false, fields)
  | none => (true, fields ++ [(name, value)])

/-! ### Fields by what they hold -/

def addNull (fields : DataFields) (name : String) : Bool × DataFields := fields.add name .null

def addNumber (fields : DataFields) (name : String) (x : Binary64) : Bool × DataFields :=
  fields.add name (.number x)

def addText (fields : DataFields) (name text : String) : Bool × DataFields :=
  fields.add name (.text text)

def addBoolean (fields : DataFields) (name : String) (b : Bool) : Bool × DataFields :=
  fields.add name (.boolean b)

def addStruct (fields : DataFields) (name : String) (tree : DataFields) : Bool × DataFields :=
  fields.add name (.struct tree)

def addList (fields : DataFields) (name : String) (items : List Datum) : Bool × DataFields :=
  fields.add name (.list items)

end DataFields

namespace Datum

/-- The token of a number: one that is not finite has none and is null. -/
def numberDocument (x : Binary64) : Document :=
  if x.isFinite then .number (NumberStyle.exactIntegers.text x) else .null

mutual

/-- A piece of data in JSON. -/
def document : Datum → Document
  | .null => .null
  | .number x => numberDocument x
  | .text s => .string s
  | .boolean b => .bool b
  | .struct fields => .object (fieldDocuments fields)
  | .list items => .array (itemDocuments items)

def itemDocuments : List Datum → List Document
  | [] => []
  | d :: items => document d :: itemDocuments items

def fieldDocuments : List (String × Datum) → List (String × Document)
  | [] => []
  | (name, d) :: fields => (name, document d) :: fieldDocuments fields

end

end Datum

/-- Fields as a JSON text. -/
def DataFields.toJson (fields : DataFields) : String := (Datum.struct fields).document.render

/-! ## Incidents -/

/-- What an incident carries. -/
inductive IncidentData where
  | fields (tree : DataFields)
  | payload (bytes : List UInt8)

def IncidentData.document : IncidentData → Document
  | .fields tree => (Datum.struct tree).document
  | .payload bytes => .string (Base64.encode bytes)

structure Incident where
  severity : Severity
  message : String
  address : String
  txHash : String
  data : Option IncidentData

namespace Incident

/-- An incident with a message only. -/
def new (severity : Severity) (message : String) : Incident := ⟨severity, message, "", "", none⟩

def withAddress (address : String) (i : Incident) : Incident := { i with address := address }

def withTxHash (txHash : String) (i : Incident) : Incident := { i with txHash := txHash }

def withFields (fields : DataFields) (i : Incident) : Incident :=
  { i with data := some (.fields fields) }

def withPayload (bytes : List UInt8) (i : Incident) : Incident :=
  { i with data := some (.payload bytes) }

/-- A member, unless its text is empty. -/
def optionalMember (name text : String) : List (String × Document) :=
  if text.isEmpty then [] else [(name, .string text)]

/-- An incident in JSON. -/
def document (i : Incident) : Document :=
  .object <|
    [("severity", .string i.severity.name), ("message", .string i.message)] ++
    optionalMember "address" i.address ++
    optionalMember "tx_hash" i.txHash ++
    (i.data.map fun data => ("data", data.document)).toList

/-- An incident as the text that the host takes. -/
def toJson (i : Incident) : String := i.document.render

end Incident

end ChainGuest
