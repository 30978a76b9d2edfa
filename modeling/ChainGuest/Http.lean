import ChainGuest.Failure
import ChainGuest.Json.Number

/-! # HTTP through the host

    A guest opens no connections. It writes a request as a JSON object, the host
    makes the call, and its answer is read from JSON again.
-/

namespace ChainGuest.Http

open Json

/-! ## Requests -/

inductive Method where
  | post
  | get
  | put
  | patch
  | delete
  deriving DecidableEq

namespace Method

def all : List Method := [.post, .get, .put, .patch, .delete]

def name : Method → String
  | .post => "POST"
  | .get => "GET"
  | .put => "PUT"
  | .patch => "PATCH"
  | .delete => "DELETE"

/-- The method of this name. -/
def ofName? (name : String) : Option Method := all.find? (·.name == name)

end Method

structure Request where
  method : Method
  url : String
  /-- Names and values, in order; a name may stand more than once. -/
  headers : List (String × String)
  body : Option String
  deriving DecidableEq

namespace Request

/-- A request without headers and body. -/
def new (method : Method) (url : String) : Request := ⟨method, url, [], none⟩

def get (url : String) : Request := new .get url

def withBody (body : String) (r : Request) : Request := { r with body := some body }

def withHeader (name value : String) (r : Request) : Request :=
  { r with headers := r.headers ++ [(name, value)] }

def post (url body : String) : Request := (new .post url).withBody body

/-- A request in JSON. -/
def document (r : Request) : Document :=
  .object <|
    [("method", .string r.method.name), ("url", .string r.url)] ++
    (r.body.map fun body => ("body", Json.string body)).toList ++
    [("headers", .object (r.headers.map fun (name, value) => (name, .string value)))]

/-- A request as the text that the host takes. -/
def toJson (r : Request) : String := r.document.render

end Request

/-! ## Responses -/

structure Response where
  status : UInt16
  error : Option String
  /-- One value for each name, in the order of the names. -/
  headers : List (String × String)
  body : Option (List UInt8)
  deriving DecidableEq

namespace Response

/-- An integer below a bound. -/
def natural? (bound : Nat) : Spelled → Option Nat
  | .number token =>
    match Number.ofToken? token with
    | some (.natural n) => if n.toNat < bound then some n.toNat else none
    | _ => none
  | _ => none

def status? (j : Spelled) : Option UInt16 := (natural? UInt16.size j).map UInt16.ofNat

def text? : Spelled → Option String
  | .string pieces => resolve pieces
  | _ => none

/-- A text, or null for none. -/
def error? : Spelled → Option (Option String)
  | .null => some none
  | j => (text? j).map some

/-- An object of texts; of values with one name the last counts. -/
def headers? : Spelled → Option (List (String × String))
  | .object members => members.foldlM (fun headers (name, value) => do
      return insertMember (← resolve name) (← text? value) headers) []
  | _ => none

/-- An array of bytes, or null for none. -/
def body? : Spelled → Option (Option (List UInt8))
  | .null => some none
  | .array items => (items.mapM fun j => (natural? 256 j).map UInt8.ofNat).map some
  | _ => none

/-- What `read` makes of a member, or `default` if there is none; a member must not stand
    twice. -/
def member? {α : Type} (members : List (String × Spelled)) (name : String)
    (default : Option α) (read : Spelled → Option α) : Option α :=
  match members.filter (·.1 == name) with
  | [] => default
  | [(_, j)] => read j
  | _ => none

/-- What `read` makes of an item, or `default` if there is none. -/
def item? {α : Type} (items : List Spelled) (index : Nat)
    (default : Option α) (read : Spelled → Option α) : Option α :=
  match items[index]? with
  | some j => read j
  | none => default

/-- A response is an object, of which other members are not looked at, or an array of its
    four parts in order. All but the status may be left out. -/
def ofSpelled? : Spelled → Option Response
  | .object members => do
    let members ← members.mapM fun (name, j) => (resolve name).map (·, j)
    return {
      status := ← member? members "status" none status?
      error := ← member? members "error" (some none) error?
      headers := ← member? members "headers" (some []) headers?
      body := ← member? members "body" (some none) body? }
  | .array items => do
    if 4 < items.length then none
    return {
      status := ← item? items 0 none status?
      error := ← item? items 1 (some none) error?
      headers := ← item? items 2 (some []) headers?
      body := ← item? items 3 (some none) body? }
  | _ => none

/-- The response that the host's answer spells. -/
def ofJson (s : String) : Except Failure Response :=
  match (spelled? s).bind ofSpelled? with
  | some r => .ok r
  | none => .error ((Failure.of .json).within "Failed to parse HTTP response from host")

/-- No error, and a status from 200 to 299. -/
def isSuccess (r : Response) : Bool :=
  r.error.isNone && 200 ≤ r.status && r.status < 300

/-- Names that are equal but for the case of ASCII letters. -/
def sameName (a b : String) : Bool := a.map Char.toLower == b.map Char.toLower

/-- The value of the first header of this name, in either case. -/
def header? (r : Response) (name : String) : Option String :=
  (r.headers.find? fun (key, _) => sameName key name).map (·.2)

/-- The body, if it is a text. -/
def text (r : Response) : Option String := r.body.bind Utf8.decode?

/-- The body, if it is a JSON text. -/
def json (r : Response) : Except Failure Document :=
  match r.body with
  | none => .error (.of (.plain "HTTP response has no body"))
  | some bytes =>
    match (Utf8.decode? bytes).bind normalOf? with
    | some j => .ok j
    | none => .error ((Failure.of .json).within "Failed to parse HTTP response body as JSON")

end Response

end ChainGuest.Http
