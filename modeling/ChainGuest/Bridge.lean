import ChainGuest.Host.Basic
import ChainGuest.Http
import ChainGuest.Incident
import ChainGuest.Log
import ChainGuest.Metrics
import ChainGuest.Parameter
import ChainGuest.Record.Schema

/-! # The bridge

    A bridge stands between the guest and its host. It turns handles into bytes,
    bytes into records and values, and requests into texts; it counts what it asks
    for and logs what it does. Each call is made once, and a call that fails says
    what it was about.
-/

namespace ChainGuest

structure Bridge where
  host : Host
  config : Config
  metrics : Metrics
  log : List LogEntry

namespace Bridge

/-- A bridge over a host, with nothing asked yet. -/
def new (host : Host) (config : Config) : Bridge := ⟨host, config, .zero, []⟩

/-- A call through a bridge. -/
abbrev Call (α : Type) : Type := Attempt Bridge Failure α

/-! ## Steps of calls -/

/-- Log entries. -/
def note {ε : Type} (entries : List LogEntry) : Attempt Bridge ε Unit :=
  Attempt.modify fun b => { b with log := b.log ++ entries }

/-- A call begins. -/
def enter (name : String) (fields : List (String × String)) : Call Unit :=
  note [.span name fields]

def debug (message : String) (fields : List (String × String)) : Call Unit :=
  note [.event .debug message fields]

/-- Count something. -/
def count {ε : Type} (f : Metrics → Metrics) : Attempt Bridge ε Unit :=
  Attempt.modify fun b => { b with metrics := f b.metrics }

/-- Ask the host. -/
def ask {ε α : Type} (f : Host → α × Host) : Attempt Bridge ε α :=
  Attempt.update fun b =>
    let (a, host) := f b.host
    (a, { b with host := host })

/-- The bytes that a handle names. Only bytes that were read are counted. -/
def readBuffer (handle : Handle) : Attempt Bridge HostError (List UInt8) := do
  let b ← Attempt.get
  let bytes ← Attempt.ofExcept (b.host.readMemory handle.offset handle.length)
  count (·.countBytes bytes.length)
  return bytes

/-- The bytes that a handle names, for a call that says what they are for. -/
def readFor (handle : Handle) (purpose : String) : Call (List UInt8) :=
  (readBuffer handle).mapError fun e => (Failure.of (.host e)).within purpose

/-- What the bytes of a buffer decode to, for a call that says what it is doing. Notices
    go to the log. -/
def decodeFor {α : Type} (decoded : Except Wire.DecodeError α × List Wire.Leftover)
    (purpose : String) : Call α := do
  note (decoded.2.map (·.entry))
  Attempt.ofExcept (decoded.1.mapError fun e => (Failure.of (.decode e)).within purpose)

/-! ## Calls -/

/-- The records of a collection. An empty buffer is an empty collection. -/
def fetchCollection {α : Type} [Entity α] (kind : CollectionKind) : Call (List α) := do
  enter "fetch_collection" [("kind", kind.name)]
  count (·.countFetch kind)
  let handle ← ask (·.fetchCollection kind)
  let bytes ← readFor handle s!"Failed to read {kind.title} buffer"
  if bytes.isEmpty then
    debug "host returned an empty buffer" [("kind", kind.title)]
    return []
  else
    let config := (← Attempt.get).config
    let records ← decodeFor (decodeCollection config bytes) s!"Failed to decode {kind.title}"
    debug "loaded collection"
      [("kind", kind.title), ("bytes", toString bytes.length),
       ("records", toString records.length)]
    return records

/-- The value of an argument. -/
def fetchArgumentValue (id : UInt64) : Call Value := do
  enter "fetch_argument_value" [("id", toString id.toNat)]
  count (·.countArgument)
  let handle ← ask (·.fetchArgumentValue id)
  let bytes ← readFor handle s!"Failed to read value buffer for argument {id.toNat}"
  let config := (← Attempt.get).config
  decodeFor (Value.ofBytes config bytes) s!"Failed to decode value of argument {id.toNat}"

/-- The bytes of an input's values, parsed by a signature; none if it does not match. -/
def parseInput (abi : String) (data : List UInt8) : Call (Option (List UInt8)) := do
  enter "parse_input" [("abi", abi), ("len", toString data.length)]
  let handle ← ask (·.parseInput abi (Base64.encode data))
  if handle.isNull then
    debug "input does not match signature" []
    return none
  else
    return some (← readFor handle ("Failed to read parsed input for '" ++ abi ++ "'"))

/-- Hand an incident to the host. -/
def report (incident : Incident) : Call Unit := do
  enter "report" [("severity", incident.severity.name)]
  ask fun h => ((), h.emitIncident incident.toJson)
  count (·.countIncident)

/-- The parameter of a key. -/
def parameter (key : String) : Call Parameter := do
  enter "parameter" [("key", key)]
  count (·.countOutbound)
  match (← Attempt.get).host.parameter key with
  | some value => return ⟨key, value⟩
  | none => Attempt.fail (.of (.host (.missingParameter key)))

/-- The response to a request. -/
def http (request : Http.Request) : Call Http.Response := do
  enter "http" [("method", request.method.name), ("url", request.url)]
  count (·.countOutbound)
  let response ← ask (·.http request.toJson)
  Attempt.ofExcept (Http.Response.ofJson response)

/-- The rows of a query. -/
def query (query : String) : Call (List Document) := do
  enter "query" [("query", query)]
  count (·.countOutbound)
  let rows ← ask (·.query query)
  match Json.rowsOf? rows with
  | some rows => return rows
  | none => Attempt.fail ((Failure.of .json).within "Failed to parse query result rows")

/-! ## The bridge as a value -/

/-- A bridge printed in code: its configuration and its counters. -/
def debugText (b : Bridge) : String :=
  let config := "SdkConfig \x7b max_value_depth: " ++ toString b.config.maxValueDepth ++
    ", reject_trailing_bytes: " ++ toString b.config.rejectTrailing ++ " \x7d"
  "HostBridge \x7b config: " ++ config ++ ", metrics: " ++ b.metrics.debugText ++ ", .. \x7d"

end Bridge

/-- A state that holds a bridge. -/
class HasBridge (σ : Type) where
  bridge : Part σ Bridge

/-- An action over a state that may fail with a story. -/
abbrev Action (σ α : Type) : Type := Attempt σ Failure α

/-- Make a call from a state that holds a bridge. -/
def call {σ α : Type} [HasBridge σ] (x : Bridge.Call α) : Action σ α :=
  HasBridge.bridge.run x

/-- Tell that a join is being computed, and for which key. -/
def noteJoin {σ : Type} [HasBridge σ] (join key value : String) : Action σ Unit :=
  call (Bridge.note [.event .trace ("joining " ++ join) [(key, value)]])

end ChainGuest
