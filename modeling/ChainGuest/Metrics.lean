import ChainGuest.Host.Collection
import ChainGuest.Json.Basic

/-! # Metrics

    How often a bridge asked its host, and for how many bytes. Counters are 64-bit
    words and start again at zero when they run over.
-/

namespace ChainGuest

structure Metrics where
  /-- Fetches of each collection, whether they succeeded or not. -/
  fetches : CollectionKind → UInt64
  argumentFetches : UInt64
  bytesRead : UInt64
  incidents : UInt64
  /-- Parameters, HTTP requests and queries. -/
  outboundCalls : UInt64

namespace Metrics

/-- Nothing counted yet. -/
def zero : Metrics := ⟨fun _ => 0, 0, 0, 0, 0⟩

/-! ## Counting -/

def countFetch (kind : CollectionKind) (m : Metrics) : Metrics :=
  { m with fetches := fun k => if k = kind then m.fetches k + 1 else m.fetches k }

def countArgument (m : Metrics) : Metrics := { m with argumentFetches := m.argumentFetches + 1 }

def countBytes (count : Nat) (m : Metrics) : Metrics :=
  { m with bytesRead := m.bytesRead + UInt64.ofNat count }

def countIncident (m : Metrics) : Metrics := { m with incidents := m.incidents + 1 }

def countOutbound (m : Metrics) : Metrics := { m with outboundCalls := m.outboundCalls + 1 }

/-- Fetches of all collections together. -/
def totalFetches (m : Metrics) : UInt64 :=
  CollectionKind.all.foldl (fun total kind => total + m.fetches kind) 0

/-! ## Reporting -/

/-- The counters with their names, in the order they are told. -/
def counters (m : Metrics) : List (String × UInt64) :=
  [("block_fetches", m.fetches .blocks),
   ("transaction_fetches", m.fetches .transactions),
   ("event_fetches", m.fetches .events),
   ("call_trace_fetches", m.fetches .callTraces),
   ("call_trace_arg_fetches", m.fetches .callTraceArgs),
   ("call_trace_type_arg_fetches", m.fetches .callTraceTypeArgs),
   ("argument_fetches", m.argumentFetches),
   ("bytes_read", m.bytesRead),
   ("incidents_reported", m.incidents),
   ("outbound_calls", m.outboundCalls)]

/-- The counters as a JSON object. -/
def document (m : Metrics) : Document :=
  .object (m.counters.map fun (name, n) => (name, .number (Nat.toDigits 10 n.toNat)))

/-- The counters as a JSON text. -/
def toJson (m : Metrics) : String := m.document.render

/-- The counters as a value printed in code. -/
def debugText (m : Metrics) : String :=
  let fields := m.counters.map fun (name, n) => name ++ ": " ++ toString n.toNat
  "MetricsSnapshot \x7b " ++ ", ".intercalate fields ++ " \x7d"

/-- The counters as lines for a reader. -/
def report (m : Metrics) : String :=
  let line (label : String) (n : UInt64) : String := label ++ toString n.toNat
  "\n".intercalate
    ["Host Bridge Report",
     String.ofList (List.replicate 40 '='),
     "Collection Fetches:",
     line "  Blocks:          " (m.fetches .blocks),
     line "  Transactions:    " (m.fetches .transactions),
     line "  Events:          " (m.fetches .events),
     line "  Call Traces:     " (m.fetches .callTraces),
     line "  Trace Args:      " (m.fetches .callTraceArgs),
     line "  Trace Type Args: " (m.fetches .callTraceTypeArgs),
     "",
     line "Argument Values:   " m.argumentFetches,
     line "Bytes Read:        " m.bytesRead,
     line "Incidents:         " m.incidents,
     line "Outbound Calls:    " m.outboundCalls]

end Metrics

end ChainGuest
