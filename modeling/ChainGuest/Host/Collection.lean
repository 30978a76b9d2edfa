/-! # Collections

    The collections of records that a host can serve. Not every chain has every
    one: EVM chains have no arguments of calls, and Sui has no blocks.
-/

namespace ChainGuest

inductive CollectionKind where
  | blocks
  | transactions
  | events
  | callTraces
  | callTraceArgs
  | callTraceTypeArgs
  deriving DecidableEq

namespace CollectionKind

/-- Every kind, in order. -/
def all : List CollectionKind :=
  [.blocks, .transactions, .events, .callTraces, .callTraceArgs, .callTraceTypeArgs]

/-- The place of a kind in the order. -/
def index (k : CollectionKind) : Nat := all.idxOf k

/-- The kind's name in code. -/
def name : CollectionKind → String
  | .blocks => "Blocks"
  | .transactions => "Transactions"
  | .events => "Events"
  | .callTraces => "CallTraces"
  | .callTraceArgs => "CallTraceArgs"
  | .callTraceTypeArgs => "CallTraceTypeArgs"

/-- The kind of this name. -/
def ofName? (name : String) : Option CollectionKind := all.find? (·.name == name)

/-- The kind's name in messages. -/
def title : CollectionKind → String
  | .blocks => "blocks"
  | .transactions => "transactions"
  | .events => "events"
  | .callTraces => "call traces"
  | .callTraceArgs => "call trace args"
  | .callTraceTypeArgs => "call trace type args"

/-- The name of the host's function that serves the kind. -/
def importName : CollectionKind → String
  | .blocks => "get_blocks"
  | .transactions => "get_transactions"
  | .events => "get_events"
  | .callTraces => "get_call_traces"
  | .callTraceArgs => "get_call_trace_args"
  | .callTraceTypeArgs => "get_call_trace_type_args"

end CollectionKind

end ChainGuest
