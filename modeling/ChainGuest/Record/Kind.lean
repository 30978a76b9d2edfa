import ChainGuest.Aptos.Record
import ChainGuest.Evm.Record
import ChainGuest.Move.Record
import ChainGuest.Sui.Record

/-! # Kinds of records

    The twelve kinds of records that a host can serve, by chain.
-/

namespace ChainGuest

inductive RecordKind where
  | evmBlock
  | evmTransaction
  | evmCallTrace
  | evmEvent
  | suiTransaction
  | suiEvent
  | aptosBlock
  | aptosTransaction
  | aptosEvent
  | moveCallTrace
  | moveTypeArg
  | moveArg
  deriving DecidableEq

namespace RecordKind

/-- The kind's name, behind its chain. -/
def name : RecordKind → String
  | .evmBlock => "evm.Block"
  | .evmTransaction => "evm.Transaction"
  | .evmCallTrace => "evm.CallTrace"
  | .evmEvent => "evm.Event"
  | .suiTransaction => "sui.Transaction"
  | .suiEvent => "sui.Event"
  | .aptosBlock => "aptos.Block"
  | .aptosTransaction => "aptos.Transaction"
  | .aptosEvent => "aptos.Event"
  | .moveCallTrace => "move.CallTrace"
  | .moveTypeArg => "move.CallTraceTypeArg"
  | .moveArg => "move.CallTraceArg"

def all : List RecordKind :=
  [.evmBlock, .evmTransaction, .evmCallTrace, .evmEvent, .suiTransaction, .suiEvent, .aptosBlock,
   .aptosTransaction, .aptosEvent, .moveCallTrace, .moveTypeArg, .moveArg]

/-- The kind of this name. -/
def ofName? (name : String) : Option RecordKind := all.find? (·.name == name)

/-- The records of a kind. -/
abbrev Carrier : RecordKind → Type
  | .evmBlock => Evm.Block
  | .evmTransaction => Evm.Transaction
  | .evmCallTrace => Evm.CallTrace
  | .evmEvent => Evm.Event
  | .suiTransaction => Sui.Transaction
  | .suiEvent => Sui.Event
  | .aptosBlock => Aptos.Block
  | .aptosTransaction => Aptos.Transaction
  | .aptosEvent => Aptos.Event
  | .moveCallTrace => Move.CallTrace
  | .moveTypeArg => Move.TypeArg
  | .moveArg => Move.Arg

instance (k : RecordKind) : Entity k.Carrier :=
  match k with
  | .evmBlock => inferInstanceAs (Entity Evm.Block)
  | .evmTransaction => inferInstanceAs (Entity Evm.Transaction)
  | .evmCallTrace => inferInstanceAs (Entity Evm.CallTrace)
  | .evmEvent => inferInstanceAs (Entity Evm.Event)
  | .suiTransaction => inferInstanceAs (Entity Sui.Transaction)
  | .suiEvent => inferInstanceAs (Entity Sui.Event)
  | .aptosBlock => inferInstanceAs (Entity Aptos.Block)
  | .aptosTransaction => inferInstanceAs (Entity Aptos.Transaction)
  | .aptosEvent => inferInstanceAs (Entity Aptos.Event)
  | .moveCallTrace => inferInstanceAs (Entity Move.CallTrace)
  | .moveTypeArg => inferInstanceAs (Entity Move.TypeArg)
  | .moveArg => inferInstanceAs (Entity Move.Arg)

end RecordKind

end ChainGuest
