import ChainGuest.Cache.Join
import ChainGuest.Evm.Input
import ChainGuest.Evm.Record

/-! # The context of an EVM chain

    A context loads each collection of its host once, on first access, and computes
    each join once for each parent:

        block ──transactions──► transaction ──callTraces──► call trace
                                            └─events──────► event

    An access through a view loads the children before it asks for the join.
-/

namespace ChainGuest.Evm

structure Context where
  bridge : Bridge
  blocks : Once Block
  transactions : Once Transaction
  callTraces : Once CallTrace
  events : Once Event
  /-- By block, its transactions. -/
  blockTransactions : Relation
  /-- By transaction, its call traces. -/
  transactionCallTraces : Relation
  /-- By transaction, its events. -/
  transactionEvents : Relation

namespace Context

/-- A context over a host, with nothing loaded. -/
def new (host : Host) (config : Config) : Context where
  bridge := .new host config
  blocks := .empty
  transactions := .empty
  callTraces := .empty
  events := .empty
  blockTransactions := .empty
  transactionCallTraces := .empty
  transactionEvents := .empty

instance : HasBridge Context := ⟨⟨bridge, fun b c => { c with bridge := b }⟩⟩

/-! ## Collections -/

def loadBlocks : Action Context (List Block) :=
  loadCollection ⟨blocks, fun b c => { c with blocks := b }⟩ .blocks

def loadTransactions : Action Context (List Transaction) :=
  loadCollection ⟨transactions, fun t c => { c with transactions := t }⟩ .transactions

def loadCallTraces : Action Context (List CallTrace) :=
  loadCollection ⟨callTraces, fun t c => { c with callTraces := t }⟩ .callTraces

def loadEvents : Action Context (List Event) :=
  loadCollection ⟨events, fun e c => { c with events := e }⟩ .events

/-- The block that the context is about, which is the first one. -/
def block : Action Context (View Block) := firstView loadBlocks "blocks"

def blockViews : Action Context (List (View Block)) := allViews loadBlocks

def transactionViews : Action Context (List (View Transaction)) := allViews loadTransactions

/-! ## Joins -/

/-- A block has the transactions with its index. -/
def blockJoin : Join Context Block Transaction where
  parents := loadBlocks
  children := loadTransactions
  links := ⟨blockTransactions, fun r c => { c with blockTransactions := r }⟩
  title := "block transactions"
  key b := ("block_index", toString b.blockIndex.toNat)
  related b t := t.blockIndex == b.blockIndex

/-- A transaction has the call traces with its index in its block. -/
def callTraceJoin : Join Context Transaction CallTrace where
  parents := loadTransactions
  children := loadCallTraces
  links := ⟨transactionCallTraces, fun r c => { c with transactionCallTraces := r }⟩
  title := "transaction call traces"
  key t := ("tx_hash", t.txHash)
  related t trace := trace.blockIndex == t.blockIndex && trace.txIndex == t.txIndex

/-- A transaction has the events with its hash. -/
def eventJoin : Join Context Transaction Event where
  parents := loadTransactions
  children := loadEvents
  links := ⟨transactionEvents, fun r c => { c with transactionEvents := r }⟩
  title := "transaction events"
  key t := ("tx_hash", t.txHash)
  related t event := event.txHash == t.txHash

/-- The transactions of a block. -/
def transactionsOf (block : View Block) : Action Context (List (View Transaction)) :=
  blockJoin.views block

/-- The call traces of a transaction. -/
def callTracesOf (tx : View Transaction) : Action Context (List CallTrace) :=
  callTraceJoin.records tx

/-- The events of a transaction. -/
def eventsOf (tx : View Transaction) : Action Context (List Event) := eventJoin.records tx

/-- The values of a transaction's input by a signature. -/
def parseInputOf (tx : View Transaction) (abi : String) : Action Context (Option (List Value)) :=
  call ((Input.mk tx.record.input).parse abi)

end Context

end ChainGuest.Evm
