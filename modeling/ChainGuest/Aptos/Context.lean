import ChainGuest.Aptos.Record
import ChainGuest.Move.Traces

/-! # The context of Aptos

    A context loads each collection of its host once, on first access, and computes
    each join once for each parent:

        block ──transactions──► transaction ──callTraces──► call trace
                                            └─events──────► event
-/

namespace ChainGuest.Aptos

structure Context where
  bridge : Bridge
  blocks : Once Block
  transactions : Once Transaction
  events : Once Event
  traces : Move.Traces
  /-- By block, its transactions. -/
  blockTransactions : Relation
  /-- By transaction, its events. -/
  transactionEvents : Relation
  /-- By transaction, its call traces. -/
  transactionCallTraces : Relation

namespace Context

/-- A context over a host, with nothing loaded. -/
def new (host : Host) (config : Config) : Context where
  bridge := .new host config
  blocks := .empty
  transactions := .empty
  events := .empty
  traces := .empty
  blockTransactions := .empty
  transactionEvents := .empty
  transactionCallTraces := .empty

instance : Move.HasTraces Context where
  bridge := ⟨bridge, fun b c => { c with bridge := b }⟩
  traces := ⟨traces, fun t c => { c with traces := t }⟩

/-! ## Collections -/

def loadBlocks : Action Context (List Block) :=
  loadCollection ⟨blocks, fun b c => { c with blocks := b }⟩ .blocks

def loadTransactions : Action Context (List Transaction) :=
  loadCollection ⟨transactions, fun t c => { c with transactions := t }⟩ .transactions

def loadEvents : Action Context (List Event) :=
  loadCollection ⟨events, fun e c => { c with events := e }⟩ .events

/-- The block that the context is about, which is the first one. -/
def block : Action Context (View Block) := firstView loadBlocks "blocks"

def transactionViews : Action Context (List (View Transaction)) := allViews loadTransactions

/-! ## Joins -/

/-- A block has the transactions with its hash. -/
def blockJoin : Join Context Block Transaction where
  parents := loadBlocks
  children := loadTransactions
  links := ⟨blockTransactions, fun r c => { c with blockTransactions := r }⟩
  title := "block transactions"
  key b := ("block_hash", b.hash)
  related b t := t.blockHash == b.hash

/-- A transaction has the events with its sequence number. -/
def eventJoin : Join Context Transaction Event where
  parents := loadTransactions
  children := loadEvents
  links := ⟨transactionEvents, fun r c => { c with transactionEvents := r }⟩
  title := "transaction events"
  key t := ("tx_seq", toString t.seq.toNat)
  related t event := event.txSeq == t.seq

/-- A transaction has the call traces with its sequence number. -/
def callTraceJoin : Join Context Transaction Move.CallTrace where
  parents := loadTransactions
  children := Move.loadCallTraces
  links := ⟨transactionCallTraces, fun r c => { c with transactionCallTraces := r }⟩
  title := "transaction call traces"
  key t := ("tx_seq", toString t.seq.toNat)
  related t trace := trace.txSeq == t.seq

/-- The transactions of a block. -/
def transactionsOf (block : View Block) : Action Context (List (View Transaction)) :=
  blockJoin.views block

/-- The events of a transaction. -/
def eventsOf (tx : View Transaction) : Action Context (List Event) := eventJoin.records tx

/-- The call traces of a transaction. -/
def callTracesOf (tx : View Transaction) : Action Context (List (View Move.CallTrace)) :=
  callTraceJoin.viewsByIndex tx

end Context

end ChainGuest.Aptos
