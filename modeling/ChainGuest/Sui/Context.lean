import ChainGuest.Move.Traces
import ChainGuest.Sui.Record

/-! # The context of Sui

    A context loads each collection of its host once, on first access, and computes
    each join once for each parent:

        transaction ──callTraces──► call trace
                    └─events──────► event
-/

namespace ChainGuest.Sui

structure Context where
  bridge : Bridge
  transactions : Once Transaction
  events : Once Event
  traces : Move.Traces
  /-- By transaction, its events. -/
  transactionEvents : Relation
  /-- By transaction, its call traces. -/
  transactionCallTraces : Relation

namespace Context

/-- A context over a host, with nothing loaded. -/
def new (host : Host) (config : Config) : Context where
  bridge := .new host config
  transactions := .empty
  events := .empty
  traces := .empty
  transactionEvents := .empty
  transactionCallTraces := .empty

instance : Move.HasTraces Context where
  bridge := ⟨bridge, fun b c => { c with bridge := b }⟩
  traces := ⟨traces, fun t c => { c with traces := t }⟩

/-! ## Collections -/

def loadTransactions : Action Context (List Transaction) :=
  loadCollection ⟨transactions, fun t c => { c with transactions := t }⟩ .transactions

def loadEvents : Action Context (List Event) :=
  loadCollection ⟨events, fun e c => { c with events := e }⟩ .events

/-- The transaction that the context is about, which is the first one. -/
def transaction : Action Context (View Transaction) := firstView loadTransactions "transactions"

def transactionViews : Action Context (List (View Transaction)) := allViews loadTransactions

/-! ## Joins -/

/-- A transaction has the events with its sequence number. -/
def eventJoin : Join Context Transaction Event where
  parents := loadTransactions
  children := loadEvents
  links := ⟨transactionEvents, fun r c => { c with transactionEvents := r }⟩
  title := "transaction events"
  key t := ("tx_seq", toString t.seq.toNat)
  related t event := event.txSeq == t.seq

/-- A transaction has the call traces with its sequence number. -/
def callTraceJoin : Join Context Transaction Move.CallTrace where
  parents := loadTransactions
  children := Move.loadCallTraces
  links := ⟨transactionCallTraces, fun r c => { c with transactionCallTraces := r }⟩
  title := "transaction call traces"
  key t := ("tx_seq", toString t.seq.toNat)
  related t trace := trace.txSeq == t.seq

/-- The events of a transaction. -/
def eventsOf (tx : View Transaction) : Action Context (List Event) := eventJoin.records tx

/-- The call traces of a transaction. -/
def callTracesOf (tx : View Transaction) : Action Context (List (View Move.CallTrace)) :=
  callTraceJoin.viewsByIndex tx

end Context

end ChainGuest.Sui
