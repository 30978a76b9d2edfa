import ChainGuest.Cache.Join
import ChainGuest.Move.Record

/-! # Move calls of a context

    The call traces of a context with their arguments and type arguments, which every
    chain that runs Move shares:

        call trace ──args──────► argument ──value──► value
                   └─typeArgs──► type argument

    Values are no part of the collections: each is fetched when it is first asked
    for, and kept by the position of its argument.
-/

namespace ChainGuest.Move

/-- What a context has loaded of its Move calls. -/
structure Traces where
  callTraces : Once CallTrace
  typeArgs : Once TypeArg
  args : Once Arg
  /-- By call trace, its type arguments. -/
  typeArgLinks : Relation
  /-- By call trace, its arguments. -/
  argLinks : Relation
  /-- By argument, its value. -/
  argValues : Memo ChainGuest.Value

/-- Nothing loaded. -/
def Traces.empty : Traces := ⟨.empty, .empty, .empty, .empty, .empty, .empty⟩

/-- A state that holds a bridge and the Move calls loaded through it. -/
class HasTraces (σ : Type) extends HasBridge σ where
  traces : Part σ Traces

variable {σ : Type} [HasTraces σ]

/-! ## Collections -/

def loadCallTraces : Action σ (List CallTrace) :=
  loadCollection
    (HasTraces.traces.comp ⟨Traces.callTraces, fun c t => { t with callTraces := c }⟩) .callTraces

def loadTypeArgs : Action σ (List TypeArg) :=
  loadCollection
    (HasTraces.traces.comp ⟨Traces.typeArgs, fun a t => { t with typeArgs := a }⟩)
    .callTraceTypeArgs

def loadArgs : Action σ (List Arg) :=
  loadCollection
    (HasTraces.traces.comp ⟨Traces.args, fun a t => { t with args := a }⟩) .callTraceArgs

def callTraceViews : Action σ (List (View CallTrace)) := allViews loadCallTraces

/-! ## Joins -/

/-- A call has the type arguments with its sequence number. -/
def typeArgJoin : Join σ CallTrace TypeArg where
  parents := loadCallTraces
  children := loadTypeArgs
  links := HasTraces.traces.comp ⟨Traces.typeArgLinks, fun r t => { t with typeArgLinks := r }⟩
  title := "call trace type args"
  key t := ("call_trace_seq", toString t.seq.toNat)
  related t arg := arg.callTraceSeq == t.seq

/-- A call has the arguments with its sequence number. -/
def argJoin : Join σ CallTrace Arg where
  parents := loadCallTraces
  children := loadArgs
  links := HasTraces.traces.comp ⟨Traces.argLinks, fun r t => { t with argLinks := r }⟩
  title := "call trace args"
  key t := ("call_trace_seq", toString t.seq.toNat)
  related t arg := arg.callTraceSeq == t.seq

/-- The type arguments of a call. -/
def typeArgsOf (trace : View CallTrace) : Action σ (List TypeArg) := typeArgJoin.records trace

/-- The arguments of a call. -/
def argsOf (trace : View CallTrace) : Action σ (List (View Arg)) := argJoin.views trace

/-- The value of an argument. -/
def valueOf (arg : View Arg) : Action σ ChainGuest.Value :=
  onceFor loadArgs
    (HasTraces.traces.comp ⟨Traces.argValues, fun m t => { t with argValues := m }⟩) arg.index
    fun record => call (Bridge.fetchArgumentValue record.seq)

end ChainGuest.Move
