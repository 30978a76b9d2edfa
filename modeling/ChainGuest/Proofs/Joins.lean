import Mathlib
import ChainGuest.Proofs.Aptos.Refinement
import ChainGuest.Proofs.Cache.Walk
import ChainGuest.Proofs.Evm.Refinement
import ChainGuest.Proofs.Sui.Refinement

/-! # Joins lose and duplicate nothing

    Wherever the keys of the parents are distinct, a join hands out each child that has a parent
    once, and nothing else:

        EVM           block ──block index──► transaction ──block and index──► call trace
                                                        └─hash──────────────► event
        Sui, Aptos    transaction ──sequence number──► event
                                 └─sequence number──► call trace ──sequence number──► argument
                                                                └─sequence number──► type argument

    So do walks through two joins, one after the other. This holds of a context whatever was
    asked of it before, and whatever its host served meanwhile (`joins_share_out`).
-/

namespace ChainGuest

/-! ## Section 1: EVM chains -/

namespace Evm

/-- From the views of blocks to their transactions. -/
def blockRoute : Route Context Block Transaction (View Transaction) UInt64 where
  join := Context.blockJoin
  views := Context.blockViews
  access := Context.transactionsOf
  render := View.pick
  parentKey b := b.blockIndex
  childKey t := t.blockIndex

/-- From the views of transactions to their call traces. -/
def callTraceRoute : Route Context Transaction CallTrace CallTrace (UInt64 × UInt32) where
  join := Context.callTraceJoin
  views := Context.transactionViews
  access := Context.callTracesOf
  render := recordsAt
  parentKey t := (t.blockIndex, t.txIndex)
  childKey trace := (trace.blockIndex, trace.txIndex)

/-- From the views of transactions to their events. -/
def eventRoute : Route Context Transaction Event Event String where
  join := Context.eventJoin
  views := Context.transactionViews
  access := Context.eventsOf
  render := recordsAt
  parentKey t := t.txHash
  childKey event := event.txHash

/-- Blocks share out their transactions, and transactions their call traces and events; so do
    blocks those of their transactions. -/
structure JoinsShare (s : Context) : Prop where
  blockTransactions : blockRoute.Shares s
  transactionCallTraces : callTraceRoute.Shares s
  transactionEvents : eventRoute.Shares s
  blockCallTraces : blockRoute.SharesThrough callTraceRoute s
  blockEvents : blockRoute.SharesThrough eventRoute s

theorem along_blockRoute : layout.Along .block .transaction blockRoute :=
  -- The keys are two numbers that the join compares, so equality is what it tests.
  layout.along_views .blockTransactions fun _ _ => beq_iff_eq

theorem along_callTraceRoute : layout.Along .transaction .callTrace callTraceRoute := by
  refine layout.along_records .transactionCallTraces fun t trace => ?_
  -- The join compares two numbers where the route compares pairs.
  show (trace.blockIndex == t.blockIndex && trace.txIndex == t.txIndex) = true ↔
    (trace.blockIndex, trace.txIndex) = (t.blockIndex, t.txIndex)
  rw [Bool.and_eq_true, beq_iff_eq, beq_iff_eq, Prod.mk.injEq]

theorem along_eventRoute : layout.Along .transaction .event eventRoute :=
  layout.along_records .transactionEvents fun _ _ => beq_iff_eq

theorem joinsShare_of_mirrors {config : Config} {offer : Offer} {s : Context}
    {t : Tally Record Link Empty} (h : layout.Mirrors config offer s t) : JoinsShare s where
  blockTransactions := along_blockRoute.shares h
  transactionCallTraces := along_callTraceRoute.shares h
  transactionEvents := along_eventRoute.shares h
  blockCallTraces := along_blockRoute.sharesThrough along_callTraceRoute rfl h
  blockEvents := along_blockRoute.sharesThrough along_eventRoute rfl h

end Evm

/-! ## Section 2: Chains that run Move -/

/-- Transactions share out their events and call traces, and call traces their arguments and
    type arguments; so do transactions those of their call traces. -/
structure CallsShare {σ τ η γ α ω : Type} [HasBridge σ] (eventRoute : Route σ τ η η UInt64)
    (callTraceRoute : Route σ τ γ (View γ) UInt64) (argRoute : Route σ γ α (View α) UInt64)
    (typeArgRoute : Route σ γ ω ω UInt64) (s : σ) : Prop where
  transactionEvents : eventRoute.Shares s
  transactionCallTraces : callTraceRoute.Shares s
  callTraceArgs : argRoute.Shares s
  callTraceTypeArgs : typeArgRoute.Shares s
  transactionArgs : callTraceRoute.SharesThrough argRoute s
  transactionTypeArgs : callTraceRoute.SharesThrough typeArgRoute s

/-- A context that holds Move traces shares them out if the four routes go along its layout. -/
theorem CallsShare.of_along {σ Kind Link Valued : Type} {Record : Kind → Type} [HasBridge σ]
    [∀ k, Entity (Record k)] [DecidableEq Kind] {L : Layout σ Record Link Valued}
    {p e c a b : Kind} {eventRoute : Route σ (Record p) (Record e) (Record e) UInt64}
    {callTraceRoute : Route σ (Record p) (Record c) (View (Record c)) UInt64}
    {argRoute : Route σ (Record c) (Record a) (View (Record a)) UInt64}
    {typeArgRoute : Route σ (Record c) (Record b) (Record b) UInt64}
    (hevents : L.Along p e eventRoute) (htraces : L.Along p c callTraceRoute)
    (hargs : L.Along c a argRoute) (htypeArgs : L.Along c b typeArgRoute)
    (hpick : callTraceRoute.render = View.pick) {config : Config} {offer : Offer} {s : σ}
    {t : Tally Record Link Valued} (h : L.Mirrors config offer s t) :
    CallsShare eventRoute callTraceRoute argRoute typeArgRoute s where
  transactionEvents := hevents.shares h
  transactionCallTraces := htraces.shares h
  callTraceArgs := hargs.shares h
  callTraceTypeArgs := htypeArgs.shares h
  -- The walks through two joins go on from the views of call traces that the first hands out.
  transactionArgs := htraces.sharesThrough hargs hpick h
  transactionTypeArgs := htraces.sharesThrough htypeArgs hpick h

namespace Move

section Calls

variable {σ : Type} [HasTraces σ]

/-- From the views of call traces to their arguments. -/
def argRoute : Route σ CallTrace Arg (View Arg) UInt64 where
  join := argJoin
  views := callTraceViews
  access := argsOf
  render := View.pick
  parentKey trace := trace.seq
  childKey arg := arg.callTraceSeq

/-- From the views of call traces to their type arguments. -/
def typeArgRoute : Route σ CallTrace TypeArg TypeArg UInt64 where
  join := typeArgJoin
  views := callTraceViews
  access := typeArgsOf
  render := recordsAt
  parentKey trace := trace.seq
  childKey arg := arg.callTraceSeq

/-- Transactions share out their events and call traces, and call traces their arguments and
    type arguments; so do transactions those of their call traces. -/
abbrev JoinsShare {τ η : Type} (eventRoute : Route σ τ η η UInt64)
    (callTraceRoute : Route σ τ CallTrace (View CallTrace) UInt64) (s : σ) : Prop :=
  CallsShare eventRoute callTraceRoute argRoute typeArgRoute s

end Calls

end Move

namespace Sui

/-- From the views of transactions to their events. -/
def eventRoute : Route Context Transaction Event Event UInt64 where
  join := Context.eventJoin
  views := Context.transactionViews
  access := Context.eventsOf
  render := recordsAt
  parentKey t := t.seq
  childKey event := event.txSeq

/-- From the views of transactions to their call traces. -/
def callTraceRoute :
    Route Context Transaction Move.CallTrace (View Move.CallTrace) UInt64 where
  join := Context.callTraceJoin
  views := Context.transactionViews
  access := Context.callTracesOf
  render := View.pick
  parentKey t := t.seq
  childKey trace := trace.txSeq

theorem joinsShare_of_mirrors {config : Config} {offer : Offer} {s : Context}
    {t : Tally Record Link Unit} (h : layout.Mirrors config offer s t) :
    Move.JoinsShare eventRoute callTraceRoute s :=
  .of_along (L := layout) (p := .transaction) (e := .event) (c := .callTrace) (a := .arg)
    (b := .typeArg)
    (layout.along_records .transactionEvents fun _ _ => beq_iff_eq)
    (layout.along_viewsByIndex .transactionCallTraces fun _ _ => beq_iff_eq)
    (layout.along_views .args fun _ _ => beq_iff_eq)
    (layout.along_records .typeArgs fun _ _ => beq_iff_eq) rfl h

end Sui

namespace Aptos

/-- From the views of transactions to their events. -/
def eventRoute : Route Context Transaction Event Event UInt64 where
  join := Context.eventJoin
  views := Context.transactionViews
  access := Context.eventsOf
  render := recordsAt
  parentKey t := t.seq
  childKey event := event.txSeq

/-- From the views of transactions to their call traces. -/
def callTraceRoute :
    Route Context Transaction Move.CallTrace (View Move.CallTrace) UInt64 where
  join := Context.callTraceJoin
  views := Context.transactionViews
  access := Context.callTracesOf
  render := View.pick
  parentKey t := t.seq
  childKey trace := trace.txSeq

theorem joinsShare_of_mirrors {config : Config} {offer : Offer} {s : Context}
    {t : Tally Record Link Unit} (h : layout.Mirrors config offer s t) :
    Move.JoinsShare eventRoute callTraceRoute s :=
  .of_along (L := layout) (p := .transaction) (e := .event) (c := .callTrace) (a := .arg)
    (b := .typeArg)
    (layout.along_records .transactionEvents fun _ _ => beq_iff_eq)
    (layout.along_viewsByIndex .transactionCallTraces fun _ _ => beq_iff_eq)
    (layout.along_views .args fun _ _ => beq_iff_eq)
    (layout.along_records .typeArgs fun _ _ => beq_iff_eq) rfl h

end Aptos

/-! ## Section 3: Contexts that anything was asked of -/

/-- In the contexts of all chains, parents with distinct keys share out their children, and the
    children of their children, whatever was asked of the context before, and whatever its host
    served and was asked otherwise meanwhile.

    The walks that share out are made in the state that the run has led to, where anything may be
    loaded already. All that is used of that state is that it mirrors some tally. -/
theorem joins_share_out (host : Host) (config : Config) (meanwhile : List Interlude) :
    (∀ turns : List (Turn (Evm.Access Nat Nat)),
      let c := Evm.Context.new host config
      let stages := chronicle Evm.Access.resolve Evm.Access.action turns [] c
      Evm.JoinsShare (Interlude.after meanwhile (Stage.last c stages))) ∧
      (∀ turns : List (Turn Sui.Request),
        let c := Sui.Context.new host config
        let stages := chronicle Sui.Access.resolve Sui.Access.action turns [] c
        Move.JoinsShare Sui.eventRoute Sui.callTraceRoute
          (Interlude.after meanwhile (Stage.last c stages))) ∧
      ∀ turns : List (Turn Aptos.Request),
        let c := Aptos.Context.new host config
        let stages := chronicle Aptos.Access.resolve Aptos.Access.action turns [] c
        Move.JoinsShare Aptos.eventRoute Aptos.callTraceRoute
          (Interlude.after meanwhile (Stage.last c stages)) := by
  refine ⟨fun turns => ?_, fun turns => ?_, fun turns => ?_⟩
  · obtain ⟨offer, t, h⟩ :=
      Evm.client.mirrors_last (Evm.mirrors_new host config) (List.forall_mem_nil _) turns
    exact Evm.joinsShare_of_mirrors (h.interlude meanwhile)
  · obtain ⟨offer, t, h⟩ :=
      Sui.client.mirrors_last (Sui.mirrors_new host config) (List.forall_mem_nil _) turns
    exact Sui.joinsShare_of_mirrors (h.interlude meanwhile)
  · obtain ⟨offer, t, h⟩ :=
      Aptos.client.mirrors_last (Aptos.mirrors_new host config) (List.forall_mem_nil _) turns
    exact Aptos.joinsShare_of_mirrors (h.interlude meanwhile)

end ChainGuest
