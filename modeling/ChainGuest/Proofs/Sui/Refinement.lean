import Mathlib
import ChainGuest.Proofs.Cache.Client
import ChainGuest.Sui.Context

/-! # The context of Sui against a reference without caches

    The reference remembers the records of each collection from its first load that
    succeeded, and by position the values of arguments from their first fetch that succeeded.
    Views and joins are made anew from these records every time; a join is a filter in the
    order of the collection:

        transaction ──tx_seq──► event
                    └─tx_seq──► call trace ──call_trace_seq──► type argument
                                           └─call_trace_seq──► argument ──value──► value

    The context is laid out like those of other chains (`layout`), and every access to it is a
    plan along its layout (`Access.ask`). It therefore answers as the reference does
    (`conversation_eq_reference`).
-/

namespace ChainGuest.Sui

open Move (CallTrace TypeArg Arg)

/-! ## Section 1: The layout -/

/-- The kinds of records that a context loads. -/
inductive Kind where
  | transaction
  | event
  | callTrace
  | typeArg
  | arg
  deriving DecidableEq

abbrev Record : Kind → Type
  | .transaction => Transaction
  | .event => Event
  | .callTrace => CallTrace
  | .typeArg => TypeArg
  | .arg => Arg

instance : (k : Kind) → Entity (Record k)
  | .transaction => inferInstanceAs (Entity Transaction)
  | .event => inferInstanceAs (Entity Event)
  | .callTrace => inferInstanceAs (Entity CallTrace)
  | .typeArg => inferInstanceAs (Entity TypeArg)
  | .arg => inferInstanceAs (Entity Arg)

/-- The joins of a context. -/
inductive Link where
  | transactionEvents
  | transactionCallTraces
  | typeArgs
  | args
  deriving DecidableEq

/-- Where a context keeps what it has loaded. Only arguments have values. -/
abbrev layout : Layout Context Record Link Unit where
  part
    | .bridge => HasBridge.bridge
    | .cell .transaction => ⟨Context.transactions, fun t c => { c with transactions := t }⟩
    | .cell .event => ⟨Context.events, fun e c => { c with events := e }⟩
    | .cell .callTrace =>
      Move.HasTraces.traces.comp ⟨Move.Traces.callTraces, fun x t => { t with callTraces := x }⟩
    | .cell .typeArg =>
      Move.HasTraces.traces.comp ⟨Move.Traces.typeArgs, fun x t => { t with typeArgs := x }⟩
    | .cell .arg => Move.HasTraces.traces.comp ⟨Move.Traces.args, fun x t => { t with args := x }⟩
    | .links .transactionEvents => Context.eventJoin.links
    | .links .transactionCallTraces => Context.callTraceJoin.links
    | .links .typeArgs => Move.typeArgJoin.links
    | .links .args => Move.argJoin.links
    | .values () =>
      Move.HasTraces.traces.comp ⟨Move.Traces.argValues, fun m t => { t with argValues := m }⟩
  get_set p _ _ := by
    rcases p with _ | (_ | _) | (_ | _) | _ <;> rfl
  get_set_ne p q h _ _ := by
    -- Two places, each of which is a field of the context or of its traces.
    rcases p with _ | (_ | _) | (_ | _) | _ <;> rcases q with _ | (_ | _) | (_ | _) | _ <;>
      first | rfl | exact absurd rfl h
  part_bridge := rfl
  collection
    | .transaction => .transactions
    | .event => .events
    | .callTrace => .callTraces
    | .typeArg => .callTraceTypeArgs
    | .arg => .callTraceArgs
  collection_injective k k' h := by
    cases k <;> cases k' <;> first | rfl | exact absurd h (by decide)
  parent
    | .transactionEvents | .transactionCallTraces => .transaction
    | .typeArgs | .args => .callTrace
  child
    | .transactionEvents => .event
    | .transactionCallTraces => .callTrace
    | .typeArgs => .typeArg
    | .args => .arg
  parent_ne_child l := by cases l <;> decide
  join
    | .transactionEvents => Context.eventJoin
    | .transactionCallTraces => Context.callTraceJoin
    | .typeArgs => Move.typeArgJoin
    | .args => Move.argJoin
  join_parents l := by cases l <;> rfl
  join_children l := by cases l <;> rfl
  join_links l := by cases l <;> rfl
  source _ := .arg
  argument _ arg := arg.seq

/-! ## Section 2: Accesses -/

/-- What a context can be asked for. Some of it is asked of a view of a transaction, of a call
    trace, or of an argument. -/
inductive Access (τ γ α : Type) where
  | transactions
  | events
  | callTraces
  | typeArgs
  | args
  | transaction
  | transactionViews
  | callTraceViews
  | eventsOf (tx : τ)
  | callTracesOf (tx : τ)
  | typeArgsOf (trace : γ)
  | argsOf (trace : γ)
  | valueOf (arg : α)

/-- An access that names views by their places among those that were handed out. -/
abbrev Request : Type := Access Nat Nat Nat

/-- An access through views. -/
abbrev ViewAccess : Type :=
  Access (View Transaction) (View CallTrace) (View Arg)

namespace Access

/-- The access that a request is for, after these answers. -/
def resolve (history : List (Reply Record)) : Request → Option ViewAccess
  | .transactions => some .transactions
  | .events => some .events
  | .callTraces => some .callTraces
  | .typeArgs => some .typeArgs
  | .args => some .args
  | .transaction => some .transaction
  | .transactionViews => some .transactionViews
  | .callTraceViews => some .callTraceViews
  | .eventsOf i => (history.flatMap (Reply.handed Kind.transaction))[i]?.map .eventsOf
  | .callTracesOf i => (history.flatMap (Reply.handed Kind.transaction))[i]?.map .callTracesOf
  | .typeArgsOf i => (history.flatMap (Reply.handed Kind.callTrace))[i]?.map .typeArgsOf
  | .argsOf i => (history.flatMap (Reply.handed Kind.callTrace))[i]?.map .argsOf
  | .valueOf i => (history.flatMap (Reply.handed Kind.arg))[i]?.map .valueOf

/-- The action of a context that an access is. -/
def action : ViewAccess → Action Context (Reply Record)
  | .transactions => do return .records .transaction (← Context.loadTransactions)
  | .events => do return .records .event (← Context.loadEvents)
  | .callTraces => do return .records .callTrace (← Move.loadCallTraces)
  | .typeArgs => do return .records .typeArg (← Move.loadTypeArgs)
  | .args => do return .records .arg (← Move.loadArgs)
  | .transaction => do return .view .transaction (← Context.transaction)
  | .transactionViews => do return .views .transaction (← Context.transactionViews)
  | .callTraceViews => do return .views .callTrace (← Move.callTraceViews)
  | .eventsOf tx => do return .records .event (← Context.eventsOf tx)
  | .callTracesOf tx => do return .views .callTrace (← Context.callTracesOf tx)
  | .typeArgsOf trace => do return .records .typeArg (← Move.typeArgsOf trace)
  | .argsOf trace => do return .views .arg (← Move.argsOf trace)
  | .valueOf arg => do return .value (← Move.valueOf arg)

/-- What an access asks along the layout. A request, which names views by places, is a wish;
    an access through views is a plan. -/
def ask (V : Kind → Type) : Access (V .transaction) (V .callTrace) (V .arg) → layout.Ask V
  | .transactions => .records .transaction
  | .events => .records .event
  | .callTraces => .records .callTrace
  | .typeArgs => .records .typeArg
  | .args => .records .arg
  | .transaction => .first .transaction "transactions"
  | .transactionViews => .views .transaction
  | .callTraceViews => .views .callTrace
  | .eventsOf tx => .join .transactionEvents .records tx
  | .callTracesOf tx => .join .transactionCallTraces .viewsByIndex tx
  | .typeArgsOf trace => .join .typeArgs .records trace
  | .argsOf trace => .join .args .views trace
  | .valueOf arg => .value () arg

/-- A request is resolved as the wish that it is: both look the view up among those of its kind
    that were handed out. -/
theorem resolve_ask (history : List (Reply Record)) (request : Request) :
    (request.ask fun _ => Nat).resolve history =
      (request.resolve history).map (ask fun k => View (Record k)) := by
  cases request <;> simp only [ask, resolve, Layout.Ask.resolve, Option.map_map] <;> rfl

/-- The layout has every action in its own words. -/
theorem act_ask (access : ViewAccess) :
    Layout.Plan.act (access.ask fun k => View (Record k)) = access.action := by
  cases access <;> rfl

end Access

/-! ## Section 3: The reference -/

/-- The records of each collection, from its first load that succeeded, and the values of
    arguments, each from its first fetch that succeeded. -/
abbrev Reference : Type := Remembered Record Unit

namespace Reference

open Remembered

/-- What the reference answers: something made of the records of one collection, or the value
    of an argument. -/
def answer (config : Config) (offer : Offer) :
    ViewAccess → Attempt Reference Failure (Reply Record)
  | .transactions =>
    answerFrom (slot .transaction) (offer.records config .transactions) fun txs =>
      .ok (.records .transaction txs)
  | .events =>
    answerFrom (slot .event) (offer.records config .events) fun events =>
      .ok (.records .event events)
  | .callTraces =>
    answerFrom (slot .callTrace) (offer.records config .callTraces) fun traces =>
      .ok (.records .callTrace traces)
  | .typeArgs =>
    answerFrom (slot .typeArg) (offer.records config .callTraceTypeArgs) fun typeArgs =>
      .ok (.records .typeArg typeArgs)
  | .args =>
    answerFrom (slot .arg) (offer.records config .callTraceArgs) fun args =>
      .ok (.records .arg args)
  | .transaction =>
    answerFrom (slot .transaction) (offer.records config .transactions) fun
      | tx :: _ => .ok (.view .transaction ⟨0, tx⟩)
      | [] => .error (.of (.plain "host returned no transactions"))
  | .transactionViews =>
    answerFrom (slot .transaction) (offer.records config .transactions) fun txs =>
      .ok (.views .transaction (View.all txs))
  | .callTraceViews =>
    answerFrom (slot .callTrace) (offer.records config .callTraces) fun traces =>
      .ok (.views .callTrace (View.all traces))
  | .eventsOf tx =>
    answerFrom (slot .event) (offer.records config .events) fun events =>
      .ok (.records .event (events.filter fun event => event.txSeq == tx.record.seq))
  | .callTracesOf tx =>
    answerFrom (slot .callTrace) (offer.records config .callTraces) fun traces =>
      .ok (.views .callTrace ((View.all traces).filter fun trace =>
        trace.record.txSeq == tx.record.seq))
  | .typeArgsOf trace =>
    answerFrom (slot .typeArg) (offer.records config .callTraceTypeArgs) fun typeArgs =>
      .ok (.records .typeArg (typeArgs.filter fun typeArg =>
        typeArg.callTraceSeq == trace.record.seq))
  | .argsOf trace =>
    answerFrom (slot .arg) (offer.records config .callTraceArgs) fun args =>
      .ok (.views .arg ((View.all args).filter fun arg =>
        arg.record.callTraceSeq == trace.record.seq))
  | .valueOf arg => do
    return .value (← recallValue () arg.index (offer.value config arg.record.seq))

/-- The reference answers as the one of the layout does. -/
theorem answer_eq_plan (config : Config) (offer : Offer) (access : ViewAccess) :
    answer config offer access =
      Layout.Plan.answer config offer (access.ask fun k => View (Record k)) := by
  -- The two say in different words what the first of the records is.
  have hfirst : ∀ txs : List Transaction, (match txs with
      | tx :: _ => .ok (.view .transaction ⟨0, tx⟩)
      | [] => .error (.of (.plain "host returned no transactions")) :
        Except Failure (Reply Record)) =
      (firstOf "transactions" txs).map (Reply.view Kind.transaction) := by
    intro txs
    cases txs <;> rfl
  cases access with
  | transaction => exact congrArg (answerFrom _ _) (funext hfirst)
  | _ => rfl

end Reference

/-! ## Section 4: Conversations -/

/-- What can be asked of a context. -/
def client : Client layout Request ViewAccess where
  resolve := Access.resolve
  action := Access.action
  wish := Access.ask fun _ => Nat
  plan := Access.ask fun k => View (Record k)
  resolve_wish := Access.resolve_ask
  act_plan := Access.act_ask

/-- A context that nothing was asked of mirrors a tally that remembers nothing, after what
    its host was asked before. -/
theorem mirrors_new (host : Host) (config : Config) :
    layout.Mirrors config host.offer (Context.new host config)
      (.new (Bridge.new host config).ledger) :=
  Layout.mirrors_new (by rintro (_ | _) <;> rfl) (by rintro (_ | _) <;> rfl) (by rintro ⟨⟩; rfl)

/-- Whatever is asked of a context in whatever order, through views handed out before, and
    whatever its host serves at each inquiry: the answers are those of the reference.

    The reference is written out without a layout, to be read on its own; that it is the one of
    the layout is `Reference.answer_eq_plan`. -/
theorem conversation_eq_reference (host : Host) (config : Config)
    (visits : List (Visit (Inquiry Request))) :
    conversation (Inquiry.resolve Access.resolve) (Inquiry.make Access.action) visits []
        (Context.new host config) =
      conversation (Inquiry.resolve Access.resolve)
        (Inquiry.put (Reference.answer config)) visits [] Remembered.new := by
  have hreference : Reference.answer config = fun offer access =>
      (client.plan access).answer config offer := by
    funext offer access
    exact Reference.answer_eq_plan config offer access
  rw [hreference]
  exact client.conversation_eq (mirrors_new host config) visits

end ChainGuest.Sui
