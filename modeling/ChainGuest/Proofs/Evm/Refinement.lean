import Mathlib
import ChainGuest.Evm.Context
import ChainGuest.Proofs.Cache.Client

/-! # The context of an EVM chain against a reference without caches

    The reference remembers the records of each collection from its first load that
    succeeded, and nothing else. Views, blocks and joins are made anew from these records
    every time; a join is a filter in the order of the collection:

        block ──block index──► transaction ──block and transaction index──► call trace
                                           └─transaction hash─────────────► event

    The context is laid out like those of other chains (`layout`), with nothing that has a
    value, and every access to it is a plan along its layout (`Access.ask`). It therefore
    answers every conversation as the reference does (`conversation_context_eq_reference`),
    whatever the host serves meanwhile.
-/

namespace ChainGuest.Evm

/-! ## Section 1: The layout -/

/-- The kinds of records that a context loads. -/
inductive Kind where
  | block
  | transaction
  | callTrace
  | event
  deriving DecidableEq

abbrev Record : Kind → Type
  | .block => Block
  | .transaction => Transaction
  | .callTrace => CallTrace
  | .event => Event

instance : (k : Kind) → Entity (Record k)
  | .block => inferInstanceAs (Entity Block)
  | .transaction => inferInstanceAs (Entity Transaction)
  | .callTrace => inferInstanceAs (Entity CallTrace)
  | .event => inferInstanceAs (Entity Event)

/-- The joins of a context. -/
inductive Link where
  | blockTransactions
  | transactionCallTraces
  | transactionEvents
  deriving DecidableEq

/-- Where a context keeps what it has loaded. Nothing in it has a value. -/
abbrev layout : Layout Context Record Link Empty where
  part
    | .bridge => HasBridge.bridge
    | .cell .block => ⟨Context.blocks, fun b c => { c with blocks := b }⟩
    | .cell .transaction => ⟨Context.transactions, fun t c => { c with transactions := t }⟩
    | .cell .callTrace => ⟨Context.callTraces, fun t c => { c with callTraces := t }⟩
    | .cell .event => ⟨Context.events, fun e c => { c with events := e }⟩
    | .links .blockTransactions => Context.blockJoin.links
    | .links .transactionCallTraces => Context.callTraceJoin.links
    | .links .transactionEvents => Context.eventJoin.links
  get_set p _ _ := by
    rcases p with _ | (_ | _) | (_ | _) | ⟨⟨⟩⟩ <;> rfl
  get_set_ne p q h _ _ := by
    rcases p with _ | (_ | _) | (_ | _) | ⟨⟨⟩⟩ <;> rcases q with _ | (_ | _) | (_ | _) | ⟨⟨⟩⟩ <;>
      first | rfl | exact absurd rfl h
  part_bridge := rfl
  collection
    | .block => .blocks
    | .transaction => .transactions
    | .callTrace => .callTraces
    | .event => .events
  collection_injective k k' h := by
    cases k <;> cases k' <;> first | rfl | exact absurd h (by decide)
  parent
    | .blockTransactions => .block
    | .transactionCallTraces | .transactionEvents => .transaction
  child
    | .blockTransactions => .transaction
    | .transactionCallTraces => .callTrace
    | .transactionEvents => .event
  parent_ne_child l := by cases l <;> decide
  join
    | .blockTransactions => Context.blockJoin
    | .transactionCallTraces => Context.callTraceJoin
    | .transactionEvents => Context.eventJoin
  join_parents l := by cases l <;> rfl
  join_children l := by cases l <;> rfl
  join_links l := by cases l <;> rfl
  source := Empty.elim
  argument a := a.elim

/-! ## Section 2: Accesses -/

/-- What a context can be asked for. Some of it is asked of a view of a block, or of a view
    of a transaction. -/
inductive Access (β τ : Type) where
  | blocks
  | transactions
  | callTraces
  | events
  | block
  | blockViews
  | transactionViews
  | transactionsOf (block : β)
  | callTracesOf (tx : τ)
  | eventsOf (tx : τ)

/-- An access that names views by their places among those that were handed out. -/
abbrev Request : Type := Access Nat Nat

/-- An access through views. -/
abbrev ViewAccess : Type := Access (View Block) (View Transaction)

namespace Access

/-- The access that a request is for, after these answers. -/
def resolve (history : List (Reply Record)) : Request → Option ViewAccess
  | .blocks => some .blocks
  | .transactions => some .transactions
  | .callTraces => some .callTraces
  | .events => some .events
  | .block => some .block
  | .blockViews => some .blockViews
  | .transactionViews => some .transactionViews
  | .transactionsOf i => (history.flatMap (Reply.handed Kind.block))[i]?.map .transactionsOf
  | .callTracesOf i => (history.flatMap (Reply.handed Kind.transaction))[i]?.map .callTracesOf
  | .eventsOf i => (history.flatMap (Reply.handed Kind.transaction))[i]?.map .eventsOf

/-- The action of a context that an access is. -/
def action : ViewAccess → Action Context (Reply Record)
  | .blocks => do return .records .block (← Context.loadBlocks)
  | .transactions => do return .records .transaction (← Context.loadTransactions)
  | .callTraces => do return .records .callTrace (← Context.loadCallTraces)
  | .events => do return .records .event (← Context.loadEvents)
  | .block => do return .view .block (← Context.block)
  | .blockViews => do return .views .block (← Context.blockViews)
  | .transactionViews => do return .views .transaction (← Context.transactionViews)
  | .transactionsOf view => do return .views .transaction (← Context.transactionsOf view)
  | .callTracesOf tx => do return .records .callTrace (← Context.callTracesOf tx)
  | .eventsOf tx => do return .records .event (← Context.eventsOf tx)

/-- What an access asks along the layout. A request, which names views by places, is a wish;
    an access through views is a plan. -/
def ask (V : Kind → Type) : Access (V .block) (V .transaction) → layout.Ask V
  | .blocks => .records .block
  | .transactions => .records .transaction
  | .callTraces => .records .callTrace
  | .events => .records .event
  | .block => .first .block "blocks"
  | .blockViews => .views .block
  | .transactionViews => .views .transaction
  | .transactionsOf view => .join .blockTransactions .views view
  | .callTracesOf tx => .join .transactionCallTraces .records tx
  | .eventsOf tx => .join .transactionEvents .records tx

/-- A request is resolved as the wish that it is. -/
theorem resolve_ask (history : List (Reply Record)) (request : Request) :
    (request.ask fun _ => Nat).resolve history =
      (request.resolve history).map (ask fun k => View (Record k)) := by
  cases request <;> simp only [ask, resolve, Layout.Ask.resolve, Option.map_map] <;> rfl

/-- The layout has every action in its own words. -/
theorem act_ask (access : ViewAccess) :
    Layout.Plan.act (access.ask fun k => View (Record k)) = access.action := by
  cases access <;> rfl

end Access

/-! ## Section 3: The reference -/

/-- The records of each collection, from its first load that succeeded. -/
abbrev Reference : Type := Remembered Record Empty

namespace Reference

open Remembered

/-- What the reference answers: something made of the records of one collection. -/
def answer (config : Config) (offer : Offer) :
    ViewAccess → Attempt Reference Failure (Reply Record)
  | .blocks =>
    answerFrom (slot .block) (offer.records config .blocks) fun blocks =>
      .ok (.records .block blocks)
  | .transactions =>
    answerFrom (slot .transaction) (offer.records config .transactions) fun txs =>
      .ok (.records .transaction txs)
  | .callTraces =>
    answerFrom (slot .callTrace) (offer.records config .callTraces) fun traces =>
      .ok (.records .callTrace traces)
  | .events =>
    answerFrom (slot .event) (offer.records config .events) fun events =>
      .ok (.records .event events)
  | .block =>
    answerFrom (slot .block) (offer.records config .blocks) fun
      | block :: _ => .ok (.view .block ⟨0, block⟩)
      | [] => .error (.of (.plain "host returned no blocks"))
  | .blockViews =>
    answerFrom (slot .block) (offer.records config .blocks) fun blocks =>
      .ok (.views .block (View.all blocks))
  | .transactionViews =>
    answerFrom (slot .transaction) (offer.records config .transactions) fun txs =>
      .ok (.views .transaction (View.all txs))
  | .transactionsOf block =>
    answerFrom (slot .transaction) (offer.records config .transactions) fun txs =>
      .ok (.views .transaction ((View.all txs).filter fun tx =>
        tx.record.blockIndex == block.record.blockIndex))
  | .callTracesOf tx =>
    answerFrom (slot .callTrace) (offer.records config .callTraces) fun traces =>
      .ok (.records .callTrace (traces.filter fun trace =>
        trace.blockIndex == tx.record.blockIndex && trace.txIndex == tx.record.txIndex))
  | .eventsOf tx =>
    answerFrom (slot .event) (offer.records config .events) fun events =>
      .ok (.records .event (events.filter fun event => event.txHash == tx.record.txHash))

/-- The reference answers as the one of the layout does. -/
theorem answer_eq_plan (config : Config) (offer : Offer) (access : ViewAccess) :
    answer config offer access =
      Layout.Plan.answer config offer (access.ask fun k => View (Record k)) := by
  -- Only the block that the context is about may be missing from what was loaded.
  have hfirst : ∀ blocks : List Block, (match blocks with
      | block :: _ => .ok (.view .block ⟨0, block⟩)
      | [] => .error (.of (.plain "host returned no blocks")) :
        Except Failure (Reply Record)) =
      (firstOf "blocks" blocks).map (Reply.view Kind.block) := by
    intro blocks
    cases blocks <;> rfl
  cases access with
  | block => exact congrArg (answerFrom _ _) (funext hfirst)
  | _ => rfl

end Reference

/-! ## Section 4: Conversations -/

/-- What can be asked of a context. -/
def client : Client layout Request ViewAccess where
  resolve := Access.resolve
  action := Access.action
  wish := Access.ask fun _ => Nat
  plan := Access.ask fun k => View (Record k)
  resolve_wish := Access.resolve_ask
  act_plan := Access.act_ask

/-- A context that nothing was asked of mirrors a tally that remembers nothing, after what
    its host was asked before. -/
theorem mirrors_new (host : Host) (config : Config) :
    layout.Mirrors config host.offer (Context.new host config)
      (.new (Bridge.new host config).ledger) :=
  Layout.mirrors_new (by rintro (_ | _) <;> rfl) (by rintro (_ | _) <;> rfl) (by rintro ⟨⟩)

/-- Whatever is asked of a context in whatever order, through views handed out before, and
    whatever its host serves at each inquiry: the answers are those of the reference. They are
    the same records in the same order, or the same failure, and a request that cannot be made
    of the one cannot be made of the other. -/
theorem conversation_context_eq_reference (host : Host) (config : Config)
    (visits : List (Visit (Inquiry Request))) :
    conversation (Inquiry.resolve Access.resolve) (Inquiry.make Access.action) visits []
        (Context.new host config) =
      conversation (Inquiry.resolve Access.resolve)
        (Inquiry.put (Reference.answer config)) visits [] Remembered.new := by
  have hreference : Reference.answer config = fun offer access =>
      (client.plan access).answer config offer := by
    funext offer access
    exact Reference.answer_eq_plan config offer access
  rw [hreference]
  exact client.conversation_eq (mirrors_new host config) visits

-- A load that fails is made again, one that succeeded is not, and no block was handed out.
example :
    let lost : Serving := ⟨[], fun _ => .pack 1 1⟩
    let bare : Serving := ⟨[], fun _ => .null⟩
    let ask (access : Request) : Inquiry Request := ⟨fun _ => .null, access⟩
    conversation (Inquiry.resolve Access.resolve) (Inquiry.make Access.action)
      [⟨lost, ask .block⟩, ⟨bare, ask .block⟩, ⟨lost, ask .blockViews⟩,
        ⟨lost, ask (.transactionsOf 0)⟩] [] (Context.new .new .default) =
      [some (.error ((Failure.of (.host (.outOfBounds 1 1 0))).within
          "Failed to read blocks buffer")),
       some (.error (.of (.plain "host returned no blocks"))),
       some (.ok (.views .block [])), none] := rfl

end ChainGuest.Evm
