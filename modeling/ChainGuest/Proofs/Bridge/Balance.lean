import Mathlib
import ChainGuest.Proofs.Aptos.Refinement
import ChainGuest.Proofs.Bridge.Books
import ChainGuest.Proofs.Evm.Refinement
import ChainGuest.Proofs.Sui.Refinement

/-! # The counters of a bridge balance

    A guest runs errands, through a bridge or through the context that holds it, and accesses
    collections, joins and values of a context. Its host may begin to serve something else at
    any time. Whatever succeeds or fails of this in whatever order, the counters of the bridge
    agree with what its host was asked (`bridges_balance`).

    What an errand asks is said by its posting. What an access asks is seen from what the host
    has come to remember (`Host.news`), as accesses do nothing but fetch collections and then
    values (`Layout.Plan.fetches_act`).
-/

namespace ChainGuest

/-! ## Section 1: Actions that fetch -/

section Fetching

variable {σ α β γ : Type} [HasBridge σ]

/-- The books of the bridge that a state holds. -/
def account (s : σ) : Account := (HasBridge.bridge.get s).account

/-- An action that asks for nothing but things of one kind, whether it succeeds or fails. -/
def AsksOnly (entry : γ → Posting) (x : Action σ α) : Prop :=
  ∀ s, ∃ things : List γ, account (x s).2 = (account s).posts (things.map entry)

/-- An action that fetches collections, and then values of arguments. -/
def Fetches (x : Action σ α) : Prop :=
  ∀ s, ∃ (kinds : List CollectionKind) (ids : List UInt64),
    account (x s).2 =
      (account s).posts (kinds.map Posting.collection ++ ids.map Posting.argumentValue)

namespace AsksOnly

variable {entry : γ → Posting}

protected theorem pure (a : α) : AsksOnly entry (pure a : Action σ α) := fun _ => ⟨[], rfl⟩

protected theorem fail (e : Failure) : AsksOnly entry (Attempt.fail e : Action σ α) :=
  fun _ => ⟨[], rfl⟩

/-- What is looked up asks for nothing, found or not. -/
protected theorem ofOption (e : Failure) (found : Option α) :
    AsksOnly entry (Attempt.ofOption e found : Action σ α) := by
  cases found with
  | none => exact .fail e
  | some a => exact .pure a

protected theorem bind {x : Action σ α} {f : α → Action σ β} (hx : AsksOnly entry x)
    (hf : ∀ a, AsksOnly entry (f a)) : AsksOnly entry (x >>= f) := by
  intro s
  obtain ⟨things, hthings⟩ := hx s
  -- What was asked for before a failure was asked for all the same.
  rcases hrun : x s with ⟨e | a, s'⟩
  · rw [hrun] at hthings
    rw [Attempt.bind_of_error f hrun]
    exact ⟨things, hthings⟩
  · rw [hrun] at hthings
    rw [Attempt.bind_of_ok f hrun]
    obtain ⟨more, hmore⟩ := hf a s'
    refine ⟨things ++ more, ?_⟩
    rw [hmore, hthings, List.map_append, Account.posts_append]

/-- A collection that is loaded once is asked for as its load asks. -/
theorem getOrLoad {cell : Part σ (Once α)} (hcell : ∀ c s, account (cell.set c s) = account s)
    {load : Action σ (List α)} (hload : AsksOnly entry load) :
    AsksOnly entry (Once.getOrLoad cell load) := by
  intro s
  unfold Once.getOrLoad
  cases (cell.get s).items? with
  | some items => exact ⟨[], rfl⟩
  | none =>
    obtain ⟨things, hthings⟩ := hload s
    rcases hrun : load s with ⟨e | items, s'⟩
    · rw [hrun] at hthings
      exact ⟨things, hthings⟩
    · rw [hrun] at hthings
      exact ⟨things, (hcell _ s').trans hthings⟩

/-- A slot that is filled once is asked for as its filling asks. -/
theorem getOrInit {table : Part σ (Memo α)}
    (htable : ∀ m s, account (table.set m s) = account s) (beyond : Failure) (size index : Nat)
    {init : Action σ α} (hinit : AsksOnly entry init) :
    AsksOnly entry (Memo.getOrInit table beyond size index init) := by
  intro s
  -- The size of the table is fixed before anything is asked.
  have hfixed : account (table.set ((table.get s).fix size) s) = account s := htable _ s
  simp only [Memo.getOrInit]
  cases (((table.get s).fix size).slotsOf size)[index]? with
  | none => exact ⟨[], hfixed⟩
  | some slot =>
    cases slot with
    | some a => exact ⟨[], hfixed⟩
    | none =>
      obtain ⟨things, hthings⟩ := hinit (table.set ((table.get s).fix size) s)
      rw [hfixed] at hthings
      rcases hrun : init (table.set ((table.get s).fix size) s) with ⟨e | a, s'⟩
      · rw [hrun] at hthings
        exact ⟨things, hthings⟩
      · rw [hrun] at hthings
        exact ⟨things, (htable _ s').trans hthings⟩

end AsksOnly

/-- An action that goes on with what was fetched, and asks for values only. -/
theorem AsksOnly.bind_fetches {x : Action σ α} {f : α → Action σ β}
    (hx : AsksOnly Posting.collection x) (hf : ∀ a, AsksOnly Posting.argumentValue (f a)) :
    Fetches (x >>= f) := by
  intro s
  obtain ⟨kinds, hkinds⟩ := hx s
  rcases hrun : x s with ⟨e | a, s'⟩
  · rw [hrun] at hkinds
    rw [Attempt.bind_of_error f hrun]
    refine ⟨kinds, [], ?_⟩
    rw [List.map_nil, List.append_nil]
    exact hkinds
  · rw [hrun] at hkinds
    rw [Attempt.bind_of_ok f hrun]
    obtain ⟨ids, hids⟩ := hf a s'
    refine ⟨kinds, ids, ?_⟩
    rw [hids, hkinds, Account.posts_append]

/-- An action that fetches collections only. -/
theorem AsksOnly.fetches {x : Action σ α} (hx : AsksOnly Posting.collection x) : Fetches x := by
  intro s
  obtain ⟨kinds, hkinds⟩ := hx s
  refine ⟨kinds, [], ?_⟩
  rw [List.map_nil, List.append_nil]
  exact hkinds

/-- An answer in other words asks for nothing more. -/
theorem Fetches.map {x : Action σ α} {g : α → β} :
    Fetches (do return g (← x)) ↔ Fetches x := by
  simp only [Fetches, Attempt.map_apply]

end Fetching

/-! ## Section 2: Accesses -/

namespace Layout

variable {σ Kind Link Valued : Type} {Record : Kind → Type} [HasBridge σ]
  [∀ k, Entity (Record k)] (L : Layout σ Record Link Valued)

/-- What is kept beside the bridge has no part in its books. -/
theorem account_set (p : Place Kind Link Valued) (hp : p ≠ .bridge) (x : p.Content Record)
    (s : σ) : account ((L.part p).set x s) = account s := by
  unfold account
  rw [← L.part_bridge, L.get_set_ne _ _ hp.symm]

include L in
theorem bridge_get_set (b : Bridge) (s : σ) :
    HasBridge.bridge.get (HasBridge.bridge.set b s) = b := by
  rw [← L.part_bridge]
  exact L.get_set .bridge b s

include L in
/-- A call asks through the bridge of the context. -/
theorem asksOnly_call {α γ : Type} {entry : γ → Posting} {x : Bridge.Call α}
    (hx : ∀ b, ∃ things : List γ, (x b).2.account = b.account.posts (things.map entry)) :
    AsksOnly entry (call x : Action σ α) := by
  intro s
  obtain ⟨things, hthings⟩ := hx (HasBridge.bridge.get s)
  have hbridge := L.bridge_get_set (x (HasBridge.bridge.get s)).2 s
  exact ⟨things, (congrArg Bridge.account hbridge).trans hthings⟩

/-- A load fetches its collection, or nothing. -/
theorem asksOnly_load (k : Kind) : AsksOnly Posting.collection (L.load k) := by
  refine .getOrLoad (L.account_set (.cell k) (by simp)) (L.asksOnly_call fun b => ?_)
  exact ⟨[L.collection k], Bridge.account_fetchCollection (L.collection k) b⟩

/-- The children of a parent are found by loads. That a join is computed is noted in the log, and
    the log has no part in the books. -/
theorem asksOnly_indices (l : Link) (index : Nat) :
    AsksOnly Posting.collection ((L.join l).indices index) := by
  unfold Join.indices
  rw [L.join_parents, L.join_children, L.join_links]
  refine (L.asksOnly_load (L.parent l)).bind fun parents => ?_
  refine (AsksOnly.ofOption _ _).bind fun parent => ?_
  refine .getOrInit (L.account_set (.links l) (by simp)) _ _ _ ?_
  refine (L.asksOnly_load (L.child l)).bind fun children => ?_
  exact AsksOnly.bind (L.asksOnly_call fun b => ⟨[], rfl⟩) fun _ => .pure _

/-- The value of a record is fetched after the records. -/
theorem fetches_valueOf (a : Valued) (arg : View (Record (L.source a))) :
    Fetches (L.valueOf a arg) := by
  refine (L.asksOnly_load (L.source a)).bind_fetches fun args => ?_
  refine (AsksOnly.ofOption _ _).bind fun record => ?_
  refine .getOrInit (L.account_set (.values a) (by simp)) _ _ _ (L.asksOnly_call fun b => ?_)
  exact ⟨[L.argument a record], Bridge.account_fetchArgumentValue _ b⟩

/-- Whatever is asked of a context, it does nothing but fetch.

    This is said of plans, once for all layouts, so a chain whose context has a layout needs no
    proof of its own. -/
theorem Plan.fetches_act (plan : L.Plan) : Fetches plan.act := by
  cases plan with
  | records k => exact Fetches.map.2 (L.asksOnly_load k).fetches
  | first k title =>
    refine Fetches.map.2 (AsksOnly.fetches ((L.asksOnly_load k).bind fun items => ?_))
    cases items with
    | nil => exact .fail _
    | cons record records => exact .pure _
  | views k =>
    exact Fetches.map.2 (AsksOnly.fetches ((L.asksOnly_load k).bind fun items => .pure _))
  | join l form v =>
    have hchildren : AsksOnly Posting.collection (L.join l).children := by
      rw [L.join_children]
      exact L.asksOnly_load (L.child l)
    cases form with
    | records | views =>
      exact Fetches.map.2 (AsksOnly.fetches (hchildren.bind fun children =>
        (L.asksOnly_indices l v.index).bind fun found => .ofOption _ _))
    | viewsByIndex =>
      exact Fetches.map.2 (AsksOnly.fetches ((L.asksOnly_indices l v.index).bind fun found =>
        hchildren.bind fun children => .ofOption _ _))
  | value a v => exact Fetches.map.2 (L.fetches_valueOf a v)

end Layout

/-! ## Section 3: Runs -/

/-- The fetches that a host has come to remember. -/
def Host.news (before after : Host) : List Posting :=
  (after.collectionRequests.drop before.collectionRequests.length).map .collection ++
    (after.argumentRequests.drop before.argumentRequests.length).map .argumentValue

/-- What an action fetches is what the host has come to remember.

    The lists that the action was seen to ask for are not part of its result, and the books of a
    run must not depend on how they were found. They can be recovered: the host's two lists have
    grown by exactly them. -/
theorem Fetches.account_eq {σ α : Type} [HasBridge σ] {x : Action σ α} (hx : Fetches x) (s : σ) :
    account (x s).2 =
      (account s).posts ((account s).host.news (account (x s).2).host) := by
  obtain ⟨kinds, ids, hfetched⟩ := hx s
  have hnews : (account s).host.news (account (x s).2).host =
      kinds.map Posting.collection ++ ids.map Posting.argumentValue := by
    have hkinds : (kinds.map Posting.collection ++ ids.map Posting.argumentValue).filterMap
        Posting.collection? = kinds := by
      rw [List.filterMap_append, List.filterMap_map, List.filterMap_map]
      show kinds.filterMap some ++ ids.filterMap (fun _ => none) = kinds
      simp
    have hids : (kinds.map Posting.collection ++ ids.map Posting.argumentValue).filterMap
        Posting.argument? = ids := by
      rw [List.filterMap_append, List.filterMap_map, List.filterMap_map]
      show kinds.filterMap (fun _ => none) ++ ids.filterMap some = ids
      simp
    obtain ⟨hcollections, harguments⟩ := (account s).requests_posts
      (kinds.map Posting.collection ++ ids.map Posting.argumentValue)
    rw [Host.news, hfetched, hcollections, harguments, List.drop_left, List.drop_left, hkinds,
      hids]
  rw [hnews]
  exact hfetched

/-- The host, serving from now on what another host serves. What it was asked it remembers. -/
def Host.restock (h source : Host) : Host :=
  { source with
    collectionRequests := h.collectionRequests
    argumentRequests := h.argumentRequests
    parseRequests := h.parseRequests
    incidents := h.incidents
    httpRequests := h.httpRequests
    queries := h.queries }

/-- What may happen in a run: the host begins to serve something else, the guest makes a call,
    or it makes an access. -/
inductive Deed (ι : Type) : Type 1 where
  | restock (source : Host)
  | errand (e : Errand)
  | access (i : ι)

section Runs

variable {σ ι answer : Type} [HasBridge σ] (action : ι → Action σ answer)

namespace Deed

/-- The state after a deed. -/
def run : Deed ι → σ → σ
  | .restock source, s =>
    let b := HasBridge.bridge.get s
    HasBridge.bridge.set { b with host := b.host.restock source } s
  | .errand e, s => HasBridge.bridge.set (e.run (HasBridge.bridge.get s)) s
  | .access i, s => (action i s).2

/-- What a deed asks the host for. -/
def postings : Deed ι → σ → List Posting
  | .restock _, _ => []
  | .errand e, _ => [e.posting]
  | .access i, s => (account s).host.news (account (action i s).2).host

end Deed

/-- The state after a run. -/
def lastOf (deeds : List (Deed ι)) (s : σ) : σ := deeds.foldl (fun s deed => deed.run action s) s

/-- The books of a run. -/
def booksOf : List (Deed ι) → σ → Books
  | [], _ => []
  | deed :: deeds, s =>
    (deed.postings action s).map (Booking.mk (account s).host) ++
      booksOf deeds (deed.run action s)

variable {action}

/-- A deed does to the books what its postings say. This is the step of a run: a host that serves
    something else, a call, or an access. -/
theorem explains_deed (hbridge : ∀ b (s : σ), HasBridge.bridge.get (HasBridge.bridge.set b s) = b)
    (hfetches : ∀ i, Fetches (action i)) {past : Books} {s : σ}
    (hexplains : past.Explains (account s)) (deed : Deed ι) :
    Books.Explains (past ++ (deed.postings action s).map (Booking.mk (account s).host))
      (account (deed.run action s)) := by
  cases deed with
  | restock source =>
    -- Nothing is asked, and what was asked is remembered.
    let b := HasBridge.bridge.get s
    have haccount : account ((Deed.restock source).run action s) =
        ⟨(account s).host.restock source, (account s).metrics⟩ :=
      congrArg Bridge.account (hbridge { b with host := b.host.restock source } s)
    have hpostings : (Deed.restock source).postings action s = [] := rfl
    rw [haccount, hpostings, List.map_nil, List.append_nil]
    obtain ⟨hmetrics, hcollections, harguments, hincidents, hrequests, hqueries⟩ := hexplains
    exact ⟨hmetrics, hcollections, harguments, hincidents, hrequests, hqueries⟩
  | errand e =>
    have haccount : account ((Deed.errand e).run action s) = e.posting.post (account s) :=
      (congrArg Bridge.account (hbridge _ s)).trans (e.account_run _)
    rw [haccount]
    exact hexplains.post rfl
  | access i =>
    -- The host serves the same throughout an access, so each read is as before it.
    have haccount : account ((Deed.access i).run action s) =
        (account s).posts ((Deed.access i).postings action s) := (hfetches i).account_eq s
    rw [haccount]
    exact hexplains.posts _ fun _ => rfl

/-- Books that explain the account at the beginning of a run, with the books of the run, explain
    the account at its end. -/
theorem explains_run (hbridge : ∀ b (s : σ), HasBridge.bridge.get (HasBridge.bridge.set b s) = b)
    (hfetches : ∀ i, Fetches (action i)) (deeds : List (Deed ι)) {past : Books} {s : σ}
    (hexplains : past.Explains (account s)) :
    Books.Explains (past ++ booksOf action deeds s) (account (lastOf action deeds s)) := by
  -- On the deeds, each of which adds its postings to the books so far.
  induction deeds generalizing past s with
  | nil =>
    unfold booksOf
    rw [List.append_nil]
    exact hexplains
  | cons deed deeds ih =>
    unfold booksOf
    rw [← List.append_assoc]
    exact ih (explains_deed hbridge hfetches hexplains deed)

variable (action)

/-- After every run that begins with a state, the counters of its bridge agree with what was
    asked; and so they do at every point of the run, as what was done so far is a run. -/
def Balances (s : σ) : Prop :=
  ∀ deeds : List (Deed ι),
    (booksOf action deeds s).length < 2 ^ 64 → (booksOf action deeds s).bytes < 2 ^ 64 →
      (booksOf action deeds s).Balanced (HasBridge.bridge.get (lastOf action deeds s))

variable {action}

/-- Runs balance that begin with a bridge that has asked nothing, over a host that was asked
    nothing. -/
theorem balances_of_fetches
    (hbridge : ∀ b (s : σ), HasBridge.bridge.get (HasBridge.bridge.set b s) = b)
    (hfetches : ∀ i, Fetches (action i)) {s : σ} {source : Host} {config : Config}
    (hs : HasBridge.bridge.get s = .new (Host.new.restock source) config) :
    Balances action s := by
  intro deeds hevents hbytes
  have hnew : Books.Explains [] (account s) := by
    unfold account
    rw [hs]
    exact Books.explains_nil rfl rfl rfl rfl rfl
  exact (explains_run hbridge hfetches deeds hnew).balanced hevents hbytes

end Runs

/-! ## Section 4: Bridges and contexts -/

/-- A bridge by itself is a state that holds a bridge. -/
instance : HasBridge Bridge := ⟨⟨id, fun b _ => b⟩⟩

/-- The accesses of a client do nothing but fetch. -/
theorem Client.fetches_action {σ Kind Link Valued κ ι : Type} {Record : Kind → Type}
    [HasBridge σ] [∀ k, Entity (Record k)] [DecidableEq Kind] {L : Layout σ Record Link Valued}
    (client : Client L κ ι) (access : ι) : Fetches (client.action access) := by
  rw [← client.act_plan]
  exact (client.plan access).fetches_act

/-- **The counters of a bridge are a faithful ledger.** Over a host that no other bridge uses,
    whatever it serves: after every run of calls and accesses, of a bridge by itself and of the
    contexts of all chains, the counters agree with what the host was asked.

    The books are kept deed by deed, in the order of the run, with the host as it was before each
    deed. They explain the account after every deed, and from books that explain it the counters
    can be read as long as none has run over. -/
theorem bridges_balance (source : Host) (config : Config) :
    Balances (fun access : Empty => (access.elim : Action Bridge Unit))
        (Bridge.new (Host.new.restock source) config) ∧
      Balances Evm.Access.action (Evm.Context.new (Host.new.restock source) config) ∧
      Balances Sui.Access.action (Sui.Context.new (Host.new.restock source) config) ∧
      Balances Aptos.Access.action (Aptos.Context.new (Host.new.restock source) config) := by
  refine ⟨?_, ?_, ?_, ?_⟩
  · exact balances_of_fetches (fun _ _ => rfl) (fun access => access.elim) rfl
  · exact balances_of_fetches (fun _ _ => rfl) Evm.client.fetches_action rfl
  · exact balances_of_fetches (fun _ _ => rfl) Sui.client.fetches_action rfl
  · exact balances_of_fetches (fun _ _ => rfl) Aptos.client.fetches_action rfl

/-- Blocks that cannot be decoded, and are fetched again; a parameter that is not there; blocks
    that are none, when the host serves nothing any more; and a value that is not there. -/
theorem bridges_balance_sample :
    let source := Host.new.withCollection .blocks [0x91]
    let deeds : List (Deed (Evm.Access (View Evm.Block) (View Evm.Transaction))) :=
      [.access .blocks, .access .block, .errand (.parameter "limit"), .restock .new,
        .access .blocks, .errand (.fetchArgumentValue 7)]
    let c := Evm.Context.new (Host.new.restock source) .default
    let books := booksOf Evm.Access.action deeds c
    books.length = 5 ∧ books.bytes = 2 ∧
      books.Balanced (lastOf Evm.Access.action deeds c).bridge :=
  ⟨by decide, by decide, (bridges_balance _ _).2.1 _ (by decide) (by decide)⟩

end ChainGuest
