import Mathlib
import ChainGuest.Proofs.Cache.Client

/-! # Fetching once, and only what is asked

    The chronicle of a run has a stage for every access: what the host served, the answer, and
    the context before and after. Whatever the host serves, each stage adds to the ledger only
    what is due (`Client.AddsDue`):

    - the collection that is asked for, unless an earlier stage has loaded it;
    - the value of an argument that is asked for, unless an earlier stage had it;
    - the entry of a join that succeeds, unless an earlier stage has computed it.

    The collection of a kind is therefore fetched as often as loading it fails, and once more
    if it is ever loaded (`Client.frugal_chronicle`).

    The ledger of the context is that of a tally, and what a tally remembers is what the earlier
    stages have had (`Client.Recalls`). So it is enough to say what a plan adds to a tally
    (`Layout.Plan.counts_tally`).
-/

/-- An answer in other words is one. -/
theorem Except.isOk_map {ε α β : Type} (f : α → β) (x : Except ε α) :
    (x.map f).isOk = x.isOk := by
  cases x <;> rfl

namespace ChainGuest

open Layout Remembered

variable {σ Kind Link Valued κ ι answer γ : Type} {Record : Kind → Type}
  [HasBridge σ] [∀ k, Entity (Record k)]

/-! ## Section 1: What a plan adds to a tally -/

namespace Layout

section Machine

variable {L : Layout σ Record Link Valued}

/-- A load fetches its collection if the records are not there, and they are there after it if
    the host serves them. -/
theorem counts_tallyLoad [DecidableEq Kind] (k : Kind) (served : Except Failure (List (Record k)))
    (t : Tally Record Link Valued) :
    (∀ k', ((L.tallyLoad k served t).2.records k').isSome =
        ((t.records k').isSome || (decide (k = k') && served.isOk))) ∧
      (L.tallyLoad k served t).2.values = t.values ∧
      (L.tallyLoad k served t).2.joined = t.joined ∧
      (L.tallyLoad k served t).2.ledger =
        { t.ledger with
          collections := t.ledger.collections ++
            if (t.records k).isSome then [] else [L.collection k] } := by
  cases hrecords : t.records k with
  | some items =>
    rw [tallyLoad_of_some hrecords]
    refine ⟨fun k' => ?_, rfl, rfl, by simp⟩
    by_cases hk : k = k'
    · subst hk
      simp [hrecords]
    · simp [hk]
  | none =>
    unfold tallyLoad
    rw [hrecords]
    cases served with
    | error e => exact ⟨fun k' => by simp [Except.isOk, Except.toBool], rfl, rfl, rfl⟩
    | ok items =>
      refine ⟨fun k' => ?_, rfl, rfl, rfl⟩
      by_cases hk : k = k'
      · subst hk
        simp [Except.isOk, Except.toBool]
      · simp [hk, Function.update_of_ne (Ne.symm hk)]

/-- A join that was not computed for a parent is, with its entry. -/
theorem counts_tallyJoin [DecidableEq Link] (l : Link) (v : View (Record (L.parent l)))
    (t : Tally Record Link Valued) :
    (L.tallyJoin l v t).2.toRemembered = t.toRemembered ∧
      (∀ l' index, (L.tallyJoin l v t).2.joined l' index =
        (t.joined l' index || decide (l = l' ∧ v.index = index))) ∧
      (L.tallyJoin l v t).2.ledger =
        { t.ledger with
          joins := t.ledger.joins ++ if t.joined l v.index then [] else [L.entry l v.record] } := by
  cases hjoined : t.joined l v.index with
  | true =>
    rw [tallyJoin_of_joined hjoined]
    refine ⟨rfl, fun l' index => ?_, by simp⟩
    by_cases h : l = l' ∧ v.index = index
    · obtain ⟨rfl, rfl⟩ := h
      simp [hjoined]
    · rw [decide_eq_false h, Bool.or_false]
  | false =>
    rw [tallyJoin_of_not_joined hjoined]
    refine ⟨rfl, fun l' index => ?_, rfl⟩
    show Function.update t.joined l (Function.update (t.joined l) v.index true) l' index = _
    rw [update_update_apply]
    by_cases h : l = l' ∧ v.index = index
    · rw [if_pos h, decide_eq_true h, Bool.or_true]
    · rw [if_neg h, decide_eq_false h, Bool.or_false]

/-- A value that is not there is fetched, and is there after it if the fetch succeeds. -/
theorem counts_tallyValue [DecidableEq Valued] (a : Valued) (v : View (Record (L.source a)))
    (served : Except Failure Value) (t : Tally Record Link Valued) :
    (L.tallyValue a v served t).2.records = t.records ∧
      (L.tallyValue a v served t).2.joined = t.joined ∧
      (∀ a' index, ((L.tallyValue a v served t).2.values a' index).isSome =
        ((t.values a' index).isSome ||
          (decide (a = a' ∧ v.index = index) && (L.tallyValue a v served t).1.isOk))) ∧
      (L.tallyValue a v served t).2.ledger =
        { t.ledger with
          arguments := t.ledger.arguments ++
            if (t.values a v.index).isSome then [] else [L.argument a v.record] } := by
  cases hvalue : t.values a v.index with
  | some x =>
    rw [tallyValue_of_some hvalue]
    refine ⟨rfl, rfl, fun a' index => ?_, by simp⟩
    by_cases h : a = a' ∧ v.index = index
    · obtain ⟨rfl, rfl⟩ := h
      simp [hvalue]
    · rw [decide_eq_false h, Bool.false_and, Bool.or_false]
  | none =>
    unfold tallyValue
    rw [hvalue]
    cases served with
    | error e => exact ⟨rfl, rfl, fun a' index => by simp [Except.isOk, Except.toBool], rfl⟩
    | ok x =>
      refine ⟨rfl, rfl, fun a' index => ?_, rfl⟩
      show (Function.update t.values a (Function.update (t.values a) v.index (some x)) a'
        index).isSome = _
      rw [update_update_apply]
      by_cases h : a = a' ∧ v.index = index
      · rw [if_pos h, decide_eq_true h]
        exact (Bool.or_true _).symm
      · rw [if_neg h, decide_eq_false h, Bool.false_and, Bool.or_false]

end Machine

namespace Plan

variable {L : Layout σ Record Link Valued}

/-! ### What is asked, and what is due for it -/

section Asking

variable [DecidableEq Kind]

/-- The plan asks for the records of a kind while the host serves some that can be read. -/
def loads (config : Config) (serving : Serving) (k : Kind) (plan : L.Plan) : Bool :=
  decide (plan.subject = k) &&
    (serving.records config (L.collection k) : Except Failure (List (Record k))).isOk

/-- The plan asks for the value at a position. -/
def asksValue [DecidableEq Valued] (a : Valued) (index : Nat) : L.Plan → Bool
  | .value a' v => decide (a' = a ∧ v.index = index)
  | _ => false

/-- The plan goes along a join from a position. -/
def asksJoin [DecidableEq Link] (l : Link) (index : Nat) : L.Plan → Bool
  | .join l' _ v => decide (l' = l ∧ v.index = index)
  | _ => false

/-- The collections to fetch: the one that is asked for, if it is not loaded. -/
def fetches (loaded : Kind → Bool) (plan : L.Plan) : List CollectionKind :=
  if loaded plan.subject then [] else [L.collection plan.subject]

/-- Of the collections that are fetched, those of a kind are all if it is the kind that is asked
    for, and none if it is not. -/
theorem count_fetches (loaded : Kind → Bool) (plan : L.Plan) (k : Kind) :
    (plan.fetches loaded).count (L.collection k) =
      if plan.subject = k then (plan.fetches loaded).length else 0 := by
  unfold fetches
  by_cases hk : plan.subject = k
  · subst hk
    cases loaded plan.subject <;> simp
  · have hne : L.collection plan.subject ≠ L.collection k := L.collection_injective.ne hk
    cases loaded plan.subject <;> simp [hk, hne]

/-- The arguments to fetch the values of: the one that is asked for, if it has none. -/
def requests (valued : Valued → Nat → Bool) : L.Plan → List UInt64
  | .value a v => if valued a v.index then [] else [L.argument a v.record]
  | _ => []

/-- The entries of joins to compute: of the one that is asked for, if it was not computed. -/
def entries (joined : Link → Nat → Bool) : L.Plan → List LogEntry
  | .join l _ v => if joined l v.index then [] else [L.entry l v.record]
  | _ => []

omit [DecidableEq Kind] in
/-- A plan that asks for a value is due one fetch of it, unless the value is there. -/
theorem length_requests [DecidableEq Valued] {plan : L.Plan} {a : Valued} {index : Nat}
    (h : plan.asksValue a index) (valued : Valued → Nat → Bool) :
    (plan.requests valued).length = if valued a index then 0 else 1 := by
  cases plan with
  | value a' v =>
    obtain ⟨rfl, rfl⟩ := of_decide_eq_true h
    show (if valued a' v.index then [] else [L.argument a' v.record]).length = _
    cases valued a' v.index <;> rfl
  | records k | first k title | views k | join l form v => exact absurd h (by simp [asksValue])

omit [DecidableEq Kind] in
/-- A plan along a join is due one entry, unless the join was computed. -/
theorem length_entries [DecidableEq Link] {plan : L.Plan} {l : Link} {index : Nat}
    (h : plan.asksJoin l index) (joined : Link → Nat → Bool) :
    (plan.entries joined).length = if joined l index then 0 else 1 := by
  cases plan with
  | join l' form v =>
    obtain ⟨rfl, rfl⟩ := of_decide_eq_true h
    show (if joined l' v.index then [] else [L.entry l' v.record]).length = _
    cases joined l' v.index <;> rfl
  | records k | first k title | views k | value a v => exact absurd h (by simp [asksJoin])

end Asking

/-! ### What is added -/

variable [DecidableEq Kind] [DecidableEq Link] [DecidableEq Valued]

/-- What a plan adds to a tally, if it is `done` or not. -/
structure Counts (config : Config) (serving : Serving) (plan : L.Plan)
    (t : Tally Record Link Valued) (done : Bool) (t' : Tally Record Link Valued) : Prop where
  records : ∀ k, (t'.records k).isSome = ((t.records k).isSome || plan.loads config serving k)
  values : ∀ a index, (t'.values a index).isSome =
    ((t.values a index).isSome || (plan.asksValue a index && done))
  joined : ∀ l index, t'.joined l index = (t.joined l index || (plan.asksJoin l index && done))
  collections : t'.ledger.collections =
    t.ledger.collections ++ plan.fetches fun k => (t.records k).isSome
  arguments : t'.ledger.arguments =
    t.ledger.arguments ++ plan.requests fun a index => (t.values a index).isSome
  joins : t'.ledger.joins = t.ledger.joins ++ if done then plan.entries t.joined else []

variable {config : Config} {serving : Serving} {t : Tally Record Link Valued}

/-- A load adds what a plan adds that has no value and no join to show for it.

    The hypotheses say that of the plan: they hold of every plan that asks for records, and of a
    join that did not get as far as its children. -/
theorem counts_of_load {plan : L.Plan} {done : Bool}
    (hvalue : ∀ a index, (plan.asksValue a index && done) = false)
    (hjoin : ∀ l index, (plan.asksJoin l index && done) = false)
    (hrequests : ∀ valued, plan.requests valued = [])
    (hentries : ∀ joined, (if done then plan.entries joined else []) = []) :
    plan.Counts config serving t done
      (L.tallyLoad plan.subject (serving.records config (L.collection plan.subject)) t).2 := by
  obtain ⟨hrecords, hvalues, hjoined, hledger⟩ := counts_tallyLoad (L := L) plan.subject
    (serving.records config (L.collection plan.subject)) t
  refine ⟨fun k => ?_, fun a index => ?_, fun l index => ?_, ?_, ?_, ?_⟩
  · rw [hrecords]
    by_cases hk : plan.subject = k
    · subst hk
      rfl
    · simp [loads, hk]
  · rw [hvalues, hvalue, Bool.or_false]
  · rw [hjoined, hjoin, Bool.or_false]
  · rw [hledger]
    rfl
  · rw [hledger, hrequests, List.append_nil]
  · rw [hledger, hentries, List.append_nil]

/-- A join is computed only if its children are loaded. If the load fails, the plan adds what the
    load adds and no entry. -/
theorem counts_of_join (config : Config) (offer : Offer) (l : Link) (form : JoinForm)
    (v : View (Record (L.parent l))) :
    Counts config offer.toServing (.join l form v) t
      (Plan.tally config offer (.join l form v) t).1.isOk
      (Plan.tally config offer (.join l form v) t).2 := by
  have hloaded : Counts config offer.toServing (.join l form v) t false
      (L.tallyLoad (L.child l) (offer.records config (L.collection (L.child l))) t).2 :=
    counts_of_load (fun _ _ => rfl) (fun _ _ => Bool.and_false _) (fun _ => rfl) fun _ => rfl
  have htally : (Plan.tally config offer (.join l form v) : Attempt _ Failure (Reply Record)) =
      (do
        let items ← L.tallyLoad (L.child l) (offer.records config (L.collection (L.child l)))
        L.tallyJoin l v
        return form.reply (L.child l) ((L.join l).related v.record) items) := rfl
  rw [htally]
  rcases hload : L.tallyLoad (L.child l) (offer.records config (L.collection (L.child l))) t with
    ⟨e | items, t'⟩
  · rw [hload] at hloaded
    rw [Attempt.bind_of_error _ hload]
    exact hloaded
  · rw [hload] at hloaded
    obtain ⟨hremembered, hjoined, hledger⟩ := counts_tallyJoin (L := L) l v t'
    obtain ⟨t'', hjoin, -⟩ := L.tallyJoin_ok l v t'
    have hdone : (L.tallyJoin l v t').1 = .ok () := by rw [hjoin]
    rw [Attempt.bind_of_ok _ hload, Attempt.map_apply, hdone]
    refine ⟨fun k => ?_, fun a index => ?_, fun l' index => ?_, ?_, ?_, ?_⟩
    · rw [congrArg Remembered.records hremembered]
      exact hloaded.records k
    · rw [congrArg Remembered.values hremembered]
      exact hloaded.values a index
    · rw [hjoined, hloaded.joined, Bool.and_false, Bool.or_false]
      exact congrArg _ (Bool.and_true _).symm
    · rw [hledger]
      exact hloaded.collections
    · rw [hledger]
      exact hloaded.arguments
    · -- The load has computed no join.
      have hsame : t'.joined l v.index = t.joined l v.index := by
        rw [hloaded.joined, Bool.and_false, Bool.or_false]
      have hjoins : t'.ledger.joins = t.ledger.joins :=
        hloaded.joins.trans (List.append_nil _)
      rw [hledger, hsame, hjoins]
      rfl

/-- The records that have values are loaded when a view of them is there. So such a plan fetches
    no collection, and one value at most. -/
theorem counts_of_value (config : Config) (offer : Offer) {a : Valued}
    {v : View (Record (L.source a))} (hv : v.StandsIn (t.records (L.source a))) :
    Counts config offer.toServing (.value a v) t
      (Plan.tally config offer (.value a v) t).1.isOk
      (Plan.tally config offer (.value a v) t).2 := by
  obtain ⟨items, hitems, -⟩ := hv
  obtain ⟨hrecords, hjoined, hvalues, hledger⟩ :=
    counts_tallyValue (L := L) a v (offer.value config (L.argument a v.record)) t
  have htally : (Plan.tally config offer (.value a v) : Attempt _ Failure (Reply Record)) =
      (do return .value (← L.tallyValue a v (offer.value config (L.argument a v.record)))) := rfl
  rw [htally, Attempt.map_apply]
  rw [Except.isOk_map]
  refine ⟨fun k => ?_, fun a' index => ?_, fun l index => ?_, ?_, ?_, ?_⟩
  · rw [hrecords]
    by_cases hk : L.source a = k
    · subst hk
      rw [hitems]
      rfl
    · simp [loads, subject, hk]
  · exact hvalues a' index
  · rw [hjoined]
    exact (Bool.or_false _).symm
  · rw [hledger]
    simp [fetches, subject, hitems]
  · rw [hledger]
    rfl
  · rw [hledger]
    simp [entries]

/-- What a plan adds to a tally, if it goes through views that were handed out.

    What is remembered and what is entered are in one statement: what is due at the next plan is
    said in terms of what this one leaves. -/
theorem counts_tally (config : Config) (offer : Offer) {plan : L.Plan}
    (hallowed : plan.Allowed t.toRemembered) :
    plan.Counts config offer.toServing t (plan.tally config offer t).1.isOk
      (plan.tally config offer t).2 := by
  -- What follows a load without touching the tally leaves what the load leaves.
  have hstate : ∀ (k : Kind) (f : List (Record k) → Except Failure (Reply Record)),
      ((L.tallyLoad k (offer.records config (L.collection k)) >>= fun items =>
        Attempt.ofExcept (f items)) t).2 =
      (L.tallyLoad k (offer.records config (L.collection k)) t).2 := by
    intro k f
    rw [Attempt.bind_apply]
    rcases L.tallyLoad k (offer.records config (L.collection k)) t with ⟨e | items, t'⟩ <;> rfl
  cases plan with
  | records k =>
    have hleft := hstate k fun items => .ok (.records k items)
    rw [show (Plan.tally config offer (.records k : L.Plan) t).2 = _ from hleft]
    exact counts_of_load (fun _ _ => rfl) (fun _ _ => rfl) (fun _ => rfl) fun _ => ite_self []
  | first k title =>
    have hleft := hstate k fun items => (firstOf title items).map (.view k)
    rw [show (Plan.tally config offer (.first k title : L.Plan) t).2 = _ from hleft]
    exact counts_of_load (fun _ _ => rfl) (fun _ _ => rfl) (fun _ => rfl) fun _ => ite_self []
  | views k =>
    have hleft := hstate k fun items => .ok (.views k (View.all items))
    rw [show (Plan.tally config offer (.views k : L.Plan) t).2 = _ from hleft]
    exact counts_of_load (fun _ _ => rfl) (fun _ _ => rfl) (fun _ => rfl) fun _ => ite_self []
  | join l form v => exact counts_of_join config offer l form v
  | value a v => exact counts_of_value config offer hallowed

end Plan

end Layout

/-! ## Section 2: Chronicles -/

/-- A request, and what happens before it. -/
structure Turn (κ : Type) where
  meanwhile : List Interlude
  request : κ

/-- An access of a run: the context before it, what was answered, and the context after it. -/
structure Stage (σ ι answer : Type) where
  before : σ
  access : ι
  outcome : Except Failure answer
  after : σ

namespace Stage

variable (stage : Stage σ ι answer)

/-- The collections that the host was asked for in a stage. -/
def fetched : List CollectionKind :=
  (HasBridge.bridge.get stage.after).ledger.collections.drop
    (HasBridge.bridge.get stage.before).ledger.collections.length

/-- The arguments whose values the host was asked for in a stage. -/
def requested : List UInt64 :=
  (HasBridge.bridge.get stage.after).ledger.arguments.drop
    (HasBridge.bridge.get stage.before).ledger.arguments.length

/-- The entries that joins have made in a stage. -/
def noted : List LogEntry :=
  (HasBridge.bridge.get stage.after).ledger.joins.drop
    (HasBridge.bridge.get stage.before).ledger.joins.length

/-- The context after these stages, which began with `s`. -/
def last (s : σ) (stages : List (Stage σ ι answer)) : σ :=
  stages.foldl (fun _ stage => stage.after) s

end Stage

/-- The stages of a run. A request about a view that was not handed out cannot be made, and has
    no stage. -/
def chronicle (resolve : List answer → κ → Option ι) (action : ι → Action σ answer) :
    List (Turn κ) → List answer → σ → List (Stage σ ι answer)
  | [], _, _ => []
  | turn :: turns, history, s =>
    let before := Interlude.after turn.meanwhile s
    match resolve history turn.request with
    | none => chronicle resolve action turns history before
    | some access =>
      let (outcome, after) := action access before
      ⟨before, access, outcome, after⟩ ::
        chronicle resolve action turns (history ++ outcome.toOption.toList) after

namespace Client

variable [DecidableEq Kind] [DecidableEq Link] [DecidableEq Valued]
  {L : Layout σ Record Link Valued} (client : Client L κ ι)

/-- The stage asks for the records of a kind while the host serves some that can be read. -/
def loads (k : Kind) (stage : Stage σ ι (Reply Record)) : Bool :=
  let b := HasBridge.bridge.get stage.before
  (client.plan stage.access).loads b.config b.host.serving k

/-- The stage asks for the value at a position, and has it. -/
def hasValue (a : Valued) (index : Nat) (stage : Stage σ ι (Reply Record)) : Bool :=
  (client.plan stage.access).asksValue a index && stage.outcome.isOk

/-- The stage goes along a join from a position, and gets there. -/
def hasJoined (l : Link) (index : Nat) (stage : Stage σ ι (Reply Record)) : Bool :=
  (client.plan stage.access).asksJoin l index && stage.outcome.isOk

/-- What a stage adds to the ledger is what is due after the earlier ones. -/
structure AddsDue (earlier : List (Stage σ ι (Reply Record)))
    (stage : Stage σ ι (Reply Record)) : Prop where
  /-- The collection that is asked for is fetched, unless it was loaded. -/
  collections : (HasBridge.bridge.get stage.after).ledger.collections =
    (HasBridge.bridge.get stage.before).ledger.collections ++
      (client.plan stage.access).fetches fun k => earlier.any (client.loads k)
  /-- The value of the argument that is asked for is fetched, unless it was there. -/
  arguments : (HasBridge.bridge.get stage.after).ledger.arguments =
    (HasBridge.bridge.get stage.before).ledger.arguments ++
      (client.plan stage.access).requests fun a index => earlier.any (client.hasValue a index)
  /-- The join that is asked for is computed, unless it was or the stage fails. -/
  joins : (HasBridge.bridge.get stage.after).ledger.joins =
    (HasBridge.bridge.get stage.before).ledger.joins ++
      if stage.outcome.isOk then
        (client.plan stage.access).entries fun l index => earlier.any (client.hasJoined l index)
      else []

/-- How often the records of a kind are asked for before the host serves some that can be
    read. -/
def failures (k : Kind) (stages : List (Stage σ ι (Reply Record))) : Nat :=
  ((stages.filter fun stage => (client.plan stage.access).subject = k).takeWhile
    fun stage => !client.loads k stage).length

/-- How often the value at a position is asked for before it is had. -/
def valueFailures (a : Valued) (index : Nat) (stages : List (Stage σ ι (Reply Record))) : Nat :=
  ((stages.filter fun stage => (client.plan stage.access).asksValue a index).takeWhile
    fun stage => !client.hasValue a index stage).length

/-- Only what is asked for is fetched and computed, and that once: stage by stage, and counted
    over the whole run. -/
structure Frugal (s : σ) (stages : List (Stage σ ι (Reply Record))) : Prop where
  /-- Nothing is added between two stages, or before the first. -/
  between : ∀ earlier stage later, stages = earlier ++ stage :: later →
    (HasBridge.bridge.get stage.before).ledger =
      (HasBridge.bridge.get (Stage.last s earlier)).ledger
  /-- Each stage adds what is due after those before it. -/
  due : ∀ earlier stage later, stages = earlier ++ stage :: later → client.AddsDue earlier stage
  /-- A collection is fetched once for each load that fails, and once if it is ever loaded. -/
  fetches : ∀ k,
    (HasBridge.bridge.get (Stage.last s stages)).host.collectionFetches (L.collection k) =
      (HasBridge.bridge.get s).host.collectionFetches (L.collection k) +
        client.failures k stages + if stages.any (client.loads k) then 1 else 0
  /-- The values that the host was asked for in a run are those of its stages. -/
  requested : (HasBridge.bridge.get (Stage.last s stages)).ledger.arguments =
    (HasBridge.bridge.get s).ledger.arguments ++ stages.flatMap Stage.requested
  /-- The stages that ask for the value at a position fetch it once for each of them that fails,
      and once if it is ever had. -/
  requests : ∀ a index,
    ((stages.filter fun stage => (client.plan stage.access).asksValue a index).flatMap
        Stage.requested).length =
      client.valueFailures a index stages + if stages.any (client.hasValue a index) then 1 else 0
  /-- The entries of joins in the log of a run are those of its stages. -/
  noted : (HasBridge.bridge.get (Stage.last s stages)).ledger.joins =
    (HasBridge.bridge.get s).ledger.joins ++ stages.flatMap Stage.noted
  /-- The stages that go along a join from a position compute it once if one of them ever gets
      there, and else not at all. -/
  joins : ∀ l index,
    ((stages.filter fun stage => (client.plan stage.access).asksJoin l index).flatMap
        Stage.noted).length = if stages.any (client.hasJoined l index) then 1 else 0

/-! ## Section 3: Runs -/

variable {client} {past stages : List (Stage σ ι (Reply Record))} {s : σ}

namespace AddsDue

variable {stage : Stage σ ι (Reply Record)}

/-- The collections that are fetched in a stage are those that are due. -/
theorem fetched_eq (h : client.AddsDue past stage) :
    stage.fetched = (client.plan stage.access).fetches fun k => past.any (client.loads k) := by
  unfold Stage.fetched
  rw [h.collections, List.drop_left]

/-- The values that are fetched in a stage are those that are due. -/
theorem requested_eq (h : client.AddsDue past stage) :
    stage.requested = (client.plan stage.access).requests fun a index =>
      past.any (client.hasValue a index) := by
  unfold Stage.requested
  rw [h.arguments, List.drop_left]

/-- The entries that are made in a stage are those that are due, if the stage succeeds. -/
theorem noted_eq (h : client.AddsDue past stage) :
    stage.noted = if stage.outcome.isOk then
      (client.plan stage.access).entries fun l index => past.any (client.hasJoined l index)
      else [] := by
  unfold Stage.noted
  rw [h.joins, List.drop_left]

end AddsDue

variable (client)

/-- What the tally remembers is what the stages so far have had. -/
structure Recalls (past : List (Stage σ ι (Reply Record))) (t : Tally Record Link Valued) :
    Prop where
  records : ∀ k, (t.records k).isSome = past.any (client.loads k)
  values : ∀ a index, (t.values a index).isSome = past.any (client.hasValue a index)
  joined : ∀ l index, t.joined l index = past.any (client.hasJoined l index)

/-- The stage of an access. -/
def stage (access : ι) (s : σ) : Stage σ ι (Reply Record) :=
  ⟨s, access, (client.action access s).1, (client.action access s).2⟩

/-- One stage adds what is due, and the tally recalls it from then on.

    This is the step of the induction over a run. Its invariant has three parts: the context
    mirrors a tally, the tally knows the views that were handed out, and it remembers what the
    stages so far have had and nothing else. -/
theorem addsDue_stage {config : Config} {offer : Offer} {t : Tally Record Link Valued}
    (h : L.Mirrors config offer s t) {history : List (Reply Record)} {request : κ} {access : ι}
    (hknows : ∀ reply ∈ history, Knows reply t.toRemembered)
    (hresolve : client.resolve history request = some access) (hrecalls : client.Recalls past t) :
    client.AddsDue past (client.stage access s) ∧
      ∃ t', L.Mirrors config offer (client.action access s).2 t' ∧
        client.Recalls (past ++ [client.stage access s]) t' ∧
        ∀ reply ∈ history ++ (client.action access s).1.toOption.toList,
          Knows reply t'.toRemembered := by
  obtain ⟨hanswer, h'⟩ := client.action_agrees h hknows hresolve
  have hcounts := Plan.counts_tally config offer (client.allowed_of_resolve hknows hresolve)
  have hlater := knows_tally config offer (client.plan access) hknows
  rw [← hanswer] at hcounts hlater
  -- The ledgers of the context are those of the tallies.
  obtain ⟨hconfig, hoffer, hbefore⟩ := h .bridge
  obtain ⟨-, -, hafter⟩ := h' .bridge
  rw [L.part_bridge] at hconfig hoffer hbefore hafter
  have hloads : ∀ k, client.loads k (client.stage access s) =
      (client.plan access).loads config offer.toServing k := by
    intro k
    rw [← hconfig, ← hoffer]
    rfl
  -- What the tally remembers before the stage is what the past has had.
  have hloaded := funext hrecalls.records
  have hvalued := funext fun a => funext (hrecalls.values a)
  have hjoined := funext fun l => funext (hrecalls.joined l)
  refine ⟨⟨?_, ?_, ?_⟩, _, h', ⟨fun k => ?_, fun a index => ?_, fun l index => ?_⟩, hlater⟩
  · rw [← hloaded]
    show (HasBridge.bridge.get (client.action access s).2).ledger.collections = _
    rw [hafter, hcounts.collections, ← hbefore]
    rfl
  · rw [← hvalued]
    show (HasBridge.bridge.get (client.action access s).2).ledger.arguments = _
    rw [hafter, hcounts.arguments, ← hbefore]
    rfl
  · rw [← hjoined]
    show (HasBridge.bridge.get (client.action access s).2).ledger.joins = _
    rw [hafter, hcounts.joins, ← hbefore]
    rfl
  -- After it, this stage is part of the past.
  · rw [hcounts.records, hrecalls.records, List.any_append, List.any_cons, List.any_nil,
      Bool.or_false, hloads]
  · rw [hcounts.values, hrecalls.values, List.any_append, List.any_cons, List.any_nil,
      Bool.or_false]
    rfl
  · rw [hcounts.joined, hrecalls.joined, List.any_append, List.any_cons, List.any_nil,
      Bool.or_false]
    rfl

/-- Stages that each add what is due, with nothing added between them. -/
inductive Run : List (Stage σ ι (Reply Record)) → σ → List (Stage σ ι (Reply Record)) → Prop
  | nil {past : List (Stage σ ι (Reply Record))} (s : σ) : Run past s []
  | cons {past later : List (Stage σ ι (Reply Record))} {stage : Stage σ ι (Reply Record)} {s : σ}
      (hbetween : (HasBridge.bridge.get stage.before).ledger = (HasBridge.bridge.get s).ledger)
      (hstage : client.AddsDue past stage) (hlater : Run (past ++ [stage]) stage.after later) :
      Run past s (stage :: later)

variable {client}

/-- What follows an interlude follows what was before it. -/
theorem Run.of_interlude {meanwhile : List Interlude}
    (h : client.Run past (Interlude.after meanwhile s) stages) : client.Run past s stages := by
  have hledger : (HasBridge.bridge.get (Interlude.after meanwhile s)).ledger =
      (HasBridge.bridge.get s).ledger := by
    rw [L.bridge_after]
    exact (Interlude.foldl_run_leaves meanwhile _).2
  cases h with
  | nil => exact .nil s
  | cons hbetween hstage hlater => exact .cons (hbetween.trans hledger) hstage hlater

variable (client)

/-- A chronicle is a run: by induction on the turns, with the invariant of `addsDue_stage`. A turn
    whose request cannot be made has no stage, and what happened before it is quiet. -/
theorem run_chronicle {config : Config} {offer : Offer} {t : Tally Record Link Valued}
    (h : L.Mirrors config offer s t) {history : List (Reply Record)}
    (hknows : ∀ reply ∈ history, Knows reply t.toRemembered) (hrecalls : client.Recalls past t)
    (turns : List (Turn κ)) :
    client.Run past s (chronicle client.resolve client.action turns history s) := by
  -- On the turns, for every state, history and past.
  induction turns generalizing offer s t history past with
  | nil => exact .nil s
  | cons turn turns ih =>
    have hbefore := h.interlude turn.meanwhile
    unfold chronicle
    cases hresolve : client.resolve history turn.request with
    | none => exact (ih hbefore hknows hrecalls).of_interlude
    | some access =>
      obtain ⟨hdue, t', h', hrecalls', hknows'⟩ :=
        client.addsDue_stage hbefore hknows hresolve hrecalls
      exact Run.of_interlude (.cons rfl hdue (ih h' hknows' hrecalls'))

/-- After a chronicle, too, the context mirrors a tally. -/
theorem mirrors_last {config : Config} {offer : Offer} {t : Tally Record Link Valued}
    (h : L.Mirrors config offer s t) {history : List (Reply Record)}
    (hknows : ∀ reply ∈ history, Knows reply t.toRemembered) (turns : List (Turn κ)) :
    ∃ offer' t', L.Mirrors config offer'
      (Stage.last s (chronicle client.resolve client.action turns history s)) t' := by
  induction turns generalizing offer s t history with
  | nil => exact ⟨offer, t, h⟩
  | cons turn turns ih =>
    have hbefore := h.interlude turn.meanwhile
    unfold chronicle
    cases hresolve : client.resolve history turn.request with
    | none =>
      have hlast := ih hbefore hknows
      dsimp only
      -- What was going on before a request that could not be made shows with the next stage.
      cases hstages : chronicle client.resolve client.action turns history
          (Interlude.after turn.meanwhile s) with
      | nil => exact ⟨offer, t, h⟩
      | cons stage stages =>
        rw [hstages] at hlast
        exact hlast
    | some access =>
      obtain ⟨hanswer, h'⟩ := client.action_agrees hbefore hknows hresolve
      have hlater := knows_tally config
        (HasBridge.bridge.get (Interlude.after turn.meanwhile s)).host.offer
        (client.plan access) hknows
      rw [← hanswer] at hlater
      exact ih h' hlater

variable {client}

/-- Every stage of a run adds what is due after those before it. -/
theorem Run.due (h : client.Run past s stages) {stage : Stage σ ι (Reply Record)}
    {earlier later : List (Stage σ ι (Reply Record))}
    (hstages : stages = earlier ++ stage :: later) :
    client.AddsDue (past ++ earlier) stage := by
  -- On the run: the stage is the first one, or it is one of those behind it.
  induction h generalizing earlier with
  | nil s => exact absurd hstages (by simp)
  | cons hbetween hstage hlater ih =>
    cases earlier with
    | nil =>
      obtain ⟨rfl, -⟩ := List.cons.inj hstages
      rw [List.append_nil]
      exact hstage
    | cons first earlier =>
      obtain ⟨rfl, hrest⟩ := List.cons.inj hstages
      rw [List.append_cons]
      exact ih hrest

/-- A stage begins with the ledger that the one before it has left. -/
theorem Run.between (h : client.Run past s stages) {stage : Stage σ ι (Reply Record)}
    {earlier later : List (Stage σ ι (Reply Record))}
    (hstages : stages = earlier ++ stage :: later) :
    (HasBridge.bridge.get stage.before).ledger =
      (HasBridge.bridge.get (Stage.last s earlier)).ledger := by
  induction h generalizing earlier with
  | nil s => exact absurd hstages (by simp)
  | cons hbetween hstage hlater ih =>
    cases earlier with
    | nil =>
      obtain ⟨rfl, -⟩ := List.cons.inj hstages
      exact hbetween
    | cons first earlier =>
      obtain ⟨rfl, hrest⟩ := List.cons.inj hstages
      exact ih hrest

/-- A run adds to the ledger what its stages add, one after another. -/
theorem Run.ledger_last (h : client.Run past s stages) :
    (HasBridge.bridge.get (Stage.last s stages)).ledger =
      { collections := (HasBridge.bridge.get s).ledger.collections ++ stages.flatMap Stage.fetched
        arguments := (HasBridge.bridge.get s).ledger.arguments ++ stages.flatMap Stage.requested
        joins := (HasBridge.bridge.get s).ledger.joins ++ stages.flatMap Stage.noted } := by
  -- On the run, each stage of which adds to what the one before it has left.
  induction h with
  | nil s => simp [Stage.last]
  | @cons past later stage s hbetween hstage hlater ih =>
    have hlast : Stage.last s (stage :: later) = Stage.last stage.after later := rfl
    rw [hlast, ih, hstage.collections, hstage.arguments, hstage.joins, ← hstage.fetched_eq,
      ← hstage.requested_eq, ← hstage.noted_eq, hbetween]
    simp only [List.flatMap_cons, List.append_assoc]

/-- What is due is added until it is `done`: if each stage adds one thing when it is due, unless
    it was done before, then a run adds one for each time that it is due before it is first done,
    and one more if that ever comes. -/
theorem Run.count (h : client.Run past s stages) (due done : Stage σ ι (Reply Record) → Bool)
    (added : Stage σ ι (Reply Record) → Nat) (hdue : ∀ stage, done stage → due stage)
    (hadded : ∀ past stage, client.AddsDue past stage →
      added stage = if due stage && !past.any done then 1 else 0) :
    (stages.map added).sum =
      if past.any done then 0
      else ((stages.filter due).takeWhile fun stage => !done stage).length +
        if stages.any done then 1 else 0 := by
  -- On the run: what was done in the past is as before, but for this one stage.
  induction h with
  | nil s => simp
  | @cons past later stage s hbetween hstage hlater ih =>
    rw [List.map_cons, List.sum_cons, hadded past stage hstage, ih, List.any_append,
      List.any_cons, List.any_cons, List.any_nil, Bool.or_false]
    cases hdone : done stage with
    | true =>
      -- From here on it was done before, so only this stage adds anything.
      rw [List.filter_cons_of_pos (hdue stage hdone), hdue stage hdone]
      cases past.any done <;> simp [hdone]
    | false =>
      cases hstage : due stage with
      | true =>
        rw [List.filter_cons_of_pos hstage]
        cases past.any done <;> simp [hdone]
        omega
      | false =>
        rw [List.filter_cons_of_neg (by simp [hstage])]
        simp

/-- A kind that was loaded is not fetched again; any other is fetched for each load that fails,
    and for the first that does not. -/
theorem Run.fetches (h : client.Run past s stages) (k : Kind) :
    (HasBridge.bridge.get (Stage.last s stages)).host.collectionFetches (L.collection k) =
      (HasBridge.bridge.get s).host.collectionFetches (L.collection k) +
        if past.any (client.loads k) then 0
        else client.failures k stages + if stages.any (client.loads k) then 1 else 0 := by
  have hcount := h.count (fun stage => decide ((client.plan stage.access).subject = k))
    (client.loads k) (fun stage => stage.fetched.count (L.collection k))
    (fun stage hloads => (Bool.and_eq_true_iff.1 hloads).1)
    (fun past stage hstage => by
      rw [hstage.fetched_eq, Plan.count_fetches]
      unfold Plan.fetches
      by_cases hsubject : (client.plan stage.access).subject = k
      · cases hloaded : past.any (client.loads k) <;> simp [hsubject, hloaded]
      · simp [hsubject])
  -- The counter of the host is read off the ledger of the whole run.
  have hledger := congrArg Ledger.collections h.ledger_last
  have hlast : (HasBridge.bridge.get (Stage.last s stages)).host.collectionFetches
      (L.collection k) = (HasBridge.bridge.get s).host.collectionFetches (L.collection k) +
        (stages.map fun stage => stage.fetched.count (L.collection k)).sum := by
    show List.count (L.collection k) (HasBridge.bridge.get (Stage.last s stages)).ledger.collections
      = _
    rw [hledger, List.count_append, List.count_flatMap]
    rfl
  rw [hlast, hcount]
  rfl

/-- The stages that `ask` add what all stages add that is asked for. -/
theorem length_flatMap_filter {β : Type} (ask : β → Bool) (added : β → List γ) (items : List β) :
    ((items.filter ask).flatMap added).length =
      (items.map fun item => if ask item then (added item).length else 0).sum := by
  -- On the items, each of which counts if it is asked for.
  induction items with
  | nil => rfl
  | cons item items ih =>
    rw [List.map_cons, List.sum_cons, ← ih]
    cases hask : ask item with
    | true => simp [hask]
    | false => simp [hask]

/-- A value is fetched for each ask that fails, and for the first that does not. -/
theorem Run.requests (h : client.Run past s stages) (a : Valued) (index : Nat) :
    ((stages.filter fun stage => (client.plan stage.access).asksValue a index).flatMap
        Stage.requested).length =
      if past.any (client.hasValue a index) then 0
      else client.valueFailures a index stages +
        if stages.any (client.hasValue a index) then 1 else 0 := by
  rw [length_flatMap_filter]
  refine h.count (fun stage => (client.plan stage.access).asksValue a index)
    (client.hasValue a index) _ (fun stage hhas => (Bool.and_eq_true_iff.1 hhas).1)
    fun past stage hstage => ?_
  cases hasks : (client.plan stage.access).asksValue a index with
  | true =>
    rw [hstage.requested_eq, if_pos rfl, Plan.length_requests hasks]
    cases past.any (client.hasValue a index) <;> rfl
  | false => rfl

/-- A join is computed for a parent the first time that a stage gets there. -/
theorem Run.joins (h : client.Run past s stages) (l : Link) (index : Nat) :
    ((stages.filter fun stage => (client.plan stage.access).asksJoin l index).flatMap
        Stage.noted).length =
      if past.any (client.hasJoined l index) then 0
      else if stages.any (client.hasJoined l index) then 1 else 0 := by
  -- A stage that does not get there adds nothing, so it is not due there either.
  have hcount := h.count (client.hasJoined l index) (client.hasJoined l index)
    (fun stage => if (client.plan stage.access).asksJoin l index then stage.noted.length else 0)
    (fun stage hhas => hhas) (fun past stage hstage => by
      cases hasks : (client.plan stage.access).asksJoin l index with
      | false => simp [hasJoined, hasks]
      | true =>
        rw [hstage.noted_eq]
        cases hok : stage.outcome.isOk with
        | false => simp [hasJoined, hok]
        | true =>
          have hlength := Plan.length_entries hasks fun l index =>
            past.any (client.hasJoined l index)
          cases hpast : past.any (client.hasJoined l index) <;>
            simp [hasJoined, hasks, hok, hlength, hpast])
  have hnone : ((stages.filter (client.hasJoined l index)).takeWhile
      fun stage => !client.hasJoined l index stage).length = 0 := by
    rw [List.length_eq_zero_iff, List.takeWhile_eq_nil_iff]
    intro hlength
    have hmem := List.getElem_mem hlength
    simp [(List.mem_filter.1 hmem).2]
  rw [length_flatMap_filter, hcount, hnone, Nat.zero_add]

/-- Whatever a client asks of a context that nothing was asked of, only what it asks for is
    fetched, and that once.

    No assumption is made on what the host serves, before the run or between its stages. A context
    that nothing was asked of mirrors a tally that remembers nothing, which is what an empty past
    recalls; the rest is read off the run that the chronicle is. -/
theorem frugal_chronicle (client : Client L κ ι) {config : Config} {offer : Offer} {s : σ}
    {ledger : Ledger} (h : L.Mirrors config offer s (.new ledger)) (turns : List (Turn κ)) :
    client.Frugal s (chronicle client.resolve client.action turns [] s) := by
  have hrun : client.Run [] s (chronicle client.resolve client.action turns [] s) :=
    client.run_chronicle h (List.forall_mem_nil _)
      ⟨fun _ => rfl, fun _ _ => rfl, fun _ _ => rfl⟩ turns
  exact {
    between := fun earlier stage later hstages => hrun.between hstages
    due := fun earlier stage later hstages => hrun.due hstages
    fetches := fun k => by
      rw [hrun.fetches k, Nat.add_assoc]
      rfl
    requested := congrArg Ledger.arguments hrun.ledger_last
    requests := fun a index => hrun.requests a index
    noted := congrArg Ledger.joins hrun.ledger_last
    joins := fun l index => hrun.joins l index }

end Client

end ChainGuest
