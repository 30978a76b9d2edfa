import Mathlib
import ChainGuest.Proofs.Cache.Layout

/-! # References along a layout

    Two references without caches answer what is asked along a layout. The first remembers
    the records of each kind from their first load that succeeded, and by position the values
    that were fetched; it makes everything else anew (`Plan.answer`). The second also keeps a
    tally: a ledger of what it asks its host, and for which parents each join was computed
    (`Plan.tally`).

    The tally does not show in the answers (`Plan.tally_agrees`), and what is remembered stays
    remembered.
-/

namespace ChainGuest

/-- A table of tables that is written in one place. -/
theorem update_update_apply {ι α : Type} [DecidableEq ι] (f : ι → Nat → α) (i i' : ι)
    (n n' : Nat) (a : α) :
    Function.update f i (Function.update (f i) n a) i' n' =
      if i = i' ∧ n = n' then a else f i' n' := by
  by_cases hi : i = i'
  · subst hi
    rw [Function.update_self, Function.update_apply]
    simp [eq_comm]
  · rw [Function.update_of_ne (Ne.symm hi), if_neg fun h => hi h.1]

variable {σ Kind Link Valued : Type} {Record : Kind → Type}

/-! ## Section 1: Remembering by kind and by position -/

/-- The records of each kind, from their first load that succeeded, and the values of records
    by position, each from its first fetch that succeeded. -/
structure Remembered (Record : Kind → Type) (Valued : Type) where
  records : (k : Kind) → Option (List (Record k))
  values : Valued → Nat → Option Value

namespace Remembered

/-- Nothing is remembered yet. -/
def new : Remembered Record Valued := ⟨fun _ => none, fun _ _ => none⟩

/-- What is remembered of records stays remembered. -/
def Keeps (r r' : Remembered Record Valued) : Prop :=
  ∀ k items, r.records k = some items → r'.records k = some items

/-- The views in an answer stand in what is remembered of their kinds. -/
def Knows (reply : Reply Record) (r : Remembered Record Valued) : Prop :=
  ∀ k v, reply.Hands k v → v.StandsIn (r.records k)

theorem Keeps.knows {r r' : Remembered Record Valued} (h : Keeps r r') {reply : Reply Record}
    (hknows : Knows reply r) : Knows reply r' := by
  intro k v hv
  obtain ⟨items, hitems, hrecord⟩ := hknows k v hv
  exact ⟨items, h k items hitems, hrecord⟩

/-- Views that were handed out stand in what is remembered. -/
theorem standsIn_of_mem_handed [DecidableEq Kind] {history : List (Reply Record)}
    {r : Remembered Record Valued} (h : ∀ reply ∈ history, Knows reply r) {k : Kind}
    {v : View (Record k)} (hv : v ∈ history.flatMap (Reply.handed k)) :
    v.StandsIn (r.records k) := by
  obtain ⟨reply, hreply, hmem⟩ := List.mem_flatMap.1 hv
  exact h reply hreply k v (Reply.hands_of_mem_handed hmem)

/-- What is remembered of a kind. -/
def slot [DecidableEq Kind] (k : Kind) :
    Part (Remembered Record Valued) (Option (List (Record k))) :=
  ⟨fun r => r.records k, fun items r => { r with records := Function.update r.records k items }⟩

theorem get_set_slot [DecidableEq Kind] (k : Kind) (items : Option (List (Record k)))
    (r : Remembered Record Valued) : (slot k).get ((slot k).set items r) = items :=
  Function.update_self ..

variable [DecidableEq Valued]

/-- The value at a position that is remembered, or the one that is served now. A fetch that
    fails leaves nothing to remember. -/
def recallValue (a : Valued) (index : Nat) (served : Except Failure Value) :
    Attempt (Remembered Record Valued) Failure Value := fun r =>
  match r.values a index with
  | some x => (.ok x, r)
  | none =>
    match served with
    | .ok x =>
      (.ok x, { r with
        values := Function.update r.values a (Function.update (r.values a) index (some x)) })
    | .error e => (.error e, r)

/-- A value does not touch the records. -/
theorem recallValue_records (a : Valued) (index : Nat) (served : Except Failure Value)
    (r : Remembered Record Valued) : (recallValue a index served r).2.records = r.records := by
  unfold recallValue
  cases r.values a index with
  | some x => rfl
  | none => cases served <;> rfl

end Remembered

/-- What a join hands out of children that match. -/
def JoinForm.reply (form : JoinForm) (k : Kind) (p : Record k → Bool) (items : List (Record k)) :
    Reply Record :=
  match form with
  | .records => .records k (items.filter p)
  | .views | .viewsByIndex => .views k ((View.all items).filter fun w => p w.record)

namespace Layout

variable [HasBridge σ] [∀ k, Entity (Record k)] [DecidableEq Kind] [DecidableEq Valued]
  {L : Layout σ Record Link Valued}

namespace Plan

open Remembered

/-- The answer of a reference that remembers. -/
def answer (config : Config) (offer : Offer) :
    L.Plan → Attempt (Remembered Record Valued) Failure (Reply Record)
  | .records k =>
    answerFrom (slot k) (offer.records config (L.collection k)) fun items =>
      .ok (.records k items)
  | .first k title =>
    answerFrom (slot k) (offer.records config (L.collection k)) fun items =>
      (firstOf title items).map (.view k)
  | .views k =>
    answerFrom (slot k) (offer.records config (L.collection k)) fun items =>
      .ok (.views k (View.all items))
  | .join l form v =>
    answerFrom (slot (L.child l)) (offer.records config (L.collection (L.child l))) fun items =>
      .ok (form.reply (L.child l) ((L.join l).related v.record) items)
  | .value a v => do
    return .value (← recallValue a v.index (offer.value config (L.argument a v.record)))

/-- The views that a plan goes through stand in what is remembered. -/
def Allowed (r : Remembered Record Valued) : L.Plan → Prop
  | .join l _ v => v.StandsIn (r.records (L.parent l))
  | .value a v => v.StandsIn (r.records (L.source a))
  | _ => True

omit [DecidableEq Valued] in
/-- A wish is resolved to a plan through views that were handed out. -/
theorem allowed_of_resolve {history : List (Reply Record)} {wish : L.Wish} {plan : L.Plan}
    {r : Remembered Record Valued} (hknows : ∀ reply ∈ history, Knows reply r)
    (hresolve : wish.resolve history = some plan) : plan.Allowed r := by
  cases wish with
  | join l form i =>
    obtain ⟨view, hview, rfl⟩ := Option.map_eq_some_iff.1 hresolve
    exact standsIn_of_mem_handed hknows (List.mem_of_getElem? hview)
  | value a i =>
    obtain ⟨view, hview, rfl⟩ := Option.map_eq_some_iff.1 hresolve
    exact standsIn_of_mem_handed hknows (List.mem_of_getElem? hview)
  -- What is not asked through a view is always allowed.
  | records k | first k title | views k =>
    obtain rfl := Option.some.inj hresolve
    exact trivial

/-- Nothing that was remembered of records is forgotten.

    Every plan but one goes through a slot of records, which is only filled if it was empty. The
    other recalls a value and does not touch the records. -/
theorem keeps_answer (config : Config) (offer : Offer) (plan : L.Plan)
    (r : Remembered Record Valued) : Keeps r (plan.answer config offer r).2 := by
  have hslot : ∀ (k : Kind) (served : Except Failure (List (Record k)))
      (f : List (Record k) → Except Failure (Reply Record)),
      Keeps r (answerFrom (slot k) served f r).2 := by
    intro k served f
    rcases (answerFrom_spec (get_set_slot k) served f r).1 with
      hsame | ⟨hnone, items, hfilled⟩
    · rw [hsame]
      exact fun _ _ h => h
    · rw [hfilled]
      intro k' items' hitems'
      -- The slot that was filled was empty before.
      have hne : k' ≠ k := by
        rintro rfl
        exact absurd (hnone.symm.trans hitems') (by simp)
      show Function.update r.records k (some items) k' = some items'
      rw [Function.update_of_ne hne, hitems']
  cases plan with
  | records k | first k title | views k | join l form v => exact hslot _ _ _
  | value a v =>
    intro k items hitems
    show ((recallValue a v.index _ >>= fun x => pure (Reply.value x)) r).2.records k = _
    rw [Attempt.map_apply, recallValue_records, hitems]

/-- What is handed out stands in what is remembered.

    This is what allows a view to be asked through later: a record is at the position that the
    view names, in the records that were remembered when it was handed out and that stay. -/
theorem knows_answer (config : Config) (offer : Offer) (plan : L.Plan)
    (r : Remembered Record Valued) (reply : Reply Record)
    (h : (plan.answer config offer r).1 = .ok reply) :
    Knows reply (plan.answer config offer r).2 := by
  have hspec : ∀ {k : Kind} {served : Except Failure (List (Record k))}
      {f : List (Record k) → Except Failure (Reply Record)},
      (answerFrom (slot k) served f r).1 = .ok reply → ∃ items,
        (answerFrom (slot k) served f r).2.records k = some items ∧ f items = .ok reply :=
    fun h => (answerFrom_spec (get_set_slot _) _ _ r).2 reply h
  -- Views of all records, or of some of them, stand where they stand.
  have hviews : ∀ {k : Kind} {items : List (Record k)} {vs : List (View (Record k))}
      {r' : Remembered Record Valued}, r'.records k = some items →
      (∀ v ∈ vs, v ∈ View.all items) → Knows (.views k vs) r' := by
    intro k items vs r' hitems hvs k' v hv
    cases hv with
    | views hv => exact ⟨items, hitems, getElem?_of_mem_all (hvs _ hv)⟩
  cases plan with
  | records k =>
    obtain ⟨items, -, ⟨⟩⟩ := hspec h
    rintro k' v ⟨⟩
  | first k title =>
    obtain ⟨items, hitems, hreply⟩ := hspec h
    cases items with
    | nil => exact absurd hreply (by simp [firstOf, Except.map])
    | cons record items =>
      obtain rfl : Reply.view k ⟨0, record⟩ = reply := by
        simpa [firstOf, Except.map] using hreply
      rintro k' v ⟨⟩
      exact ⟨_, hitems, rfl⟩
  | views k =>
    obtain ⟨items, hitems, ⟨⟩⟩ := hspec h
    exact hviews hitems fun _ hv => hv
  | join l form v =>
    obtain ⟨items, hitems, ⟨⟩⟩ := hspec h
    cases form with
    | records =>
      rintro k' v ⟨⟩
    | views | viewsByIndex => exact hviews hitems fun _ hv => List.mem_of_mem_filter hv
  | value a v =>
    have hvalue : ((recallValue a v.index (offer.value config (L.argument a v.record)) >>=
        fun x => pure (Reply.value x)) r).1 = .ok reply := h
    rw [Attempt.map_apply] at hvalue
    obtain ⟨x, rfl⟩ : ∃ x, Reply.value x = reply := by
      cases hx : (recallValue a v.index (offer.value config (L.argument a v.record)) r).1 with
      | error e =>
        rw [hx] at hvalue
        exact absurd hvalue (by simp [Except.map])
      | ok x =>
        rw [hx] at hvalue
        exact ⟨x, by simpa [Except.map] using hvalue⟩
    rintro k' w ⟨⟩

/-- A reference looks nothing up by its position, so it never says that a position is one of
    another context: what fails is a read of the host's memory, what the bytes decode to, or the
    host has nothing where it should have something. -/
theorem answer_ne_strayView {config : Config} {offer : Offer} {plan : L.Plan}
    {r : Remembered Record Valued} {failure : Failure}
    (h : (plan.answer config offer r).1 = .error failure) : failure.cause ≠ .strayView := by
  have hserved : ∀ {k : Kind},
      (offer.records config (L.collection k) : Except Failure (List (Record k))) = .error failure →
        failure.cause ≠ .strayView := fun h => Serving.records_ne_strayView h
  cases plan with
  | records k | views k | join l form v =>
    rcases answerFrom_eq_error h with h | ⟨items, ⟨⟩⟩
    exact hserved h
  | first k title =>
    rcases answerFrom_eq_error h with h | ⟨items, h⟩
    · exact hserved h
    · cases items with
      | nil =>
        obtain rfl : Failure.of (.plain ("host returned no " ++ title)) = failure :=
          Except.error.inj h
        simp [Failure.of]
      | cons record items => exact absurd h (by simp [firstOf, Except.map])
  | value a v =>
    have hvalue : ((recallValue a v.index (offer.value config (L.argument a v.record)) >>=
        fun x => pure (Reply.value x)) r).1 = .error failure := h
    rw [Attempt.map_apply] at hvalue
    -- A value that is remembered is no failure, so what is served is one.
    have hserved : offer.value config (L.argument a v.record) = .error failure := by
      unfold recallValue at hvalue
      cases hfound : r.values a v.index with
      | some x => simp [hfound, Except.map] at hvalue
      | none =>
        cases hoffer : offer.value config (L.argument a v.record) with
        | ok x => simp [hfound, hoffer, Except.map] at hvalue
        | error e => simpa [hfound, hoffer, Except.map] using hvalue
    exact Offer.value_ne_strayView hserved

end Plan

end Layout

/-! ## Section 2: Counting -/

/-- What is remembered, and what was done for it. -/
structure Tally (Record : Kind → Type) (Link Valued : Type) extends
    Remembered Record Valued where
  /-- The parents, by position, for which a join was computed. -/
  joined : Link → Nat → Bool
  ledger : Ledger

/-- Nothing is remembered and nothing was computed, after what was done before. -/
def Tally.new (ledger : Ledger) : Tally Record Link Valued :=
  ⟨.new, fun _ _ => false, ledger⟩

namespace Layout

variable [HasBridge σ] [∀ k, Entity (Record k)]

section Machine

variable (L : Layout σ Record Link Valued)

/-- The records of a kind. A fetch is made if they are not remembered. -/
def tallyLoad [DecidableEq Kind] (k : Kind) (served : Except Failure (List (Record k))) :
    Attempt (Tally Record Link Valued) Failure (List (Record k)) := fun t =>
  match t.records k with
  | some items => (.ok items, t)
  | none =>
    let asked := { t with ledger := t.ledger.fetch (L.collection k) }
    match served with
    | .ok items =>
      (.ok items, { asked with records := Function.update t.records k (some items) })
    | .error e => (.error e, asked)

/-- A join is computed for a parent, unless it was before. -/
def tallyJoin [DecidableEq Link] (l : Link) (v : View (Record (L.parent l))) :
    Attempt (Tally Record Link Valued) Failure Unit := fun t =>
  if t.joined l v.index then (.ok (), t)
  else (.ok (), { t with
    joined := Function.update t.joined l (Function.update (t.joined l) v.index true)
    ledger := t.ledger.join (L.entry l v.record) })

/-- The value of a view's record. A fetch is made if it is not remembered. -/
def tallyValue [DecidableEq Valued] (a : Valued) (v : View (Record (L.source a)))
    (served : Except Failure Value) :
    Attempt (Tally Record Link Valued) Failure Value := fun t =>
  match t.values a v.index with
  | some x => (.ok x, t)
  | none =>
    let asked := { t with ledger := t.ledger.request (L.argument a v.record) }
    match served with
    | .ok x => (.ok x, { asked with
        values := Function.update t.values a
          (Function.update (t.values a) v.index (some x)) })
    | .error e => (.error e, asked)

variable {L}

theorem tallyLoad_of_some [DecidableEq Kind] {k : Kind} {items : List (Record k)}
    {t : Tally Record Link Valued} (h : t.records k = some items)
    (served : Except Failure (List (Record k))) : L.tallyLoad k served t = (.ok items, t) := by
  unfold tallyLoad
  rw [h]

theorem tallyJoin_of_joined [DecidableEq Link] {l : Link} {v : View (Record (L.parent l))}
    {t : Tally Record Link Valued} (h : t.joined l v.index = true) :
    L.tallyJoin l v t = (.ok (), t) := if_pos h

theorem tallyJoin_of_not_joined [DecidableEq Link] {l : Link} {v : View (Record (L.parent l))}
    {t : Tally Record Link Valued} (h : t.joined l v.index = false) :
    L.tallyJoin l v t = (.ok (), { t with
      joined := Function.update t.joined l (Function.update (t.joined l) v.index true)
      ledger := t.ledger.join (L.entry l v.record) }) := if_neg (by simp [h])

theorem tallyValue_of_some [DecidableEq Valued] {a : Valued} {v : View (Record (L.source a))}
    {x : Value} {t : Tally Record Link Valued} (h : t.values a v.index = some x)
    (served : Except Failure Value) : L.tallyValue a v served t = (.ok x, t) := by
  unfold tallyValue
  rw [h]

/-- A load that succeeds leaves its records, and those that were there. -/
theorem records_of_tallyLoad [DecidableEq Kind] {k : Kind}
    {served : Except Failure (List (Record k))} {items : List (Record k)}
    {t t' : Tally Record Link Valued} (h : L.tallyLoad k served t = (.ok items, t')) :
    t'.records k = some items ∧
      ∀ k' items', t.records k' = some items' → t'.records k' = some items' := by
  cases hrecords : t.records k with
  | some before =>
    rw [tallyLoad_of_some hrecords] at h
    obtain ⟨rfl, rfl⟩ : before = items ∧ t = t' := by simpa using h
    exact ⟨hrecords, fun _ _ h => h⟩
  | none =>
    unfold tallyLoad at h
    rw [hrecords] at h
    cases served with
    | error e => exact absurd h (by simp)
    | ok loaded =>
      obtain ⟨hok, rfl⟩ := Prod.mk.inj h
      obtain rfl : loaded = items := Except.ok.inj hok
      refine ⟨Function.update_self .., fun k' items' hitems' => ?_⟩
      have hk : k' ≠ k := by
        rintro rfl
        exact absurd (hrecords.symm.trans hitems') (by simp)
      exact (Function.update_of_ne hk ..).trans hitems'

variable (L)

/-! ### Counting does not show -/

/-- A load that counts is one that remembers. -/
theorem tallyLoad_agrees [DecidableEq Kind] (k : Kind) (served : Except Failure (List (Record k)))
    (t : Tally Record Link Valued) :
    Agree (fun t r => t.toRemembered = r) (L.tallyLoad k served t)
      (remember (Remembered.slot k) served t.toRemembered) := by
  have hslot : (Remembered.slot k).get t.toRemembered = t.records k := rfl
  unfold tallyLoad remember
  rw [hslot]
  cases t.records k with
  | some items => exact ⟨rfl, rfl⟩
  | none => cases served <;> exact ⟨rfl, rfl⟩

/-- A join always succeeds, and what is remembered stays as it is. -/
theorem tallyJoin_ok [DecidableEq Link] (l : Link) (v : View (Record (L.parent l)))
    (t : Tally Record Link Valued) :
    ∃ t', L.tallyJoin l v t = (.ok (), t') ∧ t'.toRemembered = t.toRemembered := by
  unfold tallyJoin
  cases t.joined l v.index with
  | true => exact ⟨t, rfl, rfl⟩
  | false => exact ⟨_, rfl, rfl⟩

/-- A fetch of a value that counts is one that remembers. -/
theorem tallyValue_agrees [DecidableEq Valued] (a : Valued) (v : View (Record (L.source a)))
    (served : Except Failure Value) (t : Tally Record Link Valued) :
    Agree (fun t r => t.toRemembered = r) (L.tallyValue a v served t)
      (Remembered.recallValue a v.index served t.toRemembered) := by
  unfold tallyValue Remembered.recallValue
  cases t.values a v.index with
  | some x => exact ⟨rfl, rfl⟩
  | none => cases served <;> exact ⟨rfl, rfl⟩

end Machine

namespace Plan

open Remembered

variable [DecidableEq Kind] [DecidableEq Link] [DecidableEq Valued]
  {L : Layout σ Record Link Valued}

/-- The answer of a reference that counts. -/
def tally (config : Config) (offer : Offer) :
    L.Plan → Attempt (Tally Record Link Valued) Failure (Reply Record)
  | .records k => do
    return .records k (← L.tallyLoad k (offer.records config (L.collection k)))
  | .first k title => do
    let items ← L.tallyLoad k (offer.records config (L.collection k))
    Attempt.ofExcept ((firstOf title items).map (.view k))
  | .views k => do
    return .views k (View.all (← L.tallyLoad k (offer.records config (L.collection k))))
  | .join l form v => do
    let items ← L.tallyLoad (L.child l) (offer.records config (L.collection (L.child l)))
    L.tallyJoin l v
    return form.reply (L.child l) ((L.join l).related v.record) items
  | .value a v => do
    return .value (← L.tallyValue a v (offer.value config (L.argument a v.record)))

/-- The answers are those of the reference that only remembers.

    Both run through the same steps in the same order, so they are compared step by step; a join
    is a step of the tally only, and it always succeeds. -/
theorem tally_agrees (config : Config) (offer : Offer) (plan : L.Plan)
    (t : Tally Record Link Valued) :
    Agree (fun t r => t.toRemembered = r) (plan.tally config offer t)
      (plan.answer config offer t.toRemembered) := by
  have hload := fun k => L.tallyLoad_agrees k (offer.records config (L.collection k)) t
  cases plan with
  | records k => exact (hload k).bind fun items _ _ _ h => .pure h (Reply.records k items)
  | first k title =>
    refine (hload k).bind fun items t' r' _ h => ?_
    exact ⟨rfl, h⟩
  | views k =>
    exact (hload k).bind fun items _ _ _ h => .pure h (Reply.views k (View.all items))
  | join l form v =>
    refine (hload (L.child l)).bind fun items t' r' _ h => ?_
    obtain rfl : t'.toRemembered = r' := h
    -- The join adds to the ledger, and that is not part of what is remembered.
    obtain ⟨t'', hjoin, hsame⟩ := L.tallyJoin_ok l v t'
    rw [Attempt.bind_of_ok _ hjoin]
    exact .pure hsame _
  | value a v =>
    exact (L.tallyValue_agrees a v _ t).bind fun x _ _ _ h => .pure h (Reply.value x)

end Plan

end Layout

end ChainGuest
