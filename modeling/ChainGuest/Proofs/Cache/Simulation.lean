import Mathlib
import ChainGuest.Proofs.Cache.Tally

/-! # Contexts against tallies

    A context mirrors a tally if what is kept in each of its places is what the tally says
    (`Layout.Fits`): its cells and its values hold what is remembered, its links are coherent
    with that and filled where the joins were computed, and its bridge has the same ledger.
    Places do not overlap, so one of them can be written as the tally is and the others still
    fit (`Layout.Mirrors.write`).

    A context therefore answers every plan as the tally does, and does for it what the tally
    does (`Layout.perform_agrees`).
-/

namespace ChainGuest

namespace Memo

variable {σ ε α : Type}

theorem slots?_fill (m : Memo α) (index : Nat) (a : α) :
    (m.fill index a).slots? = m.slots?.map fun slots => slots.setIfInBounds index (some a) := rfl

/-- A slot that is filled holds what it was filled with; the others are as they were. -/
theorem get?_fill_of_lt {m : Memo α} {slots : Array (Option α)} (hslots : m.slots? = some slots)
    {index : Nat} (hindex : index < slots.size) (a : α) (k : Nat) :
    (m.fill index a).get? k = if k = index then some a else m.get? k := by
  obtain ⟨slots?⟩ := m
  obtain rfl : slots? = some slots := hslots
  show (slots.setIfInBounds index (some a))[k]?.bind id = _
  by_cases hk : k = index
  · subst hk
    rw [Array.getElem?_setIfInBounds_self, if_pos hindex, if_pos rfl]
    rfl
  · rw [Array.getElem?_setIfInBounds_ne (Ne.symm hk), if_neg hk]
    rfl

/-- A table that has a size has this one if it is not fixed yet. -/
theorem size_slotsOf {m : Memo α} {size : Nat}
    (h : ∀ slots, m.slots? = some slots → slots.size = size) : (m.slotsOf size).size = size := by
  unfold slotsOf
  cases hslots : m.slots? with
  | none => simp
  | some slots => exact h slots hslots

/-- An empty slot of the table is filled with what is computed, if it can be. -/
theorem getOrInit_of_none {table : Part σ (Memo α)} (beyond : ε) {size index : Nat}
    (init : Attempt σ ε α) {s : σ} (h : (table.get s).get? index = none)
    (hindex : index < ((table.get s).slotsOf size).size) :
    getOrInit table beyond size index init s =
      (do
        let a ← init
        Attempt.modify fun s => table.set ((table.get s).fill index a) s
        return a : Attempt σ ε α) (table.set ((table.get s).fix size) s) := by
  have hslot : ((table.get s).slotsOf size)[index]? = some none := by
    rw [← get?_fix _ size] at h
    have hbind : ((table.get s).slotsOf size)[index]?.bind id = none := h
    rw [Array.getElem?_eq_getElem hindex] at hbind ⊢
    exact congrArg some hbind
  have hfixed : ((table.get s).fix size).slotsOf size = (table.get s).slotsOf size := rfl
  rcases hinit : init (table.set ((table.get s).fix size) s) with ⟨e | a, s'⟩
  · rw [Attempt.bind_of_error _ hinit]
    simp only [getOrInit, hfixed, hslot, hinit]
  · rw [Attempt.bind_of_ok _ hinit]
    simp only [getOrInit, hfixed, hslot, hinit]
    rfl

end Memo

namespace Layout

variable {σ Kind Link Valued : Type} {Record : Kind → Type}
  [HasBridge σ] [∀ k, Entity (Record k)] {L : Layout σ Record Link Valued}

/-! ## Section 1: The relation -/

/-- What is kept in a place is what the tally says. -/
def Fits (L : Layout σ Record Link Valued) (config : Config) (offer : Offer)
    (t : Tally Record Link Valued) : (p : Place Kind Link Valued) → p.Content Record → Prop
  | .bridge, b => b.config = config ∧ b.host.offer = offer ∧ b.ledger = t.ledger
  | .cell k, c => c.items? = t.records k
  | .links l, m =>
    Relation.Coherent (L.join l).related (t.records (L.parent l)) (t.records (L.child l)) m ∧
      ∀ index, (m.get? index).isSome = t.joined l index
  | .values a, m =>
    (∀ index, m.get? index = t.values a index) ∧
      ∀ slots, m.slots? = some slots →
        ∃ items, t.records (L.source a) = some items ∧ slots.size = items.length

/-- The context holds what the tally remembers, and has done what the tally has, while the
    host serves this. -/
def Mirrors (L : Layout σ Record Link Valued) (config : Config) (offer : Offer) (s : σ)
    (t : Tally Record Link Valued) : Prop :=
  ∀ p, L.Fits config offer t p ((L.part p).get s)

namespace Mirrors

variable {config : Config} {offer : Offer} {s : σ} {t t' : Tally Record Link Valued}

/-- One place is written, and what fits the others does as before.

    This is where the laws of the layout are used. The lemmas below are cases of it: one for each
    kind of place, and one for each way in which a table is changed. -/
theorem write (h : L.Mirrors config offer s t) {p : Place Kind Link Valued}
    {x : p.Content Record} {offer' : Offer} (hx : L.Fits config offer' t' p x)
    (hothers : ∀ q, q ≠ p → ∀ y, L.Fits config offer t q y → L.Fits config offer' t' q y) :
    L.Mirrors config offer' ((L.part p).set x s) t' := by
  intro q
  by_cases hq : q = p
  · subst hq
    rw [L.get_set]
    exact hx
  · rw [L.get_set_ne q p hq]
    exact hothers q hq _ (h q)

/-- The bridge goes on, and the ledger with it. -/
theorem setBridge (h : L.Mirrors config offer s t) {b : Bridge} {offer' : Offer}
    (hconfig : b.config = config) (hoffer : b.host.offer = offer') :
    L.Mirrors config offer' ((L.part .bridge).set b s) { t with ledger := b.ledger } := by
  refine h.write ⟨hconfig, hoffer, rfl⟩ fun q hq y hy => ?_
  cases q with
  | bridge => exact absurd rfl hq
  | cell k => exact hy
  | links l => exact hy
  | values a => exact hy

/-- An interlude leaves nothing that the tally would know of. -/
theorem interlude (h : L.Mirrors config offer s t) (meanwhile : List Interlude) :
    L.Mirrors config (HasBridge.bridge.get (Interlude.after meanwhile s)).host.offer
      (Interlude.after meanwhile s) t := by
  obtain ⟨hconfig, -, hledger⟩ := h .bridge
  rw [L.part_bridge] at hconfig hledger
  obtain ⟨hconfig', hledger'⟩ :=
    Interlude.foldl_run_leaves meanwhile (HasBridge.bridge.get s)
  have hset := h.setBridge (hconfig'.trans hconfig) rfl
  rw [hledger', hledger, L.part_bridge] at hset
  rw [L.bridge_after]
  exact hset

/-- A cell is filled that was empty, and the tally remembers the records.

    The tables are about loaded collections, so each of them is looked at: a table of links whose
    parents or children are these had nothing to be wrong about before, and a table of values for
    them had no size. -/
theorem setCell [DecidableEq Kind] (h : L.Mirrors config offer s t) {k : Kind}
    (hnone : t.records k = none) (items : List (Record k)) :
    L.Mirrors config offer ((L.part (.cell k)).set ⟨some items⟩ s)
      { t with records := Function.update t.records k (some items) } := by
  have hself : Function.update t.records k (some items) k = some items := Function.update_self ..
  have hne : ∀ {k'}, k' ≠ k → Function.update t.records k (some items) k' = t.records k' :=
    fun hk => Function.update_of_ne hk ..
  refine h.write (p := .cell k) hself.symm fun q hq y hy => ?_
  cases q with
  | bridge => exact hy
  | cell k' =>
    have hk : k' ≠ k := fun hk => hq (congrArg _ hk)
    have hitems : y.items? = t.records k' := hy
    exact hitems.trans (hne hk).symm
  | links l =>
    obtain ⟨hcoherent, hjoined⟩ := hy
    -- What was joined is not touched; the links must be coherent with the new records.
    refine ⟨?_, hjoined⟩
    show Relation.Coherent _ (Function.update t.records k (some items) (L.parent l))
      (Function.update t.records k (some items) (L.child l)) y
    -- A kind is not both the parents' and the children's.
    have hapart : L.parent l ≠ L.child l := L.parent_ne_child l
    by_cases hparent : L.parent l = k
    · subst hparent
      rw [hnone] at hcoherent
      rw [hself, hne hapart.symm]
      exact hcoherent.loadParents items
    · rw [hne hparent]
      by_cases hchild : L.child l = k
      · subst hchild
        rw [hnone] at hcoherent
        rw [hself]
        exact hcoherent.loadChildren items
      · rw [hne hchild]
        exact hcoherent
  | values a =>
    obtain ⟨hvalues, hsized⟩ := hy
    refine ⟨hvalues, fun slots hslots => ?_⟩
    obtain ⟨args, hargs, hsize⟩ := hsized slots hslots
    -- A table has a size only if its records are loaded.
    have hk : L.source a ≠ k := by
      rintro rfl
      exact absurd (hnone.symm.trans hargs) (by simp)
    exact ⟨args, (hne hk).trans hargs, hsize⟩

/-- A table of links is written. -/
theorem setLinks [DecidableEq Link] (h : L.Mirrors config offer s t) {l : Link} {m : Relation}
    {joined : Nat → Bool}
    (hcoherent : Relation.Coherent (L.join l).related (t.records (L.parent l))
      (t.records (L.child l)) m)
    (hjoined : ∀ index, (m.get? index).isSome = joined index) :
    L.Mirrors config offer ((L.part (.links l)).set m s)
      { t with joined := Function.update t.joined l joined } := by
  have hself : Function.update t.joined l joined l = joined := Function.update_self ..
  refine h.write (p := .links l) ⟨hcoherent, fun index => ?_⟩ fun q hq y hy => ?_
  · exact (hjoined index).trans (congrFun hself.symm index)
  · cases q with
    | bridge => exact hy
    | cell k => exact hy
    | links l' =>
      have hl : l' ≠ l := fun hl => hq (congrArg _ hl)
      have hne : Function.update t.joined l joined l' = t.joined l' :=
        Function.update_of_ne hl ..
      exact ⟨hy.1, fun index => (hy.2 index).trans (congrFun hne.symm index)⟩
    | values a => exact hy

/-- A table of values is written. -/
theorem setValues [DecidableEq Valued] (h : L.Mirrors config offer s t) {a : Valued}
    {m : Memo Value} {values : Nat → Option Value}
    (hvalues : ∀ index, m.get? index = values index)
    (hsized : ∀ slots, m.slots? = some slots →
      ∃ items, t.records (L.source a) = some items ∧ slots.size = items.length) :
    L.Mirrors config offer ((L.part (.values a)).set m s)
      { t with values := Function.update t.values a values } := by
  have hself : Function.update t.values a values a = values := Function.update_self ..
  refine h.write (p := .values a) ⟨fun index => ?_, hsized⟩ fun q hq y hy => ?_
  · exact (hvalues index).trans (congrFun hself.symm index)
  · cases q with
    | bridge => exact hy
    | cell k => exact hy
    | links l => exact hy
    | values a' =>
      have ha : a' ≠ a := fun ha => hq (congrArg _ ha)
      have hne : Function.update t.values a values a' = t.values a' :=
        Function.update_of_ne ha ..
      exact ⟨fun index => (hy.1 index).trans (congrFun hne.symm index), hy.2⟩

/-- The size of a table of links is fixed. -/
theorem fixLinks (h : L.Mirrors config offer s t) {l : Link} {ps : List (Record (L.parent l))}
    (hps : t.records (L.parent l) = some ps) :
    L.Mirrors config offer
      ((L.part (.links l)).set (((L.part (.links l)).get s).fix ps.length) s) t := by
  obtain ⟨hcoherent, hjoined⟩ := h (.links l)
  rw [hps] at hcoherent
  refine h.write (p := .links l) ⟨hps ▸ hcoherent.fix, fun index => ?_⟩ fun _ _ _ hy => hy
  rw [Memo.get?_fix]
  exact hjoined index

/-- A table of links has one slot for each parent, whether its size is fixed or not. -/
theorem size_links (h : L.Mirrors config offer s t) {l : Link}
    {ps : List (Record (L.parent l))} (hps : t.records (L.parent l) = some ps) :
    (((L.part (.links l)).get s).slotsOf ps.length).size = ps.length := by
  obtain ⟨hcoherent, -⟩ := h (.links l)
  rw [hps] at hcoherent
  exact hcoherent.size_slotsOf

/-- An empty slot of a table of links is filled, and the join is computed for its parent. -/
theorem fillLinks [DecidableEq Link] (h : L.Mirrors config offer s t) {l : Link}
    {ps : List (Record (L.parent l))} (hps : t.records (L.parent l) = some ps)
    {items : List (Record (L.child l))} (hitems : t.records (L.child l) = some items)
    {v : View (Record (L.parent l))} (hp : ps[v.index]? = some v.record)
    {slots : Array (Option (List Nat))}
    (hslots : ((L.part (.links l)).get s).slots? = some slots) :
    L.Mirrors config offer
      ((L.part (.links l)).set (((L.part (.links l)).get s).fill v.index
        (matchingIndices ((L.join l).related v.record) items)) s)
      { t with
        joined := Function.update t.joined l (Function.update (t.joined l) v.index true) } := by
  obtain ⟨hcoherent, hjoined⟩ := h (.links l)
  rw [hps, hitems] at hcoherent
  -- The view stands among the parents, and the table has one slot for each of them.
  have hindex : v.index < slots.size := by
    have hsize := h.size_links hps
    unfold Memo.slotsOf at hsize
    rw [hslots] at hsize
    exact hsize.symm ▸ (List.getElem?_eq_some_iff.1 hp).1
  refine h.setLinks ?_ fun index => ?_
  · rw [hps, hitems]
    exact hcoherent.fill hp
  · rw [Memo.get?_fill_of_lt hslots hindex, Function.update_apply, ← hjoined index]
    split <;> rfl

/-- A table of values has one slot for each record, whether its size is fixed or not. -/
theorem size_values (h : L.Mirrors config offer s t) {a : Valued}
    {items : List (Record (L.source a))} (hitems : t.records (L.source a) = some items) :
    (((L.part (.values a)).get s).slotsOf items.length).size = items.length := by
  refine Memo.size_slotsOf fun slots hslots => ?_
  obtain ⟨items', hitems', hsize⟩ := (h (.values a)).2 slots hslots
  obtain rfl : items' = items := Option.some.inj (hitems'.symm.trans hitems)
  exact hsize

/-- The size of a table of values is fixed. -/
theorem fixValues (h : L.Mirrors config offer s t) {a : Valued}
    {items : List (Record (L.source a))} (hitems : t.records (L.source a) = some items) :
    L.Mirrors config offer
      ((L.part (.values a)).set (((L.part (.values a)).get s).fix items.length) s) t := by
  refine h.write (p := .values a) ⟨fun index => ?_, fun slots hslots => ?_⟩ fun _ _ _ hy => hy
  · rw [Memo.get?_fix]
    exact (h (.values a)).1 index
  · have hfixed : ((L.part (.values a)).get s).slotsOf items.length = slots :=
      Option.some.inj hslots
    exact ⟨items, hitems, hfixed ▸ h.size_values hitems⟩

/-- An empty slot of a table of values is filled, and the tally remembers the value. -/
theorem fillValues [DecidableEq Valued] (h : L.Mirrors config offer s t) {a : Valued}
    {items : List (Record (L.source a))} (hitems : t.records (L.source a) = some items)
    {v : View (Record (L.source a))} (hrecord : items[v.index]? = some v.record)
    {slots : Array (Option Value)}
    (hslots : ((L.part (.values a)).get s).slots? = some slots) (x : Value) :
    L.Mirrors config offer
      ((L.part (.values a)).set (((L.part (.values a)).get s).fill v.index x) s)
      { t with
        values := Function.update t.values a (Function.update (t.values a) v.index (some x)) } := by
  have hsize : slots.size = items.length := by
    have hsized := h.size_values hitems
    unfold Memo.slotsOf at hsized
    rwa [hslots] at hsized
  have hindex : v.index < slots.size := hsize.symm ▸ (List.getElem?_eq_some_iff.1 hrecord).1
  refine h.setValues (fun index => ?_) fun filled hfilled => ?_
  · rw [Memo.get?_fill_of_lt hslots hindex, Function.update_apply, (h (.values a)).1 index]
  · -- Filling a slot does not change how many there are.
    rw [Memo.slots?_fill, hslots] at hfilled
    obtain rfl := Option.some.inj hfilled
    exact ⟨items, hitems, by rw [Array.size_setIfInBounds, hsize]⟩

end Mirrors

/-! ## Section 2: Agreement -/

/-- A call goes through the place of the bridge. -/
theorem call_apply (L : Layout σ Record Link Valued) {α : Type} (x : Bridge.Call α) (s : σ) :
    (call x : Action σ α) s =
      ((x ((L.part .bridge).get s)).1, (L.part .bridge).set (x ((L.part .bridge).get s)).2 s) := by
  rw [L.part_bridge]
  rfl

/-- A cell that is loaded answers without a call. -/
theorem loadCollection_of_some {α : Type} [Entity α] {cell : Part σ (Once α)} {s : σ}
    {items : List α} (h : (cell.get s).items? = some items) (kind : CollectionKind) :
    loadCollection cell kind s = (.ok items, s) := by
  unfold loadCollection Once.getOrLoad
  rw [h]

omit [HasBridge σ] in
/-- Of a record that is there its slot is asked. -/
theorem onceFor_of_some {α γ : Type} {load : Action σ (List α)} {table : Part σ (Memo γ)}
    {index : Nat} {make : α → Action σ γ} {s : σ} {records : List α} {record : α}
    (hload : load s = (.ok records, s)) (hrecord : records[index]? = some record) :
    onceFor load table index make s =
      Memo.getOrInit table (.of .strayView) records.length index (make record) s := by
  unfold onceFor
  rw [Attempt.bind_of_ok _ hload, hrecord]
  rfl

/-- A load writes its cell and the bridge only. -/
theorem get_load (L : Layout σ Record Link Valued) {p : Place Kind Link Valued}
    (hbridge : p ≠ .bridge) {k : Kind} (hk : p ≠ .cell k) (s : σ) :
    (L.part p).get (L.load k s).2 = (L.part p).get s := by
  unfold load loadCollection Once.getOrLoad
  cases ((L.part (.cell k)).get s).items? with
  | some items => rfl
  | none =>
    simp only [L.call_apply]
    rcases Bridge.fetchCollection (L.collection k) ((L.part .bridge).get s) with ⟨e | items, b⟩
    · exact L.get_set_ne _ _ hbridge _ _
    · exact (L.get_set_ne _ _ hk _ _).trans (L.get_set_ne _ _ hbridge _ _)

variable {config : Config} {offer : Offer} {s : σ} {t : Tally Record Link Valued}

/-- A load answers what the tally does, and asks when it does.

    Whether it asks depends on the cell alone, and the cell holds what the tally remembers. If it
    asks, the call is in both ledgers from then on, also if it fails. -/
theorem load_agrees [DecidableEq Kind] (h : L.Mirrors config offer s t) (k : Kind) :
    Agree (L.Mirrors config offer) (L.load k s)
      (L.tallyLoad k (offer.records config (L.collection k)) t) := by
  have hitems : ((L.part (.cell k)).get s).items? = t.records k := h (.cell k)
  cases hrecords : t.records k with
  | some items =>
    rw [tallyLoad_of_some hrecords, load, loadCollection_of_some (hitems.trans hrecords)]
    exact ⟨rfl, h⟩
  | none =>
    obtain ⟨hconfig, hoffer, hledger⟩ := h .bridge
    obtain ⟨b', hfetch, hconfig', hoffer', hledger'⟩ :=
      Bridge.fetchCollection_leaves (α := Record k) (L.collection k) ((L.part .bridge).get s)
    have hserving : ((L.part .bridge).get s).host.serving = offer.toServing :=
      congrArg Offer.toServing hoffer
    rw [hconfig, hserving] at hfetch
    -- The call is entered in both ledgers, whether it succeeds or fails.
    have hasked : L.Mirrors config offer ((L.part .bridge).set b' s)
        { t with ledger := t.ledger.fetch (L.collection k) } := by
      rw [← hledger, ← hledger']
      exact h.setBridge (hconfig'.trans hconfig) (hoffer'.trans hoffer)
    unfold load loadCollection Once.getOrLoad tallyLoad
    rw [hitems, hrecords]
    simp only [L.call_apply, hfetch]
    cases (offer.records config (L.collection k) : Except Failure (List (Record k))) with
    | error e => exact ⟨rfl, hasked⟩
    | ok items => exact ⟨rfl, hasked.setCell hrecords items⟩

/-- What is loaded already is answered without a call. -/
theorem load_of_some (h : L.Mirrors config offer s t) {k : Kind} {items : List (Record k)}
    (hitems : t.records k = some items) : L.load k s = (.ok items, s) := by
  have hcell : ((L.part (.cell k)).get s).items? = t.records k := h (.cell k)
  exact loadCollection_of_some (hcell.trans hitems) (L.collection k)

/-- A note about a join is entered in both ledgers. -/
theorem noteJoin_agrees (h : L.Mirrors config offer s t) (l : Link) (p : Record (L.parent l)) :
    ∃ s', noteJoin (L.join l).title ((L.join l).key p).1 ((L.join l).key p).2 s = (.ok (), s') ∧
      L.Mirrors config offer s' { t with ledger := t.ledger.join (L.entry l p) } ∧
        (L.part (.links l)).get s' = (L.part (.links l)).get s := by
  obtain ⟨hconfig, hoffer, hledger⟩ := h .bridge
  let b := (L.part .bridge).get s
  let noted : Bridge := { b with log := b.log ++ [L.entry l p] }
  have hnoted : noted.ledger = t.ledger.join (L.entry l p) := by
    rw [← hledger]
    show Ledger.mk _ _ ((b.log ++ [L.entry l p]).filter LogEntry.isTrace) = _
    rw [List.filter_append]
    rfl
  refine ⟨(L.part .bridge).set noted s, L.call_apply _ s, ?_, ?_⟩
  · rw [← hnoted]
    exact h.setBridge hconfig hoffer
  · exact L.get_set_ne _ _ (by simp) _ _

/-- The host is asked for the value of an argument. The call is entered in both ledgers, whether it
    succeeds or fails. -/
theorem request_agrees (h : L.Mirrors config offer s t) (id : UInt64) :
    ∃ s', call (Bridge.fetchArgumentValue id) s = (offer.value config id, s') ∧
      L.Mirrors config offer s' { t with ledger := t.ledger.request id } ∧
        ∀ a, (L.part (.values a)).get s' = (L.part (.values a)).get s := by
  obtain ⟨hconfig, hoffer, hledger⟩ := h .bridge
  obtain ⟨b', hfetch, hconfig', hoffer', hledger'⟩ :=
    Bridge.fetchArgumentValue_leaves id ((L.part .bridge).get s)
  rw [hconfig, hoffer] at hfetch
  refine ⟨(L.part .bridge).set b' s, ?_, ?_, fun a => L.get_set_ne _ _ (by simp) _ _⟩
  · rw [L.call_apply, hfetch]
  · rw [← hledger, ← hledger']
    exact h.setBridge (hconfig'.trans hconfig) (hoffer'.trans hoffer)

/-- Positions that are computed, as the tally computes them: the children are loaded, and when they
    are there the join is noted and the slot is filled, which was empty.

    The table is looked at again after the load. It is still the table that the slot was found
    empty in, since a load writes no table of links. -/
theorem compute_agrees [DecidableEq Kind] [DecidableEq Link] (h : L.Mirrors config offer s t)
    (l : Link) {v : View (Record (L.parent l))} {ps : List (Record (L.parent l))}
    (hps : t.records (L.parent l) = some ps) (hp : ps[v.index]? = some v.record)
    {slots : Array (Option (List Nat))} (hslots : ((L.part (.links l)).get s).slots? = some slots)
    (hempty : ((L.part (.links l)).get s).get? v.index = none) :
    Agree (L.Mirrors config offer)
      ((do
        let found ← (do
          let children ← (L.join l).children
          noteJoin (L.join l).title ((L.join l).key v.record).1 ((L.join l).key v.record).2
          return matchingIndices ((L.join l).related v.record) children : Action σ (List Nat))
        Attempt.modify fun s =>
          (L.part (.links l)).set (((L.part (.links l)).get s).fill v.index found) s
        return found : Action σ (List Nat)) s)
      ((do
        let items ← L.tallyLoad (L.child l) (offer.records config (L.collection (L.child l)))
        L.tallyJoin l v
        return matchingIndices ((L.join l).related v.record) items :
          Attempt (Tally Record Link Valued) Failure (List Nat)) t) := by
  have hload := load_agrees h (L.child l)
  have hlinks := L.get_load (p := .links l) (by simp) (k := L.child l) (by simp) s
  rw [show (L.join l).children = L.load (L.child l) from L.join_children l]
  simp only [bind_assoc, pure_bind]
  rcases hrun : L.load (L.child l) s with ⟨outcome, s'⟩
  rcases htally : L.tallyLoad (L.child l) (offer.records config (L.collection (L.child l))) t
    with ⟨outcome', t'⟩
  rw [hrun, htally] at hload
  rw [hrun] at hlinks
  obtain ⟨rfl, h'⟩ : outcome = outcome' ∧ L.Mirrors config offer s' t' := hload
  cases outcome with
  | error e =>
    rw [Attempt.bind_of_error _ hrun, Attempt.bind_of_error _ htally]
    exact ⟨rfl, h'⟩
  | ok items =>
    obtain ⟨hitems, hkeeps⟩ := records_of_tallyLoad htally
    obtain ⟨s'', hnote, h'', hlinks'⟩ := noteJoin_agrees h' l v.record
    have hcomputed : t'.joined l v.index = false := by
      rw [← (h' (.links l)).2 v.index, hlinks, hempty]
      rfl
    have hslots' : ((L.part (.links l)).get s'').slots? = some slots := by
      rw [hlinks', hlinks, hslots]
    rw [Attempt.bind_of_ok _ hrun, Attempt.bind_of_ok _ hnote, Attempt.bind_of_ok _ htally,
      Attempt.bind_of_ok _ (tallyJoin_of_not_joined hcomputed)]
    exact ⟨rfl, h''.fillLinks (hkeeps _ _ hps) hitems hp hslots'⟩

/-- The positions of a parent's children, and what the tally does for them: it loads the children,
    and computes the join.

    For the tally the join was computed before exactly if the slot is filled, which is what keeps
    the two in step: the note about a join is made when the slot is filled, and never again. -/
theorem indices_agrees [DecidableEq Kind] [DecidableEq Link] (h : L.Mirrors config offer s t)
    (l : Link) {v : View (Record (L.parent l))} (hv : v.StandsIn (t.records (L.parent l))) :
    Agree (L.Mirrors config offer) ((L.join l).indices v.index s)
      ((do
        let items ← L.tallyLoad (L.child l) (offer.records config (L.collection (L.child l)))
        L.tallyJoin l v
        return matchingIndices ((L.join l).related v.record) items :
          Attempt (Tally Record Link Valued) Failure (List Nat)) t) := by
  obtain ⟨ps, hps, hp⟩ := hv
  have hparents : (L.join l).parents s = (.ok ps, s) := by
    rw [L.join_parents]
    exact load_of_some h hps
  have hfixed : L.Mirrors config offer
      ((L.part (.links l)).set (((L.part (.links l)).get s).fix ps.length) s) t := h.fixLinks hps
  unfold Join.indices
  rw [onceFor_of_some hparents hp, L.join_links]
  -- The table decides: a slot that is filled is answered from, an empty one is computed.
  cases hfound : ((L.part (.links l)).get s).get? v.index with
  | some found =>
    -- A slot is filled only when the children are loaded, and then the join was computed.
    obtain ⟨hcoherent, hjoined⟩ := h (.links l)
    obtain ⟨ps', p', cs, hps', hp', hcs, rfl⟩ := hcoherent.filled v.index found hfound
    obtain rfl : ps = ps' := Option.some.inj (hps.symm.trans hps')
    obtain rfl : v.record = p' := Option.some.inj (hp.symm.trans hp')
    have hcomputed : t.joined l v.index = true := by
      rw [← hjoined v.index, hfound]
      rfl
    rw [Memo.getOrInit_of_filled _ _ _ hfound, Attempt.bind_of_ok _ (tallyLoad_of_some hcs _),
      Attempt.bind_of_ok _ (tallyJoin_of_joined hcomputed)]
    exact ⟨rfl, hfixed⟩
  | none =>
    have hindex : v.index < (((L.part (.links l)).get s).slotsOf ps.length).size := by
      rw [h.size_links hps]
      exact (List.getElem?_eq_some_iff.1 hp).1
    -- Fixing the size of the table has filled no slot of it.
    have hslots : ((L.part (.links l)).get
        ((L.part (.links l)).set (((L.part (.links l)).get s).fix ps.length) s)).slots? =
          some (((L.part (.links l)).get s).slotsOf ps.length) := by
      rw [L.get_set]
      rfl
    have hempty : ((L.part (.links l)).get
        ((L.part (.links l)).set (((L.part (.links l)).get s).fix ps.length) s)).get? v.index =
          none := by
      rw [L.get_set, Memo.get?_fix, hfound]
    rw [Memo.getOrInit_of_none _ _ hfound hindex]
    exact compute_agrees hfixed l hps hp hslots hempty

/-- A join whose children are loaded before their positions are asked for. What is looked up at
    the positions that match is there, so the look-up does not fail. -/
theorem records_first_agrees [DecidableEq Kind] [DecidableEq Link] {γ : Type}
    (h : L.Mirrors config offer s t) (l : Link) {v : View (Record (L.parent l))}
    (hv : v.StandsIn (t.records (L.parent l)))
    {lookup : List (Record (L.child l)) → List Nat → Option γ}
    {made : List (Record (L.child l)) → γ}
    (hlookup : ∀ items,
      lookup items (matchingIndices ((L.join l).related v.record) items) = some (made items)) :
    Agree (L.Mirrors config offer)
      ((do
        let items ← (L.join l).children
        let found ← (L.join l).indices v.index
        Attempt.ofOption (.of .strayView) (lookup items found) : Action σ γ) s)
      ((do
        let items ← L.tallyLoad (L.child l) (offer.records config (L.collection (L.child l)))
        L.tallyJoin l v
        return made items : Attempt (Tally Record Link Valued) Failure γ) t) := by
  rw [show (L.join l).children = L.load (L.child l) from L.join_children l]
  refine (load_agrees h (L.child l)).bind fun items s' t' htally h' => ?_
  obtain ⟨hitems, hkeeps⟩ := records_of_tallyLoad htally
  obtain ⟨ps, hps, hp⟩ := hv
  obtain ⟨t'', hjoin, -⟩ := L.tallyJoin_ok l v t'
  -- The children are there, so the tally of the positions is that of the join alone.
  have hindices := indices_agrees h' l ⟨ps, hkeeps _ _ hps, hp⟩
  rw [Attempt.bind_of_ok _ (tallyLoad_of_some hitems _), Attempt.bind_of_ok _ hjoin] at hindices
  rcases hrun : (L.join l).indices v.index s' with ⟨outcome, s''⟩
  rw [hrun] at hindices
  obtain ⟨rfl, h''⟩ : outcome = .ok (matchingIndices ((L.join l).related v.record) items) ∧
    L.Mirrors config offer s'' t'' := hindices
  rw [Attempt.bind_of_ok _ hrun, Attempt.bind_of_ok _ hjoin, hlookup]
  exact .pure h'' (made items)

/-- A join whose positions are asked for before the children. -/
theorem indices_first_agrees [DecidableEq Kind] [DecidableEq Link] {γ : Type}
    (h : L.Mirrors config offer s t) (l : Link) {v : View (Record (L.parent l))}
    (hv : v.StandsIn (t.records (L.parent l)))
    {lookup : List (Record (L.child l)) → List Nat → Option γ}
    {made : List (Record (L.child l)) → γ}
    (hlookup : ∀ items,
      lookup items (matchingIndices ((L.join l).related v.record) items) = some (made items)) :
    Agree (L.Mirrors config offer)
      ((do
        let found ← (L.join l).indices v.index
        let items ← (L.join l).children
        Attempt.ofOption (.of .strayView) (lookup items found) : Action σ γ) s)
      ((do
        let items ← L.tallyLoad (L.child l) (offer.records config (L.collection (L.child l)))
        L.tallyJoin l v
        return made items : Attempt (Tally Record Link Valued) Failure γ) t) := by
  have hindices := indices_agrees h l hv
  rcases hrun : (L.join l).indices v.index s with ⟨outcome, s'⟩
  rcases htally : L.tallyLoad (L.child l) (offer.records config (L.collection (L.child l))) t with
    ⟨e | items, t'⟩
  · rw [hrun, Attempt.bind_of_error _ htally] at hindices
    obtain ⟨rfl, h'⟩ : outcome = .error e ∧ L.Mirrors config offer s' t' := hindices
    rw [Attempt.bind_of_error _ hrun, Attempt.bind_of_error _ htally]
    exact ⟨rfl, h'⟩
  · obtain ⟨t'', hjoin, hremembered⟩ := L.tallyJoin_ok l v t'
    rw [hrun, Attempt.bind_of_ok _ htally, Attempt.bind_of_ok _ hjoin] at hindices
    obtain ⟨rfl, h'⟩ : outcome = .ok (matchingIndices ((L.join l).related v.record) items) ∧
      L.Mirrors config offer s' t'' := hindices
    -- Positions that were found are positions in children that are loaded.
    have hitems : t''.records (L.child l) = some items := by
      have hloaded : t'.records (L.child l) = some items := (records_of_tallyLoad htally).1
      have hsame : t''.records = t'.records := congrArg Remembered.records hremembered
      rw [hsame, hloaded]
    have hchildren : (L.join l).children s' = (.ok items, s') := by
      rw [L.join_children]
      exact load_of_some h' hitems
    rw [Attempt.bind_of_ok _ hrun, Attempt.bind_of_ok _ hchildren, Attempt.bind_of_ok _ htally,
      Attempt.bind_of_ok _ hjoin, hlookup]
    exact .pure h' (made items)

/-- The value of a view's record, which is fetched when the tally fetches it.

    A failed fetch leaves the slot empty, so the next one asks again; the ledger has both. -/
theorem valueOf_agrees [DecidableEq Valued] (h : L.Mirrors config offer s t) (a : Valued)
    {v : View (Record (L.source a))} (hv : v.StandsIn (t.records (L.source a))) :
    Agree (L.Mirrors config offer) (L.valueOf a v s)
      (L.tallyValue a v (offer.value config (L.argument a v.record)) t) := by
  obtain ⟨items, hitems, hrecord⟩ := hv
  have hvalue : ((L.part (.values a)).get s).get? v.index = t.values a v.index :=
    (h (.values a)).1 v.index
  have hfixed : L.Mirrors config offer
      ((L.part (.values a)).set (((L.part (.values a)).get s).fix items.length) s) t :=
    h.fixValues hitems
  unfold valueOf
  rw [onceFor_of_some (load_of_some h hitems) hrecord]
  cases hfound : t.values a v.index with
  | some x =>
    rw [Memo.getOrInit_of_filled _ _ _ (hvalue.trans hfound), tallyValue_of_some hfound]
    exact ⟨rfl, hfixed⟩
  | none =>
    have hindex : v.index < (((L.part (.values a)).get s).slotsOf items.length).size := by
      rw [h.size_values hitems]
      exact (List.getElem?_eq_some_iff.1 hrecord).1
    -- Fixing the size of the table has filled no slot of it, and asking the host does not either.
    obtain ⟨s', hcall, h', hkept⟩ := request_agrees hfixed (L.argument a v.record)
    have hslots : ((L.part (.values a)).get s').slots? =
        some (((L.part (.values a)).get s).slotsOf items.length) := by
      rw [hkept, L.get_set]
      rfl
    rw [Memo.getOrInit_of_none _ _ (hvalue.trans hfound) hindex]
    unfold tallyValue
    rw [hfound]
    cases hserved : offer.value config (L.argument a v.record) with
    | error e =>
      rw [hserved] at hcall
      rw [Attempt.bind_of_error _ hcall]
      exact ⟨rfl, h'⟩
    | ok x =>
      rw [hserved] at hcall
      rw [Attempt.bind_of_ok _ hcall]
      exact ⟨rfl, h'.fillValues hitems hrecord hslots x⟩

/-! ## Section 3: Plans -/

variable [DecidableEq Kind] [DecidableEq Link] [DecidableEq Valued]

/-- A plan through views that were handed out is answered as by the tally, and leaves what the
    tally leaves.

    One case for each form of a plan. Loads have been compared above; what is made of the records
    afterwards is the same function on both sides, but for the look-ups at positions, which find
    what a filter finds. -/
theorem act_agrees (h : L.Mirrors config offer s t) {plan : L.Plan}
    (hallowed : plan.Allowed t.toRemembered) :
    Agree (L.Mirrors config offer) (plan.act s) (plan.tally config offer t) := by
  cases plan with
  | records k =>
    exact (load_agrees h k).bind fun items _ _ _ h' => .pure h' (Reply.records k items)
  | first k title =>
    -- Taking the first of the records is a function of them, which may fail.
    have hact : Plan.act (.first k title : L.Plan) = (do
        let items ← L.load k
        Attempt.ofExcept ((firstOf title items).map (Reply.view k)) :
          Action σ (Reply Record)) := by
      simp only [Plan.act, firstView, bind_assoc]
      congr 1
      funext items
      cases items <;> rfl
    rw [hact]
    exact (load_agrees h k).bind fun items _ _ _ h' => ⟨rfl, h'⟩
  | views k =>
    have hact : Plan.act (.views k : L.Plan) = (do
        let items ← L.load k
        return Reply.views k (View.all items) : Action σ (Reply Record)) := by
      simp only [Plan.act, allViews, bind_assoc, pure_bind]
    rw [hact]
    exact (load_agrees h k).bind fun items _ _ _ h' => .pure h' (Reply.views k (View.all items))
  | join l form v =>
    -- What a join hands out is a reply in the words of the plan.
    have hreply : ∀ {γ : Type} {x : Action σ γ} {made : List (Record (L.child l)) → γ}
        (reply : γ → Reply Record),
        Agree (L.Mirrors config offer) (x s)
          ((do
            let items ← L.tallyLoad (L.child l) (offer.records config (L.collection (L.child l)))
            L.tallyJoin l v
            return made items : Attempt (Tally Record Link Valued) Failure γ) t) →
        Agree (L.Mirrors config offer) ((do return reply (← x)) s)
          ((do
            let items ← L.tallyLoad (L.child l) (offer.records config (L.collection (L.child l)))
            L.tallyJoin l v
            return reply (made items) : Attempt (Tally Record Link Valued) Failure _) t) := by
      intro γ x made reply hagree
      have hbind := hagree.bind fun found _ _ _ h' => .pure h' (reply found)
      simp only [bind_assoc, pure_bind] at hbind
      exact hbind
    cases form with
    | records =>
      refine hreply (Reply.records (L.child l)) (records_first_agrees h l hallowed fun items => ?_)
      rw [recordsAt?_matchingIndices, recordsAt_matchingIndices]
    | views =>
      refine hreply (Reply.views (L.child l)) (records_first_agrees h l hallowed fun items => ?_)
      rw [pick?_matchingIndices, pick_matchingIndices]
    | viewsByIndex =>
      refine hreply (Reply.views (L.child l)) (indices_first_agrees h l hallowed fun items => ?_)
      rw [pick?_matchingIndices, pick_matchingIndices]
  | value a v =>
    exact (valueOf_agrees h a hallowed).bind fun x _ _ _ h' => .pure h' (Reply.value x)

end Layout

end ChainGuest
