import Mathlib
import ChainGuest.Cache.Memo
import ChainGuest.Cache.View

/-! # Links between loaded collections

    A table of links says, for some of the parents, where their children stand. It is
    coherent with what is loaded if

    - it has a size only if the parents are loaded, and then one slot for each of them,
    - a slot is filled only if the children are loaded too, and then with the positions
      that a filter over the children finds.

    So a slot that is filled answers as if it had just been computed. Loading a
    collection, fixing the size of a table and filling one of its slots all keep this.
-/

namespace ChainGuest

/-! ## Section 1: Positions and filters -/

/-- Views of the records at these positions. Positions that the collection does not have are
    passed over, where `View.pick?` has nothing at all. -/
def View.pick {α : Type} (records : List α) (indices : List Nat) : List (View α) :=
  indices.filterMap fun index => records[index]?.map fun record => ⟨index, record⟩

/-- The records at these positions. Positions that the collection does not have are passed
    over, where `recordsAt?` has nothing at all. -/
def recordsAt {α : Type} (records : List α) (indices : List Nat) : List α :=
  indices.filterMap (records[·]?)

section Filter

variable {α β : Type}

/-- If there is something for each of them, nothing is passed over. -/
theorem mapM_eq_some_filterMap {f : α → Option β} {items : List α}
    (h : ∀ a ∈ items, (f a).isSome) : items.mapM f = some (items.filterMap f) := by
  -- On the items: each of them is something, so neither side stops or leaves one out.
  induction items with
  | nil => rfl
  | cons a items ih =>
    obtain ⟨b, hb⟩ := Option.isSome_iff_exists.1 (h a List.mem_cons_self)
    have hitems := ih fun a' ha' => h a' (List.mem_cons_of_mem a ha')
    rw [List.mapM_cons, hb, hitems, List.filterMap_cons, hb]
    rfl

/-- Positions that the collection has are looked up, all of them. -/
theorem pick?_of_lt {records : List α} {indices : List Nat}
    (h : ∀ i ∈ indices, i < records.length) :
    View.pick? records indices = some (View.pick records indices) :=
  mapM_eq_some_filterMap fun i hi => by simp [h i hi]

theorem recordsAt?_of_lt {records : List α} {indices : List Nat}
    (h : ∀ i ∈ indices, i < records.length) :
    recordsAt? records indices = some (recordsAt records indices) :=
  mapM_eq_some_filterMap fun i hi => by simp [h i hi]

/-- Looking records up where they stand gives them back. -/
theorem filterMap_positions {γ : Type} {records : List α} (f : Nat → α → γ)
    {pairs : List (α × Nat)} (h : ∀ pair ∈ pairs, records[pair.2]? = some pair.1) :
    (pairs.map (·.2)).filterMap (fun i => records[i]?.map (f i)) =
      pairs.map fun pair => f pair.2 pair.1 := by
  -- On the pairs, each of which finds its own record again.
  induction pairs with
  | nil => rfl
  | cons pair pairs ih =>
    have hpair : records[pair.2]? = some pair.1 := h pair List.mem_cons_self
    have hpairs : ∀ p ∈ pairs, records[p.2]? = some p.1 := fun p hp =>
      h p (List.mem_cons_of_mem pair hp)
    rw [List.map_cons, List.filterMap_cons, hpair, Option.map_some, ih hpairs, List.map_cons]

/-- The pairs that a filter over positions goes through are records where they stand. -/
theorem getElem?_of_mem_filter_zipIdx {p : α × Nat → Bool} {records : List α}
    {pair : α × Nat} (h : pair ∈ records.zipIdx.filter p) :
    records[pair.2]? = some pair.1 :=
  List.mem_zipIdx_iff_getElem?.1 (List.mem_of_mem_filter h)

theorem mem_matchingIndices {p : α → Bool} {records : List α} {i : Nat} :
    i ∈ matchingIndices p records ↔ ∃ a, records[i]? = some a ∧ p a = true := by
  unfold matchingIndices
  constructor
  · intro h
    obtain ⟨pair, hpair, rfl⟩ := List.mem_map.1 h
    exact ⟨pair.1, getElem?_of_mem_filter_zipIdx hpair, (List.mem_filter.1 hpair).2⟩
  · rintro ⟨a, ha, hp⟩
    have hpair : (a, i) ∈ records.zipIdx := List.mem_zipIdx_iff_getElem?.2 ha
    exact List.mem_map.2 ⟨(a, i), List.mem_filter.2 ⟨hpair, hp⟩, rfl⟩

/-- The positions that match are positions in the collection. -/
theorem lt_of_mem_matchingIndices {p : α → Bool} {records : List α} {i : Nat}
    (h : i ∈ matchingIndices p records) : i < records.length := by
  obtain ⟨a, ha, -⟩ := mem_matchingIndices.1 h
  exact (List.getElem?_eq_some_iff.1 ha).1

/-- The views at the positions that match are the views of the records that match. -/
theorem pick_matchingIndices (p : α → Bool) (records : List α) :
    View.pick records (matchingIndices p records) =
      (View.all records).filter fun v => p v.record := by
  unfold View.pick matchingIndices View.all
  -- Positions that were found in the collection find their records in it.
  rw [filterMap_positions (fun index record => (⟨index, record⟩ : View α))
    fun _ h => getElem?_of_mem_filter_zipIdx h, List.filter_map]
  rfl

/-- The records at the positions that match are the records that match. -/
theorem recordsAt_matchingIndices (p : α → Bool) (records : List α) :
    recordsAt records (matchingIndices p records) = records.filter p := by
  have hfound := filterMap_positions (fun _ (record : α) => record)
    fun (pair : α × Nat) (h : pair ∈ records.zipIdx.filter fun pair => p pair.1) =>
      getElem?_of_mem_filter_zipIdx h
  unfold recordsAt matchingIndices
  simp only [Option.map_id'] at hfound
  rw [hfound]
  -- The records of the pairs that are left are the records that are left.
  conv_rhs => rw [← List.zipIdx_map_fst 0 records, List.filter_map]
  rfl

/-- The positions that match are looked up, all of them. -/
theorem pick?_matchingIndices (p : α → Bool) (records : List α) :
    View.pick? records (matchingIndices p records) =
      some (View.pick records (matchingIndices p records)) :=
  pick?_of_lt fun _ hi => lt_of_mem_matchingIndices hi

theorem recordsAt?_matchingIndices (p : α → Bool) (records : List α) :
    recordsAt? records (matchingIndices p records) =
      some (recordsAt records (matchingIndices p records)) :=
  recordsAt?_of_lt fun _ hi => lt_of_mem_matchingIndices hi

/-- A view of a loaded record is the record at its position. -/
theorem getElem?_of_mem_all {records : List α} {v : View α} (h : v ∈ View.all records) :
    records[v.index]? = some v.record := by
  unfold View.all at h
  obtain ⟨pair, hpair, rfl⟩ := List.mem_map.1 h
  exact List.mem_zipIdx_iff_getElem?.1 hpair

end Filter

/-! ## Section 2: Tables -/

namespace Memo

variable {σ ε α : Type}

/-- Fixing the size fills nothing. -/
@[simp] theorem get?_fix (m : Memo α) (size index : Nat) :
    (m.fix size).get? index = m.get? index := by
  obtain ⟨slots?⟩ := m
  -- A table of empty slots answers as no table does: there is nothing in it.
  cases slots? with
  | some slots => rfl
  | none =>
    show ((Array.replicate size none)[index]?.bind id : Option α) = none
    rw [Array.getElem?_replicate]
    split <;> rfl

/-- What is found after a slot was filled was filled in, or found before. -/
theorem get?_fill {m : Memo α} {index k : Nat} {a found : α}
    (h : (m.fill index a).get? k = some found) :
    (k = index ∧ found = a) ∨ m.get? k = some found := by
  obtain ⟨slots?⟩ := m
  cases slots? with
  | none => exact absurd h (by simp [fill, get?])
  | some slots =>
    -- The slot that was filled holds what was filled in, and any other is as before.
    by_cases hk : k = index
    · subst hk
      have hslot : (slots.setIfInBounds k (some a))[k]?.bind id = some found := h
      rw [Array.getElem?_setIfInBounds_self] at hslot
      by_cases hlt : k < slots.size
      · rw [if_pos hlt] at hslot
        obtain rfl : a = found := by simpa using hslot
        exact .inl ⟨rfl, rfl⟩
      · rw [if_neg hlt] at hslot
        exact absurd hslot (by simp)
    · have hslot : (slots.setIfInBounds index (some a))[k]?.bind id = some found := h
      rw [Array.getElem?_setIfInBounds_ne (Ne.symm hk)] at hslot
      exact .inr hslot

/-- A slot that is filled is the answer; the size is fixed if it was not. -/
theorem getOrInit_of_filled {table : Part σ (Memo α)} (beyond : ε) (size : Nat) {index : Nat}
    (init : Attempt σ ε α) {s : σ} {a : α} (h : (table.get s).get? index = some a) :
    getOrInit table beyond size index init s =
      (.ok a, table.set ((table.get s).fix size) s) := by
  -- A table with a filled slot has a size, so fixing its size changes nothing.
  obtain ⟨slots, hslots⟩ : ∃ slots, (table.get s).slots? = some slots := by
    cases hslots : (table.get s).slots? with
    | none => simp [get?, hslots] at h
    | some slots => exact ⟨slots, rfl⟩
  have hslot : slots[index]? = some (some a) := by
    simpa [get?, hslots, Option.bind_eq_some_iff] using h
  unfold getOrInit
  simp only [fix, slotsOf, hslots, Option.getD_some, hslot]

/-- A slot of the table that is not filled is computed and filled. The size is fixed before the
    initializer runs, so what it sees is the state with the size fixed. -/
theorem getOrInit_of_empty {table : Part σ (Memo α)} (beyond : ε) {size index : Nat}
    {init : Attempt σ ε α} {s s' : σ} {a : α} (h : (table.get s).get? index = none)
    (hindex : index < ((table.get s).slotsOf size).size)
    (hinit : init (table.set ((table.get s).fix size) s) = (.ok a, s')) :
    getOrInit table beyond size index init s =
      (.ok a, table.set ((table.get s').fill index a) s') := by
  have hslot : ((table.get s).slotsOf size)[index]? = some none := by
    rw [← get?_fix _ size] at h
    have hbind : ((table.get s).slotsOf size)[index]?.bind id = none := h
    rw [Array.getElem?_eq_getElem hindex] at hbind ⊢
    exact congrArg some hbind
  unfold getOrInit
  simp only [fix, slotsOf, Option.getD_some] at hslot hinit ⊢
  simp only [hslot, hinit]

end Memo

/-! ## Section 3: Coherence -/

namespace Relation

variable {α β : Type}

/-- The table agrees with the collections, as far as they are loaded. -/
structure Coherent (related : α → β → Bool) (parents : Option (List α))
    (children : Option (List β)) (m : Relation) : Prop where
  size : ∀ slots, m.slots? = some slots → ∃ ps, parents = some ps ∧ slots.size = ps.length
  filled : ∀ index found, m.get? index = some found → ∃ ps p cs, parents = some ps ∧
    ps[index]? = some p ∧ children = some cs ∧ found = matchingIndices (related p) cs

namespace Coherent

variable {related : α → β → Bool} {parents : Option (List α)} {children : Option (List β)}
  {m : Relation} {ps : List α} {cs : List β}

/-- A table that nobody has used is coherent with anything. -/
theorem empty : Coherent related parents children Memo.empty where
  size _ h := absurd h (by simp [Memo.empty])
  filled _ _ h := absurd h (by simp [Memo.empty, Memo.get?])

/-- Parents can be loaded: without them there was no table yet, so there is nothing in it to be
    wrong about them. -/
theorem loadParents (h : Coherent related none children m) (ps : List α) :
    Coherent related (some ps) children m where
  size slots hslots := by
    obtain ⟨ps', hps', _⟩ := h.size slots hslots
    exact absurd hps' (by simp)
  filled index found hfound := by
    obtain ⟨ps', p, cs, hps', _⟩ := h.filled index found hfound
    exact absurd hps' (by simp)

/-- Children can be loaded: without them no slot was filled yet. -/
theorem loadChildren (h : Coherent related parents none m) (cs : List β) :
    Coherent related parents (some cs) m where
  size := h.size
  filled index found hfound := by
    obtain ⟨ps, p, cs', _, _, hcs', _⟩ := h.filled index found hfound
    exact absurd hcs' (by simp)

/-- The table has one slot for each of the parents, whether its size is fixed or not. -/
theorem size_slotsOf (h : Coherent related (some ps) children m) :
    (m.slotsOf ps.length).size = ps.length := by
  unfold Memo.slotsOf
  cases hslots : m.slots? with
  | none => simp
  | some slots =>
    obtain ⟨ps', hps', hsize⟩ := h.size slots hslots
    obtain rfl := Option.some.inj hps'
    exact hsize

/-- The size of the table can be fixed, to the number of parents. -/
theorem fix (h : Coherent related (some ps) children m) :
    Coherent related (some ps) children (m.fix ps.length) where
  size slots hslots := by
    obtain rfl : m.slotsOf ps.length = slots := Option.some.inj hslots
    exact ⟨ps, rfl, h.size_slotsOf⟩
  filled index found hfound := by
    rw [Memo.get?_fix] at hfound
    exact h.filled index found hfound

/-- A slot can be filled, with the positions that a filter over the children finds. -/
theorem fill (h : Coherent related (some ps) (some cs) m) {index : Nat} {p : α}
    (hp : ps[index]? = some p) :
    Coherent related (some ps) (some cs) (m.fill index (matchingIndices (related p) cs)) where
  size slots hslots := by
    obtain ⟨before, hbefore, rfl⟩ := Option.map_eq_some_iff.1 hslots
    obtain ⟨ps', hps', hsize⟩ := h.size before hbefore
    exact ⟨ps', hps', by rw [Array.size_setIfInBounds, hsize]⟩
  filled k found hfound := by
    -- The new slot is right by its value, the others are by what they were.
    rcases Memo.get?_fill hfound with ⟨rfl, rfl⟩ | hbefore
    · exact ⟨ps, p, cs, rfl, hp, rfl, rfl⟩
    · exact h.filled k found hbefore

/-- Looking up the positions that a slot is filled with never fails: each of them is one of a
    child. -/
theorem lookup_of_get? (h : Coherent related parents (some cs) m) {index : Nat}
    {found : List Nat} (hfound : m.get? index = some found) :
    View.pick? cs found = some (View.pick cs found) ∧
      recordsAt? cs found = some (recordsAt cs found) := by
  -- What is in the slot are the positions of a filter over these very children.
  obtain ⟨ps, p, cs', -, -, hcs', rfl⟩ := h.filled index found hfound
  obtain rfl := Option.some.inj hcs'
  exact ⟨pick?_matchingIndices _ _, recordsAt?_matchingIndices _ _⟩

end Coherent

end Relation

end ChainGuest
