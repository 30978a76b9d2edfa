import Mathlib
import ChainGuest.Proofs.Cache.Links

/-! # Children shared out among parents

    Each parent's answer lists the positions of the children with its key. If no two parents
    have the same key, the children that some parent has the key of are shared out
    (`SharesOut`): each of them is in exactly one answer, and nothing else is in any.

    The parents may themselves have been found along a join (`sharesOut_through`): records with
    distinct keys keep these when they are shared out.
-/

namespace ChainGuest

variable {α β γ δ κ ν : Type}

/-! ## Section 1: Positions that match -/

/-- Positions are found in order, as a filter keeps the order of what it goes through. -/
theorem pairwise_matchingIndices (p : β → Bool) (children : List β) :
    (matchingIndices p children).Pairwise (· < ·) := by
  have hrange : (children.zipIdx.map (·.2)).Pairwise (· < ·) := by
    rw [List.zipIdx_map_snd]
    exact List.pairwise_lt_range'
  exact hrange.sublist (List.filter_sublist.map _)

/-- No position is found twice. -/
theorem nodup_matchingIndices (p : β → Bool) (children : List β) :
    (matchingIndices p children).Nodup :=
  (pairwise_matchingIndices p children).imp fun h => h.ne

/-! ## Section 2: Sharing out -/

/-- The answers share out the children that are claimed. -/
structure SharesOut (claimed : β → Bool) (children : List β) (answers : List (List Nat)) :
    Prop where
  /-- Each answer lists positions in order. -/
  increasing : ∀ found ∈ answers, found.Pairwise (· < ·)
  /-- A child that is claimed is in exactly one answer. -/
  once : ∀ i c, children[i]? = some c → claimed c = true →
    ∃! n : Nat, ∃ found, answers[n]? = some found ∧ i ∈ found
  /-- Any other position is in none. -/
  sound : ∀ found ∈ answers, ∀ i ∈ found, ∃ c, children[i]? = some c ∧ claimed c = true
  /-- One after another, the answers are the children that are claimed in some order. -/
  permutation : answers.flatten.Perm (matchingIndices claimed children)

/-- Distinct keys share out the children that have one of them.

    Here the answers are the filters for the keys, with no context around them. That a context
    hands out these filters is shown elsewhere, so what remains is a fact about lists: a child is
    in the answer of its own key and in no other. -/
theorem sharesOut_of_nodup [DecidableEq κ] {keys : List κ} (hkeys : keys.Nodup) (key : β → κ)
    (children : List β) :
    SharesOut (fun c => decide (key c ∈ keys)) children
      (keys.map fun k => matchingIndices (fun c => decide (key c = k)) children) := by
  have hmem : ∀ {k i}, i ∈ matchingIndices (fun c => decide (key c = k)) children ↔
      ∃ c, children[i]? = some c ∧ key c = k := by
    intro k i
    simp only [mem_matchingIndices, decide_eq_true_eq]
  have hsound : ∀ k ∈ keys, ∀ i ∈ matchingIndices (fun c => decide (key c = k)) children,
      ∃ c, children[i]? = some c ∧ decide (key c ∈ keys) = true := by
    intro k hk i hi
    obtain ⟨c, hc, rfl⟩ := hmem.1 hi
    exact ⟨c, hc, decide_eq_true hk⟩
  refine ⟨fun found hfound => ?_, fun i c hc hclaimed => ?_, fun found hfound => ?_, ?_⟩
  · obtain ⟨k, -, rfl⟩ := List.mem_map.1 hfound
    exact pairwise_matchingIndices _ children
  · -- A child is in the answer of its own key, which stands in one place only.
    obtain ⟨n, hn, hkey⟩ := List.mem_iff_getElem.1 (of_decide_eq_true hclaimed)
    refine ⟨n, ⟨_, ?_, hmem.2 ⟨c, hc, hkey.symm⟩⟩, ?_⟩
    · rw [List.getElem?_map, List.getElem?_eq_getElem hn, Option.map_some]
    · rintro m ⟨found, hfound, hi⟩
      rw [List.getElem?_map] at hfound
      obtain ⟨k, hk, rfl⟩ := Option.map_eq_some_iff.1 hfound
      obtain ⟨c', hc', rfl⟩ := hmem.1 hi
      obtain rfl : c' = c := Option.some.inj (hc'.symm.trans hc)
      obtain ⟨hm, hkey'⟩ := List.getElem?_eq_some_iff.1 hk
      exact (hkeys.getElem_inj_iff).1 (hkey'.trans hkey.symm)
  · obtain ⟨k, hk, rfl⟩ := List.mem_map.1 hfound
    exact hsound k hk
  · -- No answer lists a position twice, and no two answers list the same one.
    have hapart : (keys.map fun k =>
        matchingIndices (fun c => decide (key c = k)) children).Pairwise List.Disjoint := by
      refine List.pairwise_map.2 (hkeys.imp fun {k k'} hne i hi hi' => hne ?_)
      obtain ⟨c, hc, rfl⟩ := hmem.1 hi
      obtain ⟨c', hc', rfl⟩ := hmem.1 hi'
      rw [Option.some.inj (hc.symm.trans hc')]
    have hnodup : (keys.map fun k =>
        matchingIndices (fun c => decide (key c = k)) children).flatten.Nodup := by
      refine List.nodup_flatten.2 ⟨fun found hfound => ?_, hapart⟩
      obtain ⟨k, -, rfl⟩ := List.mem_map.1 hfound
      exact nodup_matchingIndices _ children
    refine (List.perm_ext_iff_of_nodup hnodup (nodup_matchingIndices _ children)).2 fun i => ?_
    rw [mem_matchingIndices, List.mem_flatten]
    constructor
    · rintro ⟨found, hfound, hi⟩
      obtain ⟨k, hk, rfl⟩ := List.mem_map.1 hfound
      exact hsound k hk i hi
    · rintro ⟨c, hc, hclaimed⟩
      exact ⟨_, List.mem_map_of_mem (of_decide_eq_true hclaimed), hmem.2 ⟨c, hc, rfl⟩⟩

-- A key that stands twice has its children handed out twice.
example : ([1, 1].map fun k => matchingIndices (fun c : Nat => decide (c = k)) [0, 1]) =
    [[1], [1]] := by decide

/-! ## Section 3: What is handed out -/

/-- What is handed out for positions is handed out for one after another. -/
structure Renders (render : List β → List Nat → List δ) : Prop where
  flatten : ∀ (children : List β) (answers : List (List Nat)),
    (answers.map (render children)).flatten = render children answers.flatten
  perm : ∀ (children : List β) {found found' : List Nat}, found.Perm found' →
    (render children found).Perm (render children found')

theorem renders_recordsAt : Renders (recordsAt (α := β)) where
  flatten _ _ := List.filterMap_flatten.symm
  perm _ _ _ h := h.filterMap _

theorem renders_pick : Renders (View.pick (α := β)) where
  flatten _ _ := List.filterMap_flatten.symm
  perm _ _ _ h := h.filterMap _

/-- What is handed out for the answers is what is handed out for the children that are
    claimed. -/
theorem SharesOut.perm_render {claimed : β → Bool} {children : List β}
    {answers : List (List Nat)} (h : SharesOut claimed children answers)
    {render : List β → List Nat → List δ} (hrender : Renders render) :
    (answers.map (render children)).flatten.Perm
      (render children (matchingIndices claimed children)) := by
  rw [hrender.flatten]
  exact hrender.perm children h.permutation

/-- The records of all views are all records. -/
theorem map_record_all (records : List α) : (View.all records).map View.record = records := by
  unfold View.all
  rw [List.map_map]
  exact List.zipIdx_map_fst 0 records

/-- What is made of the records of all views is made of all records. -/
theorem map_all (f : α → δ) (records : List α) :
    (View.all records).map (fun v => f v.record) = records.map f := by
  conv_rhs => rw [← map_record_all records, List.map_map]
  rfl

/-- So it is of views that are chosen by their records. -/
theorem map_filter_all (p : α → Bool) (f : α → δ) (records : List α) :
    ((View.all records).filter fun v => p v.record).map (fun v => f v.record) =
      (records.filter p).map f := by
  conv_rhs => rw [← map_record_all records, List.filter_map, List.map_map]
  rfl

/-! ## Section 4: Two joins, one after the other -/

section Through

variable [DecidableEq κ] [DecidableEq ν]

/-- The records that were shared out are those that some key claims. -/
theorem perm_filter_of_nodup {keys : List κ} (hkeys : keys.Nodup) (key : β → κ)
    (records : List β) :
    (keys.flatMap fun k => records.filter fun b => decide (key b = k)).Perm
      (records.filter fun b => decide (key b ∈ keys)) := by
  have hperm := (sharesOut_of_nodup hkeys key records).perm_render renders_recordsAt
  rw [recordsAt_matchingIndices, List.map_map] at hperm
  simpa only [Function.comp_def, recordsAt_matchingIndices, List.flatMap_def] using hperm

/-- Records with distinct keys, that were shared out among distinct keys themselves, share out the
    children that one of them has the key of.

    The two levels reduce to one. The records that are visited are a selection of all records in
    some order, so their keys are distinct again, and these share out the children. -/
theorem sharesOut_through {keys : List κ} (hkeys : keys.Nodup) (key : β → κ) {records : List β}
    {recordKey : β → ν} (hrecords : (records.map recordKey).Nodup) (childKey : γ → ν)
    (children : List γ) :
    SharesOut
      (fun c => decide (∃ b ∈ records, key b ∈ keys ∧ recordKey b = childKey c)) children
      (keys.map fun k => (records.filter fun b => decide (key b = k)).map fun b =>
        matchingIndices (fun c => decide (childKey c = recordKey b)) children).flatten := by
  let visited := keys.flatMap fun k => records.filter fun b => decide (key b = k)
  have hperm : visited.Perm (records.filter fun b => decide (key b ∈ keys)) :=
    perm_filter_of_nodup hkeys key records
  -- The records that are visited are some of the records, each of them once.
  have hvisited : (visited.map recordKey).Nodup :=
    (hperm.map recordKey).nodup_iff.2 (hrecords.sublist (List.filter_sublist.map recordKey))
  have hclaimed : (fun c => decide (childKey c ∈ visited.map recordKey)) =
      fun c => decide (∃ b ∈ records, key b ∈ keys ∧ recordKey b = childKey c) := by
    funext c
    have hmem : childKey c ∈ visited.map recordKey ↔
        ∃ b ∈ records, key b ∈ keys ∧ recordKey b = childKey c := by
      rw [List.mem_map]
      simp only [hperm.mem_iff, List.mem_filter, decide_eq_true_eq, and_assoc]
    exact decide_eq_decide.2 hmem
  have hfound : (keys.map fun k => (records.filter fun b => decide (key b = k)).map fun b =>
        matchingIndices (fun c => decide (childKey c = recordKey b)) children).flatten =
      (visited.map recordKey).map fun k =>
        matchingIndices (fun c => decide (childKey c = k)) children := by
    rw [List.map_map, List.map_flatMap, List.flatMap_def]
    rfl
  rw [← hclaimed, hfound]
  exact sharesOut_of_nodup hvisited childKey children

end Through

end ChainGuest
