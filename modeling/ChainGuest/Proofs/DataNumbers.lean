import Mathlib
import ChainGuest.Proofs.Incident
import ChainGuest.Proofs.Number.Exact

/-! # Numbers in data are exact

    A host that parses the data of an incident finds at each place what the guest put there,
    because a document has the shape of the data that it shows (`Datum.at?_document`). So what is
    known of the text of one number holds of every number, wherever it stands
    (`data_numbers_exact`): the host can tell integers below `10 ^ 21` exactly, and takes no
    finite number for an integer of JSON.
-/

namespace ChainGuest

open Json

/-! ## Section 1: Places -/

/-- What stands at a place: the path tells the field or item to go into, from the outside. -/
def Datum.at? : Datum → List Nat → Option Datum
  | d, [] => some d
  | .struct fields, k :: path => fields[k]?.bind fun field => field.2.at? path
  | .list items, k :: path => items[k]?.bind fun d => d.at? path
  | _, _ :: _ => none

/-- What stands at a place of a document: the path tells the member or item to go into. -/
def Json.at? : Document → List Nat → Option Document
  | j, [] => some j
  | .object members, k :: path => members[k]?.bind fun member => member.2.at? path
  | .array items, k :: path => items[k]?.bind fun j => j.at? path
  | _, _ :: _ => none

namespace Datum

theorem itemDocuments_eq_map (items : List Datum) : itemDocuments items = items.map document := by
  induction items with
  | nil => rfl
  | cons d items ih => rw [itemDocuments, ih, List.map_cons]

theorem fieldDocuments_eq_map (fields : DataFields) :
    fieldDocuments fields = fields.map fun field => (field.1, field.2.document) := by
  induction fields with
  | nil => rfl
  | cons field fields ih =>
    obtain ⟨name, d⟩ := field
    rw [fieldDocuments, ih, List.map_cons]

/-- At each place of the data the document has the document of what stands there. -/
theorem at?_document (d : Datum) (path : List Nat) :
    d.document.at? path = (d.at? path).map document := by
  -- On the path, which goes into the data and into the document at the same place.
  induction path generalizing d with
  | nil => rw [Json.at?, Datum.at?, Option.map_some]
  | cons k path ih =>
    cases d with
    | struct fields =>
      rw [document, fieldDocuments_eq_map, Json.at?, Datum.at?, List.getElem?_map]
      cases fields[k]? with
      | none => rfl
      | some field => exact ih field.2
    | list items =>
      rw [document, itemDocuments_eq_map, Json.at?, Datum.at?, List.getElem?_map]
      cases items[k]? with
      | none => rfl
      | some item => exact ih item
    | number x =>
      -- A number is written as a number or as null, and neither can be gone into.
      have hnone : Json.at? (numberDocument x) (k :: path) = none := by
        unfold numberDocument
        split <;> rfl
      exact hnone
    | null => rfl
    | text s => rfl
    | boolean b => rfl

/-- Where the data has a number, the document has what is written of it. -/
theorem written_at {d : Datum} {path : List Nat} {x : Binary64}
    (h : d.at? path = some (.number x)) :
    ∃ j, d.document.at? path = some j ∧ x.WrittenAs j := by
  refine ⟨numberDocument x, ?_, numberDocument_writtenAs x⟩
  rw [at?_document, h, Option.map_some, document]

end Datum

/-! ## Section 2: Numbers -/

/-- Every number in the data of an incident is written by what it stands for, where it stands, in
    the text of the data and in that of the incident. Integers below the bound are read back
    exactly, and only from their own token; and no number looks like an integer.

    The first two parts bring a number from its place to the document of that number alone
    (`Datum.written_at`). The others are about that document: what its token is, and what a reader
    takes the token for. -/
theorem data_numbers_exact :
    (∀ (fields : DataFields) path x, (Datum.struct fields).at? path = some (.number x) →
      ∃ root j, Json.parse? fields.toJson = some root ∧ root.at? path = some j ∧
        x.WrittenAs j) ∧
      (∀ (i : Incident) fields path x, i.data = some (.fields fields) →
        (Datum.struct fields).at? path = some (.number x) →
        ∃ front root j, Json.parse? i.toJson = some (.object (front ++ [("data", root)])) ∧
          "data" ∉ front.map Prod.fst ∧ root.at? path = some j ∧ x.WrittenAs j) ∧
      (∀ (x : Binary64) token negative (n : Nat), x.WrittenAs (.number token) →
        x.value = .finite negative n → n < 10 ^ 21 → Number.exactValue token = x.value) ∧
      (∀ (x y : Binary64) token negative negative' (n n' : Nat), x.WrittenAs (.number token) →
        y.WrittenAs (.number token) → x.value = .finite negative n → n < 10 ^ 21 →
        y.value = .finite negative' n' → n' < 10 ^ 21 → x = y) ∧
      (∀ (x : Binary64) token, x.WrittenAs (.number token) → ¬ BareInteger token) := by
  refine ⟨?_, ?_, ?_, ?_, ?_⟩
  · intro fields path x h
    obtain ⟨j, hj, hwritten⟩ := Datum.written_at h
    have hparsed : Json.parse? fields.toJson = some (Datum.struct fields).document :=
      parse?_render (Datum.document_proper (.struct fields))
    exact ⟨_, j, hparsed, hj, hwritten⟩
  · intro i fields path x hi h
    obtain ⟨j, hj, hwritten⟩ := Datum.written_at h
    have hparsed : Json.parse? i.toJson = some i.document := parse?_render i.document_proper
    rw [Incident.document_of_data hi] at hparsed
    exact ⟨i.headMembers, _, j, hparsed, i.data_not_mem_headMembers, hj, hwritten⟩
  · intro x token negative n h hx hn
    exact h.exactValue_eq hx hn
  · intro x y token negative negative' n n' h h' hx hn hy hn'
    exact h.unique h' hx hn hy hn'
  · intro x token h
    exact h.not_bareInteger

end ChainGuest
