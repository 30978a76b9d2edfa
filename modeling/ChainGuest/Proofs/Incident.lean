import Mathlib
import ChainGuest.Incident
import ChainGuest.Proofs.Json.RoundTrip
import ChainGuest.Proofs.Number.Text

/-! # Incident texts are unambiguous

    A host that parses the text of an incident finds one object, with exactly the members that
    the incident has, in their order, and with every text and every tree of data as the guest
    gave it (`Incident.toJson_shows`). Nothing that a guest writes into a text or a name can
    add, hide or change a member.

    What a document shows of data is said by a relation along the tree (`Datum.ShownBy`). The
    text is read back because all of its numbers are tokens.
-/

namespace ChainGuest

open Json

/-! ## Section 1: What documents show -/

mutual

/-- The document is this piece of data: the same tree, with tokens for numbers, and null for
    a number that is not finite. -/
inductive Datum.ShownBy : Datum → Document → Prop where
  | null : Datum.ShownBy .null .null
  | number {x : Binary64} (h : x.isFinite = true) :
      Datum.ShownBy (.number x) (.number (NumberStyle.exactIntegers.text x))
  | notFinite {x : Binary64} (h : x.isFinite = false) : Datum.ShownBy (.number x) .null
  | text (s : String) : Datum.ShownBy (.text s) (.string s)
  | boolean (b : Bool) : Datum.ShownBy (.boolean b) (.bool b)
  | struct {fields : DataFields} {members : List (String × Document)}
      (h : DataFields.ShownBy fields members) : Datum.ShownBy (.struct fields) (.object members)
  | list {items : List Datum} {documents : List Document}
      (h : Datum.AllShownBy items documents) : Datum.ShownBy (.list items) (.array documents)

/-- One document for each item, in their order. -/
inductive Datum.AllShownBy : List Datum → List Document → Prop where
  | nil : Datum.AllShownBy [] []
  | cons {d : Datum} {j : Document} {items : List Datum} {documents : List Document}
      (h : Datum.ShownBy d j) (hs : Datum.AllShownBy items documents) :
      Datum.AllShownBy (d :: items) (j :: documents)

/-- One member for each field, of the same name, in their order. -/
inductive DataFields.ShownBy : DataFields → List (String × Document) → Prop where
  | nil : DataFields.ShownBy [] []
  | cons {name : String} {d : Datum} {j : Document} {fields : DataFields}
      {members : List (String × Document)} (h : Datum.ShownBy d j)
      (hs : DataFields.ShownBy fields members) :
      DataFields.ShownBy ((name, d) :: fields) ((name, j) :: members)

end

/-- The members that show what an incident carries: one if it carries something. -/
inductive IncidentData.ShownBy : Option IncidentData → List (String × Document) → Prop where
  | none : IncidentData.ShownBy none []
  | fields {tree : DataFields} {members : List (String × Document)}
      (h : tree.ShownBy members) :
      IncidentData.ShownBy (some (.fields tree)) [("data", .object members)]
  | payload (bytes : List UInt8) :
      IncidentData.ShownBy (some (.payload bytes)) [("data", .string (Base64.encode bytes))]

/-- The members that show an incident, in their order. -/
inductive Incident.ShownBy (i : Incident) : List (String × Document) → Prop where
  | mk {data : List (String × Document)} (h : IncidentData.ShownBy i.data data) :
      ShownBy i
        ([("severity", .string i.severity.name), ("message", .string i.message)] ++
          (if i.address = "" then [] else [("address", .string i.address)]) ++
          (if i.txHash = "" then [] else [("tx_hash", .string i.txHash)]) ++ data)

/-! ## Section 2: Data -/

namespace Datum

mutual

theorem document_proper : (d : Datum) → d.document.Proper
  | .null => trivial
  | .number x => by
    unfold document numberDocument
    by_cases hfinite : x.isFinite = true
    · rw [if_pos hfinite]
      exact NumberStyle.exactIntegers.text_token hfinite
    · rw [if_neg hfinite]
      trivial
  | .text _ => trivial
  | .boolean _ => trivial
  | .struct fields => fieldDocuments_proper fields
  | .list items => itemDocuments_proper items

theorem itemDocuments_proper : (items : List Datum) → ItemsProper (itemDocuments items)
  | [] => trivial
  | d :: items => ⟨document_proper d, itemDocuments_proper items⟩

theorem fieldDocuments_proper : (fields : DataFields) → MembersProper (fieldDocuments fields)
  | [] => trivial
  | (_, d) :: fields => ⟨document_proper d, fieldDocuments_proper fields⟩

end

mutual

theorem shownBy_document : (d : Datum) → d.ShownBy d.document
  | .null => .null
  | .number x => by
    unfold document numberDocument
    by_cases hfinite : x.isFinite = true
    · rw [if_pos hfinite]
      exact .number hfinite
    · rw [if_neg hfinite]
      exact .notFinite (Bool.eq_false_iff.2 hfinite)
  | .text s => .text s
  | .boolean b => .boolean b
  | .struct fields => .struct (shownBy_fieldDocuments fields)
  | .list items => .list (allShownBy_itemDocuments items)

theorem allShownBy_itemDocuments : (items : List Datum) →
    Datum.AllShownBy items (itemDocuments items)
  | [] => .nil
  | d :: items => .cons (shownBy_document d) (allShownBy_itemDocuments items)

theorem shownBy_fieldDocuments : (fields : DataFields) →
    DataFields.ShownBy fields (fieldDocuments fields)
  | [] => .nil
  | (_, d) :: fields => .cons (shownBy_document d) (shownBy_fieldDocuments fields)

end

end Datum

/-! ## Section 3: Incidents -/

namespace Incident

/-- A member that may be left out is proper either way. -/
theorem optionalMember_proper (name text : String) :
    MembersProper (optionalMember name text) := by
  unfold optionalMember
  split
  · trivial
  · exact ⟨trivial, trivial⟩

theorem document_proper (i : Incident) : i.document.Proper := by
  have hfixed : MembersProper [("severity", .string i.severity.name),
      ("message", .string i.message)] := ⟨trivial, trivial, trivial⟩
  have hdata : MembersProper (i.data.map fun data => ("data", data.document)).toList := by
    cases i.data with
    | none => trivial
    | some data =>
      cases data with
      | fields tree => exact ⟨Datum.document_proper (.struct tree), trivial⟩
      | payload bytes => exact ⟨trivial, trivial⟩
  exact membersProper_append.2 ⟨membersProper_append.2 ⟨membersProper_append.2
    ⟨hfixed, optionalMember_proper "address" i.address⟩,
    optionalMember_proper "tx_hash" i.txHash⟩, hdata⟩

/-- A member is left out exactly if its text is empty. -/
theorem optionalMember_eq (name text : String) :
    optionalMember name text = if text = "" then [] else [(name, .string text)] := by
  simp [optionalMember]

/-- The members before the data. -/
def headMembers (i : Incident) : List (String × Document) :=
  [("severity", .string i.severity.name), ("message", .string i.message)] ++
    optionalMember "address" i.address ++ optionalMember "tx_hash" i.txHash

/-- No member before the data has its name. -/
theorem data_not_mem_headMembers (i : Incident) :
    "data" ∉ i.headMembers.map Prod.fst := by
  have hoptional : ∀ name text, name ≠ "data" →
      "data" ∉ (optionalMember name text).map Prod.fst := by
    intro name text hname hmem
    rw [optionalMember_eq] at hmem
    split at hmem
    · exact absurd hmem List.not_mem_nil
    · exact hname (List.mem_singleton.1 hmem).symm
  rw [headMembers, List.map_append, List.map_append]
  intro hmem
  rcases List.mem_append.1 hmem with hmem | hmem
  · rcases List.mem_append.1 hmem with hmem | hmem
    · exact absurd hmem (by simp)
    · exact hoptional "address" i.address (by decide) hmem
  · exact hoptional "tx_hash" i.txHash (by decide) hmem

/-- What an incident carries is its last member. -/
theorem document_of_data {i : Incident} {data : IncidentData} (h : i.data = some data) :
    i.document = .object (i.headMembers ++ [("data", data.document)]) := by
  rw [document, h]
  rfl

/-- The text of an incident has no control characters, and what is parsed from it is one object
    with the members that show the incident.

    The parser is not written for incidents: it takes any document, keeps members in their order
    and repetitions of them. So this also says that nothing is in the text besides what shows the
    incident. -/
theorem toJson_shows (i : Incident) :
    (∀ b ∈ Utf8.encode i.toJson, 0x20 ≤ b.toNat) ∧
      ∃ members, Json.parse? i.toJson = some (.object members) ∧ i.ShownBy members := by
  refine ⟨render_visible i.document_proper, _, parse?_render i.document_proper, ?_⟩
  rw [optionalMember_eq, optionalMember_eq]
  apply ShownBy.mk
  -- What the incident carries decides about the last member.
  cases i.data with
  | none => exact .none
  | some data =>
    cases data with
    | fields tree => exact .fields (Datum.shownBy_fieldDocuments tree)
    | payload bytes => exact .payload bytes

end Incident

end ChainGuest
