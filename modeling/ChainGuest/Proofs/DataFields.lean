import Mathlib
import ChainGuest.Proofs.Incident

/-! # Names in data are unique

    Data grows by calls that each add one field. A tree of data that was made by nothing but
    such calls, down to the structs inside it and inside its lists, has no name twice in one
    struct (`Datum.NamesDistinct`).

    A call is accepted if its name is not there yet. The fields are at any time those of the
    accepted calls, in the order of the calls (`AddCall.fieldsAfter_eq_append`), so everything
    that can be asked of them is said by the accepted calls
    (`DataFields.calls_keep_names_unique`). A host that parses the text of the data finds no
    member twice, and finds the members in that order.
-/

namespace ChainGuest

/-! ## Section 1: Names -/

/-- No struct in the piece of data has a name twice, at any depth. -/
inductive Datum.NamesDistinct : Datum → Prop where
  | null : NamesDistinct .null
  | number (x : Binary64) : NamesDistinct (.number x)
  | text (s : String) : NamesDistinct (.text s)
  | boolean (b : Bool) : NamesDistinct (.boolean b)
  | struct {fields : DataFields} (hnames : (fields.map Prod.fst).Nodup)
      (hfields : ∀ field ∈ fields, NamesDistinct field.2) : NamesDistinct (.struct fields)
  | list {items : List Datum} (hitems : ∀ d ∈ items, NamesDistinct d) :
      NamesDistinct (.list items)

/-- No object in the document has a member twice, at any depth. -/
inductive Json.NamesDistinct : Document → Prop where
  | null : NamesDistinct .null
  | bool (b : Bool) : NamesDistinct (.bool b)
  | number (token : List Char) : NamesDistinct (.number token)
  | string (s : String) : NamesDistinct (.string s)
  | array {items : List Document} (hitems : ∀ j ∈ items, NamesDistinct j) :
      NamesDistinct (.array items)
  | object {members : List (String × Document)} (hnames : (members.map Prod.fst).Nodup)
      (hmembers : ∀ member ∈ members, NamesDistinct member.2) : NamesDistinct (.object members)

namespace Datum

/-- The members of an object are named as the fields are. -/
theorem map_fst_fieldDocuments (fields : DataFields) :
    (fieldDocuments fields).map Prod.fst = fields.map Prod.fst := by
  induction fields with
  | nil => rfl
  | cons field fields ih =>
    obtain ⟨name, d⟩ := field
    simp only [fieldDocuments, List.map_cons, ih]

mutual

theorem document_namesDistinct : (d : Datum) → d.NamesDistinct → d.document.NamesDistinct
  | .null, _ => .null
  | .number x, _ => by
    unfold document numberDocument
    split
    · exact .number _
    · exact .null
  | .text s, _ => .string s
  | .boolean b, _ => .bool b
  | .struct fields, h => by
    cases h with
    | struct hnames hfields =>
      refine .object ?_ (fieldDocuments_namesDistinct fields hfields)
      rwa [map_fst_fieldDocuments]
  | .list items, h => by
    cases h with
    | list hitems => exact .array (itemDocuments_namesDistinct items hitems)

theorem itemDocuments_namesDistinct : (items : List Datum) → (∀ d ∈ items, d.NamesDistinct) →
    ∀ j ∈ itemDocuments items, j.NamesDistinct
  | [], _ => List.forall_mem_nil _
  | d :: items, h => by
    obtain ⟨hd, hitems⟩ := List.forall_mem_cons.1 h
    exact List.forall_mem_cons.2
      ⟨document_namesDistinct d hd, itemDocuments_namesDistinct items hitems⟩

theorem fieldDocuments_namesDistinct : (fields : List (String × Datum)) →
    (∀ field ∈ fields, field.2.NamesDistinct) →
    ∀ member ∈ fieldDocuments fields, member.2.NamesDistinct
  | [], _ => List.forall_mem_nil _
  | (_, d) :: fields, h => by
    obtain ⟨hd, hfields⟩ := List.forall_mem_cons.1 h
    exact List.forall_mem_cons.2
      ⟨document_namesDistinct d hd, fieldDocuments_namesDistinct fields hfields⟩

end

end Datum

/-! ## Section 2: Adding one field -/

namespace DataFields

/-- A name has no value exactly if no field has it. -/
theorem get?_eq_none_iff {fields : DataFields} {name : String} :
    fields.get? name = none ↔ name ∉ fields.map Prod.fst := by
  unfold get?
  rw [List.lookup_eq_none_iff, List.mem_map]
  constructor
  · rintro h ⟨field, hfield, rfl⟩
    exact absurd (h field hfield) (by simp)
  · intro h field hfield
    simp only [bne_iff_ne]
    rintro rfl
    exact h ⟨field, hfield, rfl⟩

/-- A name that is taken changes nothing; any other goes to the end. -/
theorem add_eq (fields : DataFields) (name : String) (value : Datum) :
    fields.add name value =
      if name ∈ fields.map Prod.fst then (false, fields)
      else (true, fields ++ [(name, value)]) := by
  unfold add
  by_cases hname : name ∈ fields.map Prod.fst
  · rw [if_pos hname]
    cases hget : fields.get? name with
    | none => exact absurd hname (get?_eq_none_iff.1 hget)
    | some d => rfl
  · rw [if_neg hname, get?_eq_none_iff.2 hname]

/-- A field whose own names are distinct keeps the names distinct. -/
theorem add_namesDistinct {fields : DataFields} (name : String) {value : Datum}
    (h : (Datum.struct fields).NamesDistinct) (hvalue : value.NamesDistinct) :
    (Datum.struct (fields.add name value).2).NamesDistinct := by
  rw [add_eq]
  split
  · exact h
  · next hname =>
    cases h with
    | struct hnames hfields =>
      refine .struct ?_ ?_
      · rw [List.map_append, List.nodup_append]
        -- The new name is none of those that are there, or it would not have been added.
        refine ⟨hnames, List.nodup_singleton name, fun a ha b hb => ?_⟩
        obtain rfl : b = name := List.mem_singleton.1 hb
        rintro rfl
        exact hname ha
      · intro field hfield
        rcases List.mem_append.1 hfield with hold | hnew
        · exact hfields field hold
        · obtain rfl := List.mem_singleton.1 hnew
          exact hvalue

end DataFields

/-! ## Section 3: Calls -/

mutual

/-- How a piece of data is made: a struct by calls, and all else as it is. -/
inductive Draft where
  | null
  | number (x : Binary64)
  | text (s : String)
  | boolean (b : Bool)
  | struct (calls : List AddCall)
  | list (items : List Draft)

/-- A call that adds a field, by what the field holds. -/
inductive AddCall where
  | null (name : String)
  | number (name : String) (x : Binary64)
  | text (name s : String)
  | boolean (name : String) (b : Bool)
  | struct (name : String) (calls : List AddCall)
  | list (name : String) (items : List Draft)
  | field (name : String) (value : Draft)

end

mutual

/-- The piece of data that is made. -/
def Draft.datum : Draft → Datum
  | .null => .null
  | .number x => .number x
  | .text s => .text s
  | .boolean b => .boolean b
  | .struct calls => .struct (AddCall.fieldsAfter [] calls)
  | .list items => .list (Draft.data items)

def Draft.data : List Draft → List Datum
  | [] => []
  | d :: items => d.datum :: Draft.data items

/-- Make a call: whether it was accepted, and the fields after it. -/
def AddCall.make : AddCall → DataFields → Bool × DataFields
  | .null name, fields => fields.addNull name
  | .number name x, fields => fields.addNumber name x
  | .text name s, fields => fields.addText name s
  | .boolean name b, fields => fields.addBoolean name b
  | .struct name calls, fields => fields.addStruct name (AddCall.fieldsAfter [] calls)
  | .list name items, fields => fields.addList name (Draft.data items)
  | .field name value, fields => fields.add name value.datum

/-- The fields after calls, one after another. -/
def AddCall.fieldsAfter (fields : DataFields) : List AddCall → DataFields
  | [] => fields
  | call :: calls => AddCall.fieldsAfter (call.make fields).2 calls

end

namespace AddCall

/-- The name that a call is about. -/
def name : AddCall → String
  | .null name => name
  | .number name _ => name
  | .text name _ => name
  | .boolean name _ => name
  | .struct name _ => name
  | .list name _ => name
  | .field name _ => name

/-- The value that a call would give to its name. -/
def value : AddCall → Datum
  | .null _ => .null
  | .number _ x => .number x
  | .text _ s => .text s
  | .boolean _ b => .boolean b
  | .struct _ calls => .struct (fieldsAfter [] calls)
  | .list _ items => .list (Draft.data items)
  | .field _ value => value.datum

/-- What calls answer, one after another. -/
def answers (fields : DataFields) : List AddCall → List Bool
  | [] => []
  | call :: calls => (call.make fields).1 :: answers (call.make fields).2 calls

/-- The calls that were accepted, in their order. -/
def accepted (fields : DataFields) (calls : List AddCall) : List AddCall :=
  ((calls.zip (answers fields calls)).filter (·.2)).map (·.1)

/-- The fields of calls that were all accepted. -/
def fieldsOf (calls : List AddCall) : DataFields := calls.map fun call => (call.name, call.value)

/-- Whatever its field holds, a call adds it in the same way. -/
theorem make_eq_add (call : AddCall) (fields : DataFields) :
    call.make fields = fields.add call.name call.value := by
  cases call <;> simp only [make, name, value] <;> rfl

/-- The first call is counted if it is accepted, and the others go on from the fields after it. -/
theorem accepted_cons (fields : DataFields) (call : AddCall) (calls : List AddCall) :
    accepted fields (call :: calls) =
      (if (call.make fields).1 then [call] else []) ++ accepted (call.make fields).2 calls := by
  unfold accepted
  rw [answers, List.zip_cons_cons, List.filter_cons]
  cases (call.make fields).1 <;> rfl

/-- The fields after calls are the fields before them, and those of the accepted calls. -/
theorem fieldsAfter_eq_append (fields : DataFields) (calls : List AddCall) :
    fieldsAfter fields calls = fields ++ fieldsOf (accepted fields calls) := by
  -- On the calls, from any fields.
  induction calls generalizing fields with
  | nil => exact (List.append_nil fields).symm
  | cons call calls ih =>
    rw [fieldsAfter, ih, accepted_cons, call.make_eq_add, DataFields.add_eq]
    -- Only a call with a new name leaves its field, and is counted.
    split
    · simp
    · simp [fieldsOf]

/-- What fields of calls hold for a name is the value of the first call with that name. -/
theorem get?_fieldsOf (calls : List AddCall) (name : String) :
    (fieldsOf calls).get? name = (calls.find? fun call => call.name == name).map value := by
  unfold fieldsOf DataFields.get?
  -- On the calls, the first of which has the name or not.
  induction calls with
  | nil => rfl
  | cons call calls ih =>
    rw [List.map_cons, List.lookup_cons, List.find?_cons, ih, Bool.beq_comm (a := name)]
    cases call.name == name <;> rfl

end AddCall

/-! ### Names of what calls make -/

mutual

theorem Draft.datum_namesDistinct : (d : Draft) → d.datum.NamesDistinct
  | .null => .null
  | .number x => .number x
  | .text s => .text s
  | .boolean b => .boolean b
  | .struct calls =>
    AddCall.fieldsAfter_namesDistinct calls (.struct List.nodup_nil (List.forall_mem_nil _))
  | .list items => .list (Draft.data_namesDistinct items)

theorem Draft.data_namesDistinct : (items : List Draft) → ∀ d ∈ Draft.data items, d.NamesDistinct
  | [] => List.forall_mem_nil _
  | d :: items =>
    List.forall_mem_cons.2 ⟨d.datum_namesDistinct, Draft.data_namesDistinct items⟩

theorem AddCall.value_namesDistinct : (call : AddCall) → call.value.NamesDistinct
  | .null _ => .null
  | .number _ x => .number x
  | .text _ s => .text s
  | .boolean _ b => .boolean b
  | .struct _ calls =>
    AddCall.fieldsAfter_namesDistinct calls (.struct List.nodup_nil (List.forall_mem_nil _))
  | .list _ items => .list (Draft.data_namesDistinct items)
  | .field _ value => value.datum_namesDistinct

theorem AddCall.fieldsAfter_namesDistinct : (calls : List AddCall) → {fields : DataFields} →
    (Datum.struct fields).NamesDistinct →
    (Datum.struct (AddCall.fieldsAfter fields calls)).NamesDistinct
  | [], _, h => h
  | call :: calls, fields, h => by
    unfold AddCall.fieldsAfter
    refine AddCall.fieldsAfter_namesDistinct calls ?_
    rw [call.make_eq_add]
    exact DataFields.add_namesDistinct call.name h call.value_namesDistinct

end

/-! ## Section 4: Data made by calls -/

open AddCall in
/-- What calls on a struct do that was empty, and what is there after them. -/
structure AddCall.KeepNamesUnique (calls : List AddCall) : Prop where
  /-- No struct has a name twice: not this one, nor any inside it. -/
  distinct : (Datum.struct (fieldsAfter [] calls)).NamesDistinct
  /-- The next call changes nothing if its name is taken, and else adds its field at the end. -/
  next : ∀ call : AddCall, call.make (fieldsAfter [] calls) =
    if call.name ∈ (fieldsAfter [] calls).map Prod.fst then (false, fieldsAfter [] calls)
    else (true, fieldsAfter [] calls ++ [(call.name, call.value)])
  /-- There is a field for each accepted call. -/
  length : (fieldsAfter [] calls).length = (accepted [] calls).length
  /-- A name has the value of the first accepted call with it. -/
  get : ∀ name, (fieldsAfter [] calls).get? name =
    ((accepted [] calls).find? fun call => call.name == name).map value
  /-- The text shows the fields, with the members of the accepted calls in their order, and no
      member twice in it or in what stands inside it. -/
  text : ∃ members, Json.parse? (fieldsAfter [] calls).toJson = some (.object members) ∧
    (fieldsAfter [] calls).ShownBy members ∧
    members.map Prod.fst = (accepted [] calls).map name ∧
    Json.NamesDistinct (.object members)

/-- Whatever calls are made on a struct, with whatever names and values that were made so
    themselves, names stay unique in it and in all that it holds.

    Two facts carry this: a call adds its field or changes nothing (`add_eq`), and so the fields
    are those of the accepted calls (`AddCall.fieldsAfter_eq_append`). All that is asked of the
    fields, and of the text that is written of them, is read off the accepted calls. -/
theorem DataFields.calls_keep_names_unique (calls : List AddCall) :
    AddCall.KeepNamesUnique calls := by
  have hdistinct : (Datum.struct (AddCall.fieldsAfter [] calls)).NamesDistinct :=
    AddCall.fieldsAfter_namesDistinct calls (.struct List.nodup_nil (List.forall_mem_nil _))
  have hfields : AddCall.fieldsAfter [] calls = AddCall.fieldsOf (AddCall.accepted [] calls) :=
    AddCall.fieldsAfter_eq_append [] calls
  have hnames : (AddCall.fieldsAfter [] calls).map Prod.fst =
      (AddCall.accepted [] calls).map AddCall.name := by
    rw [hfields, AddCall.fieldsOf, List.map_map]
    rfl
  refine ⟨hdistinct, ?_, ?_, ?_, ?_⟩
  · intro call
    rw [call.make_eq_add, add_eq]
  · rw [hfields, AddCall.fieldsOf, List.length_map]
  · intro name
    rw [hfields, AddCall.get?_fieldsOf]
  · refine ⟨Datum.fieldDocuments (AddCall.fieldsAfter [] calls),
      Json.parse?_render (Datum.document_proper (.struct (AddCall.fieldsAfter [] calls))),
      Datum.shownBy_fieldDocuments _, ?_, Datum.document_namesDistinct _ hdistinct⟩
    rw [Datum.map_fst_fieldDocuments, hnames]

-- A name that is taken in the struct may be used again inside it.
example : (AddCall.fieldsAfter [] [.text "key" "first", .boolean "key" true,
    .list "items" [.struct [.null "key", .null "key"]]]).toJson =
      "\x7b\"key\":\"first\",\"items\":[\x7b\"key\":null\x7d]\x7d" := by
  cbv

end ChainGuest
