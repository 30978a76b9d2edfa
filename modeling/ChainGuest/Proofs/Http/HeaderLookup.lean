import Mathlib
import ChainGuest.Proofs.Http

/-! # Looking headers up

    A response has one value for each name, and promises no order of its headers. A lookup goes
    through them in the order in which they happen to come, and takes the first whose name
    spells the name that is looked up, in either case of its letters.

    Names that differ in nothing but case are different names, and both may have a value. So a
    lookup may find the value of any header whose name spells the name, and no other; it finds
    nothing exactly if there is no such header; and the response determines what is found
    exactly if all of them have one value (`Response.lookup_finds`). Every set of headers with
    different names is that of a response, so some responses do not determine it
    (`Response.via_undetermined`).
-/

namespace ChainGuest.Http

open Json

/-! ## Section 1: Names and cases -/

/-- A capital letter of ASCII. -/
def IsCapital (c : Char) : Prop := 'A'.toNat ≤ c.toNat ∧ c.toNat ≤ 'Z'.toNat

/-- The same character, or the other case of an ASCII letter. -/
inductive SameButCase : Char → Char → Prop where
  | same (c : Char) : SameButCase c c
  | capital {c d : Char} (hc : IsCapital c) (h : d.toNat = c.toNat + 32) : SameButCase c d
  | small {c d : Char} (hd : IsCapital d) (h : c.toNat = d.toNat + 32) : SameButCase c d

/-- One name, up to the case of ASCII letters. -/
def Spells (key name : String) : Prop := List.Forall₂ SameButCase key.toList name.toList

/-- A capital goes to its small form, which is 32 places further. -/
theorem toNat_toLower_of_capital {c : Char} (h : IsCapital c) :
    c.toLower.toNat = c.toNat + 32 := by
  have hshift : ('a'.val - 'A'.val).toNat = 32 := by decide
  have hlt : c.val.toNat ≤ 90 := h.2
  have hcapital : c.val ≥ 'A'.val ∧ c.val ≤ 'Z'.val := h
  unfold Char.toLower
  rw [dif_pos hcapital]
  show (c.val + ('a'.val - 'A'.val)).toNat = c.val.toNat + 32
  rw [UInt32.toNat_add, hshift]
  omega

/-- Any other character stays. -/
theorem toLower_of_not_capital {c : Char} (h : ¬ IsCapital c) : c.toLower = c := by
  unfold Char.toLower
  exact dif_neg h

/-- The small form of a capital is no capital. -/
theorem not_isCapital_of_small {c d : Char} (hc : IsCapital c) (h : d.toNat = c.toNat + 32) :
    ¬ IsCapital d := by
  intro hd
  have hle : 65 ≤ c.toNat := hc.1
  have hlt : d.toNat ≤ 90 := hd.2
  omega

/-- Letters whose small forms are equal are equal but for case. -/
theorem toLower_eq_iff (c d : Char) : c.toLower = d.toLower ↔ SameButCase c d := by
  constructor
  · intro h
    -- Only a capital moves, so a letter that is met by a moved one is small.
    have hnat : c.toLower.toNat = d.toLower.toNat := congrArg Char.toNat h
    by_cases hc : IsCapital c
    · by_cases hd : IsCapital d
      · rw [toNat_toLower_of_capital hc, toNat_toLower_of_capital hd] at hnat
        obtain rfl : c = d := Char.toNat_inj.1 (Nat.add_right_cancel hnat)
        exact .same c
      · rw [toNat_toLower_of_capital hc, toLower_of_not_capital hd] at hnat
        exact .capital hc hnat.symm
    · by_cases hd : IsCapital d
      · rw [toLower_of_not_capital hc, toNat_toLower_of_capital hd] at hnat
        exact .small hd hnat
      · rw [toLower_of_not_capital hc, toLower_of_not_capital hd] at h
        obtain rfl : c = d := h
        exact .same c
  · intro h
    apply Char.toNat_inj.1
    cases h with
    | same => rfl
    | capital hc h =>
      have hd : ¬ IsCapital d := not_isCapital_of_small hc h
      rw [toNat_toLower_of_capital hc, toLower_of_not_capital hd, h]
    | small hd h =>
      have hc : ¬ IsCapital c := not_isCapital_of_small hd h
      rw [toLower_of_not_capital hc, toNat_toLower_of_capital hd, h]

/-- The comparison of names is that they spell each other, character by character. -/
theorem sameName_iff (key name : String) : Response.sameName key name ↔ Spells key name := by
  unfold Response.sameName Spells
  rw [beq_iff_eq, ← String.toList_inj, String.toList_map, String.toList_map,
    ← List.forall₂_eq_eq_eq, List.forall₂_map_left_iff, List.forall₂_map_right_iff]
  simp only [toLower_eq_iff]

namespace Response

/-! ## Section 2: Orders -/

/-- The same response, but for the order in which its headers come. -/
structure Reordered (r r' : Response) : Prop where
  status : r'.status = r.status
  error : r'.error = r.error
  headers : r'.headers.Perm r.headers
  body : r'.body = r.body

/-- What a lookup finds in some order of the headers. -/
def MayFind (r : Response) (name : String) (found : Option String) : Prop :=
  ∃ r', r.Reordered r' ∧ r'.header? name = found

/-- A lookup finds the same in any two orders of the headers. -/
def Determines (r : Response) (name : String) : Prop :=
  ∀ r₁ r₂, r.Reordered r₁ → r.Reordered r₂ → r₁.header? name = r₂.header? name

/-- A header of this value has a name that spells this one. -/
def Offers (r : Response) (name value : String) : Prop :=
  ∃ key, (key, value) ∈ r.headers ∧ Spells key name

theorem Reordered.offers {r r' : Response} (h : r.Reordered r') (name value : String) :
    r'.Offers name value ↔ r.Offers name value :=
  exists_congr fun _ => and_congr_left' h.headers.mem_iff

/-- What is found is the value of a header with such a name. -/
theorem offers_of_header? {r : Response} {name value : String}
    (h : r.header? name = some value) : r.Offers name value := by
  unfold header? at h
  obtain ⟨⟨key, value'⟩, hfind, hvalue⟩ := Option.map_eq_some_iff.1 h
  obtain rfl : value' = value := hvalue
  have hsame := List.find?_some hfind
  exact ⟨key, List.mem_of_find?_eq_some hfind, (sameName_iff key name).1 hsame⟩

/-- Nothing is found exactly if no header has such a name. -/
theorem header?_eq_none_iff (r : Response) (name : String) :
    r.header? name = none ↔ ∀ value, ¬ r.Offers name value := by
  unfold header?
  rw [Option.map_eq_none_iff, List.find?_eq_none]
  constructor
  · rintro h value ⟨key, hmem, hspells⟩
    exact h (key, value) hmem ((sameName_iff key name).2 hspells)
  · rintro h ⟨key, value⟩ hmem hsame
    exact h value ⟨key, hmem, (sameName_iff key name).1 hsame⟩

/-- The headers can come with any one of them first. -/
theorem exists_first {r : Response} {key value : String} (h : (key, value) ∈ r.headers) :
    ∃ r' rest, r.Reordered r' ∧ r'.headers = (key, value) :: rest :=
  ⟨{ r with headers := (key, value) :: r.headers.erase (key, value) }, _,
    ⟨rfl, rfl, (List.perm_cons_erase h).symm, rfl⟩, rfl⟩

/-- A header that comes first is found under its name. -/
theorem header?_of_first {r : Response} {key value name : String}
    {rest : List (String × String)} (hheaders : r.headers = (key, value) :: rest)
    (h : Spells key name) : r.header? name = some value := by
  have hsame : sameName key name = true := (sameName_iff key name).2 h
  simp [header?, hheaders, hsame]

/-- A value may be found exactly if it is offered. -/
theorem mayFind_some_iff (r : Response) (name value : String) :
    r.MayFind name (some value) ↔ r.Offers name value := by
  constructor
  · rintro ⟨r', hr', hfound⟩
    exact (hr'.offers name value).1 (offers_of_header? hfound)
  · rintro ⟨key, hmem, hspells⟩
    -- The order that begins with this header finds it.
    obtain ⟨r', rest, hr', hheaders⟩ := exists_first hmem
    exact ⟨r', hr', header?_of_first hheaders hspells⟩

/-- Nothing may be found exactly if nothing is offered. This does not depend on the order. -/
theorem mayFind_none_iff (r : Response) (name : String) :
    r.MayFind name none ↔ ∀ value, ¬ r.Offers name value := by
  constructor
  · rintro ⟨r', hr', hfound⟩ value hoffers
    exact (header?_eq_none_iff r' name).1 hfound value ((hr'.offers name value).2 hoffers)
  · intro h
    exact ⟨r, ⟨rfl, rfl, .refl _, rfl⟩, (header?_eq_none_iff r name).2 h⟩

/-- The response determines what is found exactly if all values that are offered are the same. -/
theorem determines_iff (r : Response) (name : String) :
    r.Determines name ↔
      ∀ value value', r.Offers name value → r.Offers name value' → value = value' := by
  constructor
  · intro h value value' hvalue hvalue'
    -- Two values that are offered are found in two orders, which find the same.
    obtain ⟨r₁, hr₁, hfound⟩ := (mayFind_some_iff r name value).2 hvalue
    obtain ⟨r₂, hr₂, hfound'⟩ := (mayFind_some_iff r name value').2 hvalue'
    have heq := h r₁ r₂ hr₁ hr₂
    rw [hfound, hfound'] at heq
    exact Option.some.inj heq
  · intro h r₁ r₂ hr₁ hr₂
    -- What is found in either order is offered, and whether anything is found is the same.
    cases hfound : r₁.header? name with
    | none =>
      have hnone := (mayFind_none_iff r name).1 ⟨r₁, hr₁, hfound⟩
      exact ((header?_eq_none_iff r₂ name).2 fun value hvalue =>
        hnone value ((hr₂.offers name value).1 hvalue)).symm
    | some value =>
      have hvalue := (mayFind_some_iff r name value).1 ⟨r₁, hr₁, hfound⟩
      cases hfound' : r₂.header? name with
      | none => exact absurd hvalue ((mayFind_none_iff r name).1 ⟨r₂, hr₂, hfound'⟩ value)
      | some value' =>
        have hvalue' := (mayFind_some_iff r name value').1 ⟨r₂, hr₂, hfound'⟩
        rw [h value value' hvalue hvalue']

end Response

end ChainGuest.Http

/-! ## Section 3: Members by name -/

namespace ChainGuest.Json

variable {α : Type}

/-- The members stand in the order of their names, and no two have the same. -/
def SortedByName (members : List (String × α)) : Prop := members.Pairwise fun m m' => m.1 < m'.1

theorem SortedByName.nodup {members : List (String × α)} (h : SortedByName members) :
    (members.map (·.1)).Nodup :=
  List.pairwise_map.2 (h.imp fun hlt => ne_of_lt hlt)

/-- What is in the members after one is put in was put in or was there. -/
theorem mem_insertMember {name : String} {a : α} {members : List (String × α)}
    {member : String × α} (h : member ∈ insertMember name a members) :
    member = (name, a) ∨ member ∈ members := by
  induction members with
  | nil => exact .inl (List.mem_singleton.1 h)
  | cons first members ih =>
    rw [insertMember] at h
    split_ifs at h with hlt heq
    · exact List.mem_cons.1 h
    · exact (List.mem_cons.1 h).imp_right (List.mem_cons_of_mem first)
    · rcases List.mem_cons.1 h with rfl | h
      · exact .inr List.mem_cons_self
      · exact (ih h).imp_right (List.mem_cons_of_mem first)

/-- A member that is put in keeps the order: it goes before the first of a greater name, or in the
    place of one of its own name. -/
theorem SortedByName.insertMember {members : List (String × α)} (h : SortedByName members)
    (name : String) (a : α) : SortedByName (Json.insertMember name a members) := by
  induction members with
  | nil => exact List.pairwise_singleton _ _
  | cons first members ih =>
    obtain ⟨hfirst, hmembers⟩ := List.pairwise_cons.1 h
    rw [Json.insertMember]
    split_ifs with hlt heq
    · refine List.pairwise_cons.2 ⟨fun member hmem => ?_, h⟩
      rcases List.mem_cons.1 hmem with rfl | hmem
      · exact hlt
      · exact lt_trans hlt (hfirst member hmem)
    · exact List.pairwise_cons.2 ⟨heq ▸ hfirst, hmembers⟩
    · refine List.pairwise_cons.2 ⟨fun member hmem => ?_, ih hmembers⟩
      rcases mem_insertMember hmem with rfl | hmem
      · exact lt_of_le_of_ne (not_lt.1 hlt) (Ne.symm heq)
      · exact hfirst member hmem

/-- A member of a new name is one more. -/
theorem insertMember_perm {name : String} (a : α) {members : List (String × α)}
    (h : name ∉ members.map (·.1)) : (insertMember name a members).Perm ((name, a) :: members) := by
  induction members with
  | nil => exact .refl _
  | cons first members ih =>
    obtain ⟨hne, hrest⟩ := not_or.1 (mt List.mem_cons.2 h)
    rw [insertMember]
    split_ifs with hlt
    · exact .refl _
    · exact ((ih hrest).cons first).trans (.swap _ _ _)

/-- The members with more of them, put in one after another. -/
def insertAll (more members : List (String × α)) : List (String × α) :=
  more.foldl (fun members m => insertMember m.1 m.2 members) members

/-- Members of different names are all there in the end. -/
theorem insertAll_perm {more members : List (String × α)}
    (h : ((more ++ members).map (·.1)).Nodup) :
    (insertAll more members).Perm (more ++ members) := by
  -- On the members that are put in, for any that are there already.
  induction more generalizing members with
  | nil => exact .refl _
  | cons first more ih =>
    have hmiddle : (more ++ first :: members).Perm (first :: more ++ members) := List.perm_middle
    have hnodup : ((more ++ first :: members).map (·.1)).Nodup :=
      (hmiddle.map (·.1)).nodup_iff.2 h
    have hnew : first.1 ∉ members.map (·.1) := by
      rw [List.map_append] at hnodup
      exact (List.nodup_cons.1 (List.nodup_append.1 hnodup).2.1).1
    have hperm : (more ++ insertMember first.1 first.2 members).Perm (more ++ first :: members) :=
      (insertMember_perm first.2 hnew).append_left more
    exact (ih ((hperm.map (·.1)).nodup_iff.2 hnodup)).trans (hperm.trans hmiddle)

/-! What is resolved shows what was spelled. -/

theorem resolved?_eq_number {j : Spelled} {token : List Char}
    (h : resolved? j = some (.number token)) : j = .number token := by
  cases j <;> simp_all [resolved?]

theorem resolved?_eq_string {j : Spelled} {s : String} (h : resolved? j = some (.string s)) :
    ∃ pieces, j = .string pieces ∧ resolve pieces = some s := by
  cases j <;> simp_all [resolved?]

theorem resolved?_eq_object {j : Spelled} {members : List (String × Document)}
    (h : resolved? j = some (.object members)) :
    ∃ spelled, j = .object spelled ∧ resolvedMembers? spelled = some members := by
  cases j <;> simp_all [resolved?]

theorem resolvedMembers?_eq_nil {spelled : List (List Piece × Spelled)}
    (h : resolvedMembers? spelled = some []) : spelled = [] := by
  cases spelled with
  | nil => rfl
  | cons member rest => simp [resolvedMembers?, Option.bind_eq_some_iff] at h

theorem resolvedMembers?_eq_cons {spelled : List (List Piece × Spelled)} {name : String}
    {j : Document} {members : List (String × Document)}
    (h : resolvedMembers? spelled = some ((name, j) :: members)) :
    ∃ pieces item rest, spelled = (pieces, item) :: rest ∧ resolve pieces = some name ∧
      resolved? item = some j ∧ resolvedMembers? rest = some members := by
  cases spelled with
  | nil => simp [resolvedMembers?] at h
  | cons member rest =>
    obtain ⟨pieces, item⟩ := member
    simp only [resolvedMembers?, Option.pure_def, Option.bind_eq_bind, Option.bind_eq_some_iff,
      Option.some.injEq, List.cons.injEq, Prod.mk.injEq] at h
    obtain ⟨_, hname, _, hitem, _, hrest, ⟨rfl, rfl⟩, rfl⟩ := h
    exact ⟨pieces, item, rest, rfl, hname, hitem, hrest⟩

end ChainGuest.Json

/-! ## Section 4: Headers in JSON -/

namespace ChainGuest.Http.Response

open Json

/-- The headers with one more, read from a member. -/
def addHeader (headers : List (String × String)) (member : List Piece × Spelled) :
    Option (List (String × String)) := do
  return insertMember (← resolve member.1) (← text? member.2) headers

theorem headers?_object (members : List (List Piece × Spelled)) :
    headers? (.object members) = members.foldlM addHeader [] := rfl

theorem addHeader_sorted {headers headers' : List (String × String)}
    {member : List Piece × Spelled} (hsorted : SortedByName headers)
    (h : addHeader headers member = some headers') : SortedByName headers' := by
  obtain ⟨name, -, h⟩ := Option.bind_eq_some_iff.1 h
  obtain ⟨value, -, h⟩ := Option.bind_eq_some_iff.1 h
  obtain rfl : insertMember name value headers = headers' := Option.some.inj h
  exact hsorted.insertMember name value

/-- What is read of an object has its headers in the order of their names. -/
theorem foldlM_addHeader_sorted {members : List (List Piece × Spelled)}
    {headers headers' : List (String × String)} (hsorted : SortedByName headers)
    (h : members.foldlM addHeader headers = some headers') : SortedByName headers' := by
  -- On the members, for any headers that are in order.
  induction members generalizing headers with
  | nil =>
    obtain rfl : headers = headers' := by simpa using h
    exact hsorted
  | cons member members ih =>
    rw [List.foldlM_cons] at h
    obtain ⟨next, hnext, hrest⟩ := Option.bind_eq_some_iff.1 h
    exact ih (addHeader_sorted hsorted hnext) hrest

theorem headers?_sorted {j : Spelled} {headers : List (String × String)}
    (h : headers? j = some headers) : SortedByName headers := by
  cases j with
  | object members =>
    rw [headers?_object] at h
    exact foldlM_addHeader_sorted .nil h
  | null | bool | number | string | array => exact absurd h (by simp [headers?])

theorem member?_headers_sorted {members : List (String × Spelled)} {name : String}
    {headers : List (String × String)}
    (h : member? members name (some []) headers? = some headers) : SortedByName headers := by
  unfold member? at h
  split at h
  · obtain rfl : [] = headers := Option.some.inj h
    exact .nil
  · exact headers?_sorted h
  · exact absurd h (by simp)

theorem item?_headers_sorted {items : List Spelled} {index : Nat}
    {headers : List (String × String)}
    (h : item? items index (some []) headers? = some headers) : SortedByName headers := by
  unfold item? at h
  split at h
  · exact headers?_sorted h
  · obtain rfl : [] = headers := Option.some.inj h
    exact .nil

/-- Whether a response is an object or an array, its headers are in the order of their names. -/
theorem ofSpelled?_sorted {j : Spelled} {r : Response} (h : ofSpelled? j = some r) :
    SortedByName r.headers := by
  cases j with
  | object members =>
    simp only [ofSpelled?, Option.pure_def, Option.bind_eq_bind, Option.bind_eq_some_iff,
      Option.some.injEq] at h
    obtain ⟨_, -, _, -, _, -, _, hheaders, _, -, rfl⟩ := h
    exact member?_headers_sorted hheaders
  | array items =>
    rw [ofSpelled?] at h
    split_ifs at h
    · exact absurd h (by simp)
    · simp only [Option.pure_def, Option.bind_eq_bind, Option.bind_eq_some_iff,
        Option.some.injEq] at h
      obtain ⟨_, -, _, -, _, hheaders, _, -, rfl⟩ := h
      exact item?_headers_sorted hheaders
  | null | bool | number | string => exact absurd h (by simp [ofSpelled?])

/-- The headers of a response that was read have different names. -/
theorem ofJson_names_nodup {text : String} {r : Response} (h : ofJson text = .ok r) :
    (r.headers.map (·.1)).Nodup := by
  unfold ofJson at h
  split at h
  · next r' hr' =>
    obtain rfl : r' = r := Except.ok.inj h
    obtain ⟨j, -, hj⟩ := Option.bind_eq_some_iff.1 hr'
    exact (ofSpelled?_sorted hj).nodup
  · exact absurd h (by simp)

/-- Headers that were written are read one after another. -/
theorem foldlM_addHeader_of_resolved {headers : List (String × String)}
    {spelled : List (List Piece × Spelled)} (before : List (String × String))
    (h : resolvedMembers? spelled =
      some (headers.map fun (name, value) => (name, Json.string value))) :
    spelled.foldlM addHeader before = some (insertAll headers before) := by
  -- On the headers, each of which is one member that is spelled.
  induction headers generalizing spelled before with
  | nil =>
    obtain rfl := resolvedMembers?_eq_nil h
    rfl
  | cons header headers ih =>
    obtain ⟨pieces, item, rest, rfl, hname, hitem, hrest⟩ := resolvedMembers?_eq_cons h
    obtain ⟨valuePieces, rfl, hvalue⟩ := resolved?_eq_string hitem
    have hadd : addHeader before (pieces, .string valuePieces) =
        some (insertMember header.1 header.2 before) := by
      simp [addHeader, text?, hname, hvalue]
    rw [List.foldlM_cons, hadd]
    exact ih _ hrest

/-- A response with these headers, in JSON. -/
def documentOf (headers : List (String × String)) : Document :=
  .object [("status", .number ['2', '0', '0']),
    ("headers", .object (headers.map fun (name, value) => (name, .string value)))]

theorem documentOf_proper (headers : List (String × String)) : (documentOf headers).Proper := by
  have hdigits : IsDigits ['2', '0', '0'] := ⟨by simp, by simp [Char.isDigit]⟩
  have hcode : NumberToken ['2', '0', '0'] := .plain (.mk ⟨hdigits, by decide⟩ .none .none)
  exact ⟨hcode, Request.headers_proper headers, trivial⟩

/-- The headers of a response are those of its text, in the order of their names. -/
theorem ofJson_documentOf (headers : List (String × String)) :
    ofJson (documentOf headers).render =
      .ok ⟨200, none, insertAll headers [], none⟩ := by
  -- What is spelled is known from what it is resolved to.
  obtain ⟨j, hspelled, hj⟩ := Option.bind_eq_some_iff.1 (parse?_render (documentOf_proper headers))
  obtain ⟨members, rfl, hmembers⟩ := resolved?_eq_object hj
  obtain ⟨status, code, _, rfl, hstatus, hcode, hmembers⟩ := resolvedMembers?_eq_cons hmembers
  obtain ⟨title, item, _, rfl, htitle, hitem, hmembers⟩ := resolvedMembers?_eq_cons hmembers
  obtain rfl := resolvedMembers?_eq_nil hmembers
  obtain rfl := resolved?_eq_number hcode
  obtain ⟨spelled, rfl, hheaders⟩ := resolved?_eq_object hitem
  have hread : headers? (.object spelled) = some (insertAll headers []) := by
    rw [headers?_object]
    exact foldlM_addHeader_of_resolved [] hheaders
  have htoken : Number.ofToken? ['2', '0', '0'] = some (.natural 200) := by cbv
  have hok : status? (.number ['2', '0', '0']) = some 200 := by
    simp [status?, natural?, htoken, UInt16.size]
  unfold ofJson
  rw [hspelled]
  simp [ofSpelled?, hstatus, htitle, member?, hread, hok]

/-- The names of headers are different exactly if some text has these headers.

    If they are, the text of a response with these headers is read back with the same headers in
    another order. If they are not, no text has them: a member that comes again replaces the one
    before it. -/
theorem names_nodup_iff (headers : List (String × String)) :
    (headers.map (·.1)).Nodup ↔ ∃ text r, ofJson text = .ok r ∧ r.headers.Perm headers := by
  constructor
  · intro h
    have hperm : (insertAll headers []).Perm (headers ++ []) :=
      insertAll_perm (by rwa [List.append_nil])
    rw [List.append_nil] at hperm
    exact ⟨_, _, ofJson_documentOf headers, hperm⟩
  · rintro ⟨text, r, hread, hperm⟩
    exact (hperm.map (·.1)).nodup_iff.1 (ofJson_names_nodup hread)

/-! ## Section 5: What a response determines -/

/-- The headers of responses that are read are any with different names, in no order. A lookup may
    find the value of each header whose name spells the name, and nothing else; it may find
    nothing exactly if there is none. The response determines what is found exactly if such
    headers have one value.

    The first part says that the others are not about nothing: names that differ in case only are
    different, so they can come together in one response. -/
theorem lookup_finds (r : Response) (name : String) :
    ((r.headers.map (·.1)).Nodup ↔ ∃ text r', ofJson text = .ok r' ∧ r'.headers.Perm r.headers) ∧
    (∀ value, r.MayFind name (some value) ↔ r.Offers name value) ∧
    (r.MayFind name none ↔ ∀ value, ¬ r.Offers name value) ∧
    (r.Determines name ↔
      ∀ value value', r.Offers name value → r.Offers name value' → value = value') :=
  ⟨names_nodup_iff r.headers, mayFind_some_iff r name, mayFind_none_iff r name,
    determines_iff r name⟩

/-- A response whose headers `Via` and `via` have different values does not determine which of
    them is found. -/
theorem via_undetermined :
    ∃ r, ofJson "\x7b\"status\":200,\"headers\":\x7b\"Via\":\"a\",\"via\":\"b\"\x7d\x7d" = .ok r ∧
      ¬ r.Determines "via" := by
  refine ⟨⟨200, none, [("Via", "a"), ("via", "b")], none⟩, by cbv, fun h => ?_⟩
  have hsame : sameName "Via" "via" ∧ sameName "via" "via" := by cbv
  have heq := (determines_iff _ _).1 h "a" "b"
    ⟨"Via", by simp, (sameName_iff _ _).1 hsame.1⟩ ⟨"via", by simp, (sameName_iff _ _).1 hsame.2⟩
  exact absurd heq (by decide)

end ChainGuest.Http.Response
