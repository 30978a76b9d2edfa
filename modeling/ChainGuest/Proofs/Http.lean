import Mathlib
import ChainGuest.Http
import ChainGuest.Proofs.Json.RoundTrip

/-! # Request texts are unambiguous

    A host that parses the text of a request finds one object: the method, the URL, the body if
    there is one, and an object of the headers, in this order. Every text in it is the one that
    the guest gave, and headers stand in their order, with their repetitions. So a request can
    be told from its text, and no two requests have the same (`Http.Request.toJson_unambiguous`).

    URLs, bodies and headers often are JSON themselves. This does not matter, because what shows
    a request (`Request.ShownBy`) is a document, whose texts are whole.
-/

namespace ChainGuest.Http

open Json

/-! ## Section 1: What documents show -/

/-- The members that show a body: one if there is a body, even an empty one. -/
inductive BodyShownBy : Option String → List (String × Document) → Prop where
  | none : BodyShownBy none []
  | some (body : String) : BodyShownBy (some body) [("body", .string body)]

/-- One member for each header, of the same name and with its value, in their order. -/
inductive HeadersShownBy : List (String × String) → List (String × Document) → Prop where
  | nil : HeadersShownBy [] []
  | cons {name value : String} {headers : List (String × String)}
      {members : List (String × Document)} (h : HeadersShownBy headers members) :
      HeadersShownBy ((name, value) :: headers) ((name, .string value) :: members)

/-- The members that show a request, in their order. -/
inductive Request.ShownBy (r : Request) : List (String × Document) → Prop where
  | mk {body headers : List (String × Document)} (hb : BodyShownBy r.body body)
      (hh : HeadersShownBy r.headers headers) :
      ShownBy r
        ([("method", .string r.method.name), ("url", .string r.url)] ++ body ++
          [("headers", .object headers)])

/-! ## Section 2: What is shown is determined -/

/-- Every method is found by its name. -/
theorem Method.ofName?_name (m : Method) : Method.ofName? m.name = some m := by
  cases m <;> decide

/-- Different methods have different names, as each is found by its own. -/
theorem Method.name_injective {m m' : Method} (h : m.name = m'.name) : m = m' := by
  have hfound := congrArg Method.ofName? h
  rw [Method.ofName?_name, Method.ofName?_name] at hfound
  exact Option.some.inj hfound

/-- Headers are told by the members that show them, with their order and repetitions. -/
theorem HeadersShownBy.unique {headers headers' : List (String × String)}
    {members : List (String × Document)} (h : HeadersShownBy headers members)
    (h' : HeadersShownBy headers' members) : headers = headers' := by
  -- On how the members show the first list; the other one is shown by the same steps.
  induction h generalizing headers' with
  | nil =>
    cases h'
    rfl
  | cons _ ih =>
    cases h' with
    | cons h' => rw [ih h']

/-- The member behind the URL tells whether there is a body: it is named `body` or `headers`. -/
theorem BodyShownBy.unique {body body' : Option String}
    {members members' : List (String × Document)} {headers headers' : Document}
    (h : BodyShownBy body members) (h' : BodyShownBy body' members')
    (heq : members ++ [("headers", headers)] = members' ++ [("headers", headers')]) :
    body = body' ∧ headers = headers' := by
  cases h <;> cases h' <;> simp_all

namespace Request

/-- A request is told by what shows it. -/
theorem ShownBy.unique {r r' : Request} {members members' : List (String × Document)}
    (h : r.ShownBy members) (h' : r'.ShownBy members') (heq : members = members') : r = r' := by
  obtain ⟨hb, hh⟩ := h
  obtain ⟨hb', hh'⟩ := h'
  simp only [List.cons_append, List.nil_append, List.cons.injEq, Prod.mk.injEq, true_and,
    Json.string.injEq] at heq
  obtain ⟨hmethod, hurl, hrest⟩ := heq
  obtain ⟨hbody, hheaders⟩ := hb.unique hb' hrest
  -- What is left are the headers, which are the last member in either case.
  rw [Json.object.injEq] at hheaders
  rw [hheaders] at hh
  obtain ⟨method, url, headers, body⟩ := r
  obtain ⟨method', url', headers', body'⟩ := r'
  obtain rfl : method = method' := Method.name_injective hmethod
  obtain rfl : url = url' := hurl
  obtain rfl : headers = headers' := hh.unique hh'
  obtain rfl : body = body' := hbody
  rfl

/-! ## Section 3: Requests -/

/-- The members that are written of headers show them. -/
theorem headersShownBy_map (headers : List (String × String)) :
    HeadersShownBy headers (headers.map fun (name, value) => (name, .string value)) := by
  induction headers with
  | nil => exact .nil
  | cons header headers ih => exact .cons ih

/-- Headers have no numbers in them, so their members are always proper. -/
theorem headers_proper (headers : List (String × String)) :
    MembersProper (headers.map fun (name, value) => (name, .string value)) := by
  induction headers with
  | nil => trivial
  | cons header headers ih => exact ⟨trivial, ih⟩

/-- The document of a request is proper, with a body or without. -/
theorem document_proper (r : Request) : r.document.Proper := by
  have hfixed : MembersProper [("method", .string r.method.name), ("url", .string r.url)] :=
    ⟨trivial, trivial, trivial⟩
  have hbody : MembersProper (r.body.map fun body => ("body", Json.string body)).toList := by
    cases r.body with
    | none => trivial
    | some body => exact ⟨trivial, trivial⟩
  exact membersProper_append.2 ⟨membersProper_append.2 ⟨hfixed, hbody⟩,
    headers_proper r.headers, trivial⟩

/-- What is parsed from the text of a request shows the request. -/
theorem parse?_toJson (r : Request) :
    ∃ members, Json.parse? r.toJson = some (.object members) ∧ r.ShownBy members := by
  have hbody : BodyShownBy r.body (r.body.map fun body => ("body", Json.string body)).toList := by
    cases r.body with
    | none => exact .none
    | some body => exact .some body
  exact ⟨_, parse?_render r.document_proper, .mk hbody (headersShownBy_map r.headers)⟩

/-- The text of a request has no control characters, and what is parsed from it is one object with
    the members that show the request. Different requests have different texts.

    The second part follows from the first: a text is parsed in one way, and what shows a request
    shows no other. So no text in a request needs to be restricted, not even one that is JSON
    itself. -/
theorem toJson_unambiguous :
    (∀ r : Request, (∀ b ∈ Utf8.encode r.toJson, 0x20 ≤ b.toNat) ∧
      ∃ members, Json.parse? r.toJson = some (.object members) ∧ r.ShownBy members) ∧
    Function.Injective toJson := by
  constructor
  · intro r
    exact ⟨render_visible r.document_proper, r.parse?_toJson⟩
  · intro r r' heq
    obtain ⟨members, hparse, hshown⟩ := r.parse?_toJson
    obtain ⟨members', hparse', hshown'⟩ := r'.parse?_toJson
    rw [heq, hparse'] at hparse
    have hmembers : members' = members := Json.object.inj (Option.some.inj hparse)
    exact hshown.unique hshown' hmembers.symm

-- A body that would close its string and go on with a second URL stays a body.
example : (post "u" "\",\"url\":\"v").toJson =
    "\x7b\"method\":\"POST\",\"url\":\"u\"," ++
      "\"body\":\"\\\",\\\"url\\\":\\\"v\",\"headers\":\x7b\x7d\x7d" := by
  cbv

end Request

end ChainGuest.Http
