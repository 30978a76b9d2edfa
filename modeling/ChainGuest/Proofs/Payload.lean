import Mathlib
import ChainGuest.Proofs.Bridge.Posting
import ChainGuest.Proofs.Incident
import ChainGuest.Proofs.Text.Canonical

/-! # Payloads reach the host whole

    Bytes leave the guest as base 64 in two ways: as the data of an incident, and as the input
    that the host is to parse. Either way the host gets the canonical text of the bytes
    (`payloads_canonical`). Within an incident the text stands as it is, because JSON does not
    escape what base 64 writes. A call that parses an input tells the host nothing else,
    however the call ends.
-/

namespace ChainGuest

/-! ## Section 1: Base 64 with a subject -/

/-- What is decoded is the text of the bytes. The subject is for errors only. -/
theorem decodeBase64_eq_ok_iff {s subject : String} {bytes : List UInt8} :
    decodeBase64 s subject = .ok bytes ↔ s = Base64.encode bytes := by
  rw [← Base64.decode_eq_ok_iff]
  unfold decodeBase64
  cases Base64.decode s with
  | error e => simp [Except.mapError]
  | ok bytes' => simp [Except.mapError]

/-- What is refused is flawed. -/
theorem decodeBase64_eq_error_iff {s subject : String} :
    (∃ e, decodeBase64 s subject = .error e) ↔ Base64.Flaw s := by
  rw [← Base64.decode_eq_error_iff]
  unfold decodeBase64
  cases Base64.decode s with
  | error e => simp [Except.mapError]
  | ok bytes => simp [Except.mapError]

/-! ## Section 2: Incidents -/

/-- Quotes, backslashes and control characters are escaped, and no other characters. -/
theorem Json.escape_eq_singleton {c : Char} (hcontrol : 0x20 ≤ c.toNat) (hquote : c ≠ '"')
    (hbackslash : c ≠ '\\') : escape c = [c] := by
  have hne : ∀ d : Char, d.toNat < 0x20 → c ≠ d := by
    intro d hd heq
    rw [heq] at hcontrol
    omega
  rw [escape, if_neg hquote, if_neg hbackslash, if_neg (hne _ (by decide)),
    if_neg (hne _ (by decide)), if_neg (hne _ (by decide)), if_neg (hne _ (by decide)),
    if_neg (hne _ (by decide)), if_neg (by omega)]

/-- Symbols are not escaped: none of the 64 is a quote, a backslash or a control character. -/
theorem Base64.IsSymbol.escape {c : Char} {n : Nat} (h : IsSymbol c n) : Json.escape c = [c] := by
  have htable : ∀ n < 64, 0x20 ≤ (Char.ofNat (symbol n).toNat).toNat ∧
      Char.ofNat (symbol n).toNat ≠ '"' ∧ Char.ofNat (symbol n).toNat ≠ '\\' := by decide
  rw [h.unique (isSymbol_symbol h.lt)]
  obtain ⟨hcontrol, hquote, hbackslash⟩ := htable n h.lt
  exact Json.escape_eq_singleton hcontrol hquote hbackslash

/-- JSON escapes neither symbols nor pads. -/
theorem Base64.escape_encode (bytes : List UInt8) :
    ∀ c ∈ (encode bytes).toList, Json.escape c = [c] := by
  intro c hc
  obtain ⟨symbols, values, pads, htext, hsymbols, -⟩ := canonical_iff.2 (rfl : encode bytes = _)
  rw [htext, String.toList_ofList] at hc
  -- A canonical text is symbols, and pads behind them.
  rcases List.mem_append.1 hc with hc | hc
  · obtain ⟨n, hn⟩ := List.mem_iff_getElem?.1 (isSymbol_of_mem hsymbols hc)
    exact IsSymbol.escape hn
  · rw [List.eq_of_mem_replicate hc]
    exact Json.escape_eq_singleton (by decide) (by decide) (by decide)

/-- The last member of an object ends its text. -/
theorem Json.memberChars_append (members : List (String × Document)) (name : String)
    (j : Document) : ∃ front,
      memberChars (members ++ [(name, j)]) = front ++ quote name ++ ':' :: chars j := by
  -- On the members: each is followed by a comma, as the last one is still to come.
  induction members with
  | nil => exact ⟨[], rfl⟩
  | cons member members ih =>
    obtain ⟨front, hfront⟩ := ih
    obtain ⟨first, more, hmore⟩ : ∃ first more, members ++ [(name, j)] = first :: more :=
      List.exists_cons_of_ne_nil (by simp)
    rw [hmore] at hfront
    refine ⟨quote member.1 ++ ':' :: chars member.2 ++ ',' :: front, ?_⟩
    rw [List.cons_append, hmore, memberChars_cons, hfront]
    simp only [List.append_assoc, List.cons_append]

/-- The data of the incident is one text, which stands in the text of the incident as it is. -/
structure Incident.ShowsPlain (i : Incident) (text : String) : Prop where
  /-- Of the parsed text, the last member is the only one of this name. -/
  parsed : ∃ members, Json.parse? i.toJson = some (.object (members ++ [("data", .string text)])) ∧
    "data" ∉ members.map Prod.fst
  /-- No character is escaped. -/
  plain : ∀ c ∈ text.toList, Json.escape c = [c]
  /-- The text ends the text of the incident. -/
  ends : ∃ front, i.toJson = front ++ "\"data\":\"" ++ text ++ "\"\x7d"

/-- A text of which nothing is escaped stands between quotes as it is. -/
theorem Json.quote_plain {s : String} (h : ∀ c ∈ s.toList, escape c = [c]) :
    quote s = '"' :: s.toList ++ ['"'] := by
  have hplain : s.toList.flatMap escape = s.toList.flatMap fun c => [c] := by
    rw [List.flatMap_def, List.flatMap_def, List.map_congr_left h]
  rw [quote, hplain, List.flatMap_singleton']

/-- The payload of an incident is its last member, and its text stands there as it is. -/
theorem Incident.showsPlain_of_payload {i : Incident} {bytes : List UInt8}
    (h : i.data = some (.payload bytes)) : i.ShowsPlain (Base64.encode bytes) := by
  have hplain := Base64.escape_encode bytes
  have hdocument : i.document =
      .object (i.headMembers ++ [("data", .string (Base64.encode bytes))]) := document_of_data h
  refine ⟨⟨i.headMembers, ?_, i.data_not_mem_headMembers⟩, hplain, ?_⟩
  · rw [← hdocument]
    exact Json.parse?_render i.document_proper
  · obtain ⟨front, hfront⟩ :=
      Json.memberChars_append i.headMembers "data" (.string (Base64.encode bytes))
    refine ⟨String.ofList ('\x7b' :: front), ?_⟩
    apply String.toList_injective
    have hname : Json.quote "data" = "\"data\"".toList := by decide
    rw [toJson, hdocument, Json.render, Json.chars, hfront, Json.chars, Json.quote_plain hplain,
      hname]
    simp

/-! ## Section 3: Inputs -/

/-- The host is told of one input more, and of nothing else. -/
def Host.toldOf (abi text : String) (h : Host) : Host :=
  { h with parseRequests := h.parseRequests ++ [(abi, text)] }

theorem Bridge.host_parseInput (abi : String) (data : List UInt8) (b : Bridge) :
    (parseInput abi data b).2.host = b.host.toldOf abi (Base64.encode data) :=
  congrArg Account.host (account_parseInput abi data b)

theorem Evm.Input.host_parse (i : Input) (abi : String) (b : Bridge) :
    (i.parse abi b).2.host = b.host.toldOf abi (Base64.encode i.data) :=
  congrArg Account.host (account_parse i abi b)

/-- Payloads are canonical base 64. Every payload is read from its text, and from no other; and
    what is refused is flawed. The host gets this text with an incident, and when it is to parse
    an input.

    What is canonical is said without the encoder (`Base64.Canonical`), so that texts have an
    inverse in both directions is a fact about two definitions and not about one. -/
theorem payloads_canonical :
    (∀ bytes subject, decodeBase64 (Base64.encode bytes) subject = .ok bytes) ∧
      (∀ s subject bytes, decodeBase64 s subject = .ok bytes →
        s = Base64.encode bytes ∧ Base64.Canonical s bytes) ∧
      (∀ s t subject bytes, decodeBase64 s subject = .ok bytes →
        decodeBase64 t subject = .ok bytes → s = t) ∧
      (∀ s subject, Base64.Flaw s ↔ ∃ e, decodeBase64 s subject = .error e) ∧
      (∀ (i : Incident) bytes subject, i.data = some (.payload bytes) →
        ∃ text, i.ShowsPlain text ∧ decodeBase64 text subject = .ok bytes) ∧
      (∀ abi bytes subject (b : Bridge), ∃ text, decodeBase64 text subject = .ok bytes ∧
        (Bridge.parseInput abi bytes b).2.host = b.host.toldOf abi text ∧
        (Evm.Input.parse ⟨bytes⟩ abi b).2.host = b.host.toldOf abi text) := by
  refine ⟨?_, ?_, ?_, ?_, ?_, ?_⟩
  · intro bytes subject
    exact decodeBase64_eq_ok_iff.2 rfl
  · intro s subject bytes h
    have htext := decodeBase64_eq_ok_iff.1 h
    exact ⟨htext, Base64.canonical_iff.2 htext⟩
  · intro s t subject bytes hs ht
    rw [decodeBase64_eq_ok_iff.1 hs, decodeBase64_eq_ok_iff.1 ht]
  · intro s subject
    exact decodeBase64_eq_error_iff.symm
  · intro i bytes subject h
    exact ⟨_, i.showsPlain_of_payload h, decodeBase64_eq_ok_iff.2 rfl⟩
  · intro abi bytes subject b
    exact ⟨_, decodeBase64_eq_ok_iff.2 rfl, b.host_parseInput abi bytes,
      Evm.Input.host_parse ⟨bytes⟩ abi b⟩

end ChainGuest
