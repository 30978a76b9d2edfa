import Mathlib
import ChainGuest.Proofs.Json.NumberToken
import ChainGuest.Proofs.Text.Symbols

/-! # Documents survive writing and reading

    A document whose numbers are tokens (`Json.Proper`) is read from its text as it is, with
    its members and items in their order (`parse?_render`), and its text has no control
    characters (`render_visible`).

    What a string says is kept by escaping: each character is read back as the one piece that
    it was written for, so no string can end before its closing quote.
-/

namespace ChainGuest.Json

/-! ## Section 1: Strings -/

/-- The piece as which an escaped character is read. -/
def pieceOf (c : Char) : Piece :=
  if c.toNat < 0x20 ∧ c ∉ ['\x08', '\x0c', '\n', '\r', '\t'] then .unit c.toNat else .char c

/-- The four digits of a control character are read as its number. -/
theorem hexUnit?_hexDigits {c : Char} (hc : c.toNat < 0x20) :
    hexUnit? '0' '0' (Nat.digitChar (c.toNat / 16)) (Nat.digitChar (c.toNat % 16)) =
      some c.toNat := by
  have htable : ∀ n < 0x20,
      hexUnit? '0' '0' (Nat.digitChar (n / 16)) (Nat.digitChar (n % 16)) = some n := by
    decide
  exact htable c.toNat hc

/-- An escaped character is read as its piece. -/
theorem parsePieces_escape (c : Char) (done : List Piece) (cs : List Char) :
    parsePieces done (escape c ++ cs) = parsePieces (pieceOf c :: done) cs := by
  -- Seven characters have an escape of their own; of the others, only control characters are
  -- spelled by digits.
  by_cases hnamed : c ∈ ['"', '\\', '\x08', '\x0c', '\n', '\r', '\t']
  · simp only [List.mem_cons, List.not_mem_nil, or_false] at hnamed
    rcases hnamed with rfl | rfl | rfl | rfl | rfl | rfl | rfl <;> rfl
  · simp only [List.mem_cons, List.not_mem_nil, or_false, not_or] at hnamed
    obtain ⟨hquote, hback, hb, hf, hn, hr, ht⟩ := hnamed
    unfold escape
    rw [if_neg hquote, if_neg hback, if_neg hb, if_neg hf, if_neg hn, if_neg hr, if_neg ht]
    by_cases hcontrol : c.toNat < 0x20
    · have hpiece : pieceOf c = .unit c.toNat := if_pos ⟨hcontrol, by simp_all⟩
      rw [if_pos hcontrol, hpiece]
      simp [hexDigits, parsePieces, hexUnit?_hexDigits hcontrol]
    · have hpiece : pieceOf c = .char c := if_neg fun h => hcontrol h.1
      rw [if_neg hcontrol, hpiece]
      simp [parsePieces, hback, hcontrol]

/-- An escaped text is read up to its closing quote. -/
theorem parsePieces_escaped (cs : List Char) (done : List Piece) (rest : List Char) :
    parsePieces done (cs.flatMap escape ++ '"' :: rest) =
      some (done.reverse ++ cs.map pieceOf, rest) := by
  -- On the text, as each character is read as one piece whatever was read before.
  induction cs generalizing done with
  | nil => simp [parsePieces]
  | cons c cs ih =>
    rw [List.flatMap_cons, List.append_assoc, parsePieces_escape, ih]
    simp

/-- A unit below the surrogates is a character of its own. -/
theorem resolveChars_unit {n : Nat} (hn : n < 0xd800) (rest : List Piece) :
    resolveChars (.unit n :: rest) = (resolveChars rest).map (Char.ofNat n :: ·) := by
  have hhigh : ¬ (0xd800 ≤ n ∧ n ≤ 0xdbff) := by omega
  have hlow : ¬ (0xdc00 ≤ n ∧ n ≤ 0xdfff) := by omega
  have hnone : ¬ (0xd800 ≤ n ∧ n ≤ 0xdfff) := by omega
  cases rest with
  | nil => simp [resolveChars, hnone]
  | cons piece rest =>
    cases piece with
    | char c => simp [resolveChars, hnone]
    | unit low => rw [resolveChars, if_neg hhigh, if_neg hlow]

/-- Pieces of characters are resolved to these characters. No character of a text is a surrogate,
    and the units that are written are control characters, so none is half of a pair. -/
theorem resolveChars_pieces (cs : List Char) : resolveChars (cs.map pieceOf) = some cs := by
  induction cs with
  | nil => rfl
  | cons c cs ih =>
    rw [List.map_cons]
    by_cases hunit : c.toNat < 0x20 ∧ c ∉ ['\x08', '\x0c', '\n', '\r', '\t']
    · have hpiece : pieceOf c = .unit c.toNat := if_pos hunit
      rw [hpiece, resolveChars_unit (by omega), ih, Char.ofNat_toNat]
      rfl
    · have hpiece : pieceOf c = .char c := if_neg hunit
      rw [hpiece, resolveChars, ih]
      rfl

/-- A quoted text is read as it is. -/
theorem parsePieces_quote (s : String) (rest : List Char) :
    ∃ pieces, parsePieces [] (s.toList.flatMap escape ++ '"' :: rest) = some (pieces, rest) ∧
      resolve pieces = some s := by
  refine ⟨s.toList.map pieceOf, parsePieces_escaped s.toList [] rest, ?_⟩
  unfold resolve
  rw [resolveChars_pieces, Option.map_some, String.ofList_toList]

/-! ## Section 2: Documents -/

mutual

/-- All numbers of a document are tokens. -/
def Proper : Document → Prop
  | .null | .bool _ | .string _ => True
  | .number token => NumberToken token
  | .array items => ItemsProper items
  | .object members => MembersProper members

def ItemsProper : List Document → Prop
  | [] => True
  | j :: items => Proper j ∧ ItemsProper items

def MembersProper : List (String × Document) → Prop
  | [] => True
  | (_, j) :: members => Proper j ∧ MembersProper members

end

/-- Members are proper if those in front and those behind are. -/
theorem membersProper_append {members more : List (String × Document)} :
    MembersProper (members ++ more) ↔ MembersProper members ∧ MembersProper more := by
  induction members with
  | nil => simp [MembersProper]
  | cons member members ih => simp [MembersProper, ih, and_assoc]

theorem dropSpace_cons {c : Char} (hc : isSpace c = false) (cs : List Char) :
    dropSpace (c :: cs) = c :: cs := by
  unfold dropSpace
  rw [List.dropWhile_cons, hc]
  rfl

/-- No number goes on with what stands behind items and members. -/
theorem endsNumber_cons {c : Char} (hc : c = ',' ∨ c = ']' ∨ c = '\x7d') (cs : List Char) :
    EndsNumber (c :: cs) := by
  intro d hd
  obtain rfl : c = d := by simpa using hd
  rcases hc with rfl | rfl | rfl <;> exact ⟨by decide, by decide, by decide, by decide⟩

/-- What begins a number is no character that is neither a digit nor a minus. -/
theorem ne_of_begins {c other : Char} (hc : c.isDigit ∨ c = '-') (hdigit : other.isDigit = false)
    (hminus : other ≠ '-') : c ≠ other := by
  rcases hc with hc | rfl
  · exact ne_of_isDigit hc hdigit
  · exact hminus.symm

/-- What begins a number is no blank, so nothing is skipped before it. -/
theorem isSpace_of_begins {c : Char} (hc : c.isDigit ∨ c = '-') : isSpace c = false := by
  have hblank : c ≠ ' ' := ne_of_begins hc (by decide) (by decide)
  have htab : c ≠ '\t' := ne_of_begins hc (by decide) (by decide)
  have hline : c ≠ '\n' := ne_of_begins hc (by decide) (by decide)
  have hreturn : c ≠ '\r' := ne_of_begins hc (by decide) (by decide)
  simp [isSpace, hblank, htab, hline, hreturn]

/-- The text of a document begins with no blank, and not as an array ends. -/
theorem chars_head {j : Document} (h : j.Proper) :
    ∃ c cs, chars j = c :: cs ∧ isSpace c = false ∧ c ≠ ']' := by
  cases j with
  | null => exact ⟨'n', _, rfl, by decide, by decide⟩
  | bool b =>
    cases b with
    | false => exact ⟨'f', _, rfl, by decide, by decide⟩
    | true => exact ⟨'t', _, rfl, by decide, by decide⟩
  | number token =>
    obtain ⟨c, cs, rfl, hc⟩ := NumberToken.exists_head h
    exact ⟨c, cs, rfl, isSpace_of_begins hc, ne_of_begins hc (by decide) (by decide)⟩
  | string s => exact ⟨'"', _, rfl, by decide, by decide⟩
  | array items => exact ⟨'[', _, rfl, by decide, by decide⟩
  | object members => exact ⟨'\x7b', _, rfl, by decide, by decide⟩

/-- A number is read as its token, if what follows could not have been part of it. -/
theorem parseValue_number {token rest : List Char} (h : NumberToken token)
    (hrest : EndsNumber rest) (fuel : Nat) :
    parseValue (fuel + 1) (token ++ rest) = some (.number token, rest) := by
  have hnumber := parseNumber_append h hrest
  obtain ⟨c, cs, rfl, hc⟩ := h.exists_head
  rw [List.cons_append] at hnumber ⊢
  rw [parseValue, dropSpace_cons (isSpace_of_begins hc)]
  -- What begins a number begins nothing else.
  split
  · next heq => exact absurd (List.cons.inj heq).1 (ne_of_begins hc (by decide) (by decide))
  · next heq => exact absurd (List.cons.inj heq).1 (ne_of_begins hc (by decide) (by decide))
  · next heq => exact absurd (List.cons.inj heq).1 (ne_of_begins hc (by decide) (by decide))
  · next heq => exact absurd (List.cons.inj heq).1 (ne_of_begins hc (by decide) (by decide))
  · next heq => exact absurd (List.cons.inj heq).1 (ne_of_begins hc (by decide) (by decide))
  · next heq => exact absurd (List.cons.inj heq).1 (ne_of_begins hc (by decide) (by decide))
  · rw [hnumber]
    rfl

theorem parseValue_string {cs rest : List Char} {pieces : List Piece}
    (h : parsePieces [] cs = some (pieces, rest)) (fuel : Nat) :
    parseValue (fuel + 1) ('"' :: cs) = some (.string pieces, rest) := by
  rw [parseValue, dropSpace_cons (by decide)]
  simp [h]

theorem parseValue_array {c : Char} (hspace : isSpace c = false) (hc : c ≠ ']') (cs : List Char)
    (fuel : Nat) : parseValue (fuel + 1) ('[' :: c :: cs) = parseItems fuel [] (c :: cs) := by
  rw [parseValue, dropSpace_cons (by decide)]
  simp [dropSpace_cons hspace, hc]

theorem parseValue_object (cs : List Char) (fuel : Nat) :
    parseValue (fuel + 1) ('\x7b' :: '"' :: cs) = parseMembers fuel [] ('"' :: cs) := by
  rw [parseValue, dropSpace_cons (by decide)]
  simp [dropSpace_cons (show isSpace '"' = false by decide)]

section Steps

variable {fuel : Nat} {cs rest : List Char} {item : Spelled}

theorem parseItems_comma {done : List Spelled}
    (h : parseValue fuel cs = some (item, ',' :: rest)) :
    parseItems (fuel + 1) done cs = parseItems fuel (item :: done) rest := by
  rw [parseItems, h]
  simp [dropSpace, isSpace]

theorem parseItems_close {done : List Spelled}
    (h : parseValue fuel cs = some (item, ']' :: rest)) :
    parseItems (fuel + 1) done cs = some (.array (item :: done).reverse, rest) := by
  rw [parseItems, h]
  simp [dropSpace, isSpace]

variable {after : List Char} {pieces : List Piece} {done : List (List Piece × Spelled)}

theorem parseMembers_comma (hname : parsePieces [] cs = some (pieces, ':' :: after))
    (h : parseValue fuel after = some (item, ',' :: rest)) :
    parseMembers (fuel + 1) done ('"' :: cs) = parseMembers fuel ((pieces, item) :: done) rest := by
  rw [parseMembers, dropSpace_cons (by decide)]
  simp [hname, h, dropSpace, isSpace]

theorem parseMembers_close (hname : parsePieces [] cs = some (pieces, ':' :: after))
    (h : parseValue fuel after = some (item, '\x7d' :: rest)) :
    parseMembers (fuel + 1) done ('"' :: cs) =
      some (.object ((pieces, item) :: done).reverse, rest) := by
  rw [parseMembers, dropSpace_cons (by decide)]
  simp [hname, h, dropSpace, isSpace]

end Steps

theorem itemChars_cons (j k : Document) (items : List Document) :
    itemChars (j :: k :: items) = chars j ++ ',' :: itemChars (k :: items) := by
  rw [itemChars]
  simp

theorem memberChars_cons (name : String) (j : Document) (member : String × Document)
    (members : List (String × Document)) :
    memberChars ((name, j) :: member :: members) =
      quote name ++ ':' :: chars j ++ ',' :: memberChars (member :: members) := by
  rw [memberChars]
  simp

/-- A member's text, split where its name ends. -/
theorem quote_append (name : String) (cs : List Char) :
    quote name ++ cs = '"' :: (name.toList.flatMap escape ++ '"' :: cs) := by
  simp [quote]

/-- The text of items begins as that of the first item. -/
theorem itemChars_head {items : List Document} (h : ItemsProper items) (hne : items ≠ []) :
    ∃ c cs, itemChars items = c :: cs ∧ isSpace c = false ∧ c ≠ ']' := by
  match items, hne with
  | [j], _ =>
    rw [itemChars]
    exact chars_head h.1
  | j :: k :: items, _ =>
    obtain ⟨c, cs, hchars, hspace, hc⟩ := chars_head h.1
    rw [itemChars_cons, hchars]
    exact ⟨c, _, rfl, hspace, hc⟩

/-- The text of members begins with a quote. -/
theorem memberChars_head {members : List (String × Document)} (hne : members ≠ []) :
    ∃ cs, memberChars members = '"' :: cs := by
  match members, hne with
  | [(name, j)], _ =>
    rw [memberChars, quote_append]
    exact ⟨_, rfl⟩
  | (name, j) :: member :: members, _ =>
    rw [memberChars_cons, List.append_assoc, quote_append]
    exact ⟨_, rfl⟩

mutual

/-- A document is read from its text, whatever may follow a number follows it.

    By recursion on the document, together with items and members. The bound on the fuel is twice
    the length of the text: at most two calls are nested for each character that is taken, one for
    the value and one for the list that it stands in. -/
theorem parseValue_chars : (j : Document) → j.Proper → ∀ (fuel : Nat) (rest : List Char),
    2 * (chars j).length ≤ fuel → EndsNumber rest →
      ∃ spelled, parseValue fuel (chars j ++ rest) = some (spelled, rest) ∧
        resolved? spelled = some j
  | .null, _, fuel + 1, rest, _, _ => ⟨.null, by simp [parseValue, chars, dropSpace, isSpace], rfl⟩
  | .bool true, _, fuel + 1, rest, _, _ =>
    ⟨.bool true, by simp [parseValue, chars, dropSpace, isSpace], rfl⟩
  | .bool false, _, fuel + 1, rest, _, _ =>
    ⟨.bool false, by simp [parseValue, chars, dropSpace, isSpace], rfl⟩
  | .number token, h, fuel + 1, rest, _, hrest =>
    ⟨.number token, parseValue_number h hrest fuel, rfl⟩
  | .string s, _, fuel + 1, rest, _, _ => by
    obtain ⟨pieces, hparse, hresolve⟩ := parsePieces_quote s rest
    refine ⟨.string pieces, ?_, ?_⟩
    · rw [chars, quote_append]
      exact parseValue_string hparse fuel
    · rw [resolved?, hresolve]
      rfl
  | .array [], _, fuel + 1, rest, _, _ =>
    ⟨.array [], by simp [parseValue, chars, itemChars, dropSpace, isSpace], rfl⟩
  | .array (j :: items), h, fuel + 1, rest, hfuel, _ => by
    have hitems : ItemsProper (j :: items) := h
    obtain ⟨c, cs, hhead, hspace, hc⟩ := itemChars_head hitems (by simp)
    have hroom : 2 * (itemChars (j :: items)).length + 1 ≤ fuel := by
      rw [chars, List.length_append, List.length_cons, List.length_singleton] at hfuel
      omega
    obtain ⟨spelled, hparse, hresolve⟩ := parseItems_chars (j :: items) hitems (by simp)
      fuel [] rest hroom
    refine ⟨.array spelled, ?_, ?_⟩
    · rw [hhead, List.cons_append] at hparse
      rw [chars, hhead, List.append_assoc, List.cons_append, List.cons_append, List.cons_append,
        parseValue_array hspace hc]
      exact hparse
    · rw [resolved?, hresolve]
      rfl
  | .object [], _, fuel + 1, rest, _, _ =>
    ⟨.object [], by simp [parseValue, chars, memberChars, dropSpace, isSpace], rfl⟩
  | .object (member :: members), h, fuel + 1, rest, hfuel, _ => by
    have hmembers : MembersProper (member :: members) := h
    obtain ⟨cs, hhead⟩ := memberChars_head (List.cons_ne_nil member members)
    have hroom : 2 * (memberChars (member :: members)).length + 1 ≤ fuel := by
      rw [chars, List.length_append, List.length_cons, List.length_singleton] at hfuel
      omega
    obtain ⟨spelled, hparse, hresolve⟩ := parseMembers_chars (member :: members) hmembers
      (by simp) fuel [] rest hroom
    refine ⟨.object spelled, ?_, ?_⟩
    · rw [hhead, List.cons_append] at hparse
      rw [chars, hhead, List.append_assoc, List.cons_append, List.cons_append, List.cons_append,
        parseValue_object]
      exact hparse
    · rw [resolved?, hresolve]
      rfl
  | j, h, 0, rest, hfuel, _ => by
    obtain ⟨c, cs, hchars, -⟩ := chars_head h
    rw [hchars] at hfuel
    exact absurd hfuel (by simp)

/-- Items are read up to the end of their array, behind any that were read before. -/
theorem parseItems_chars : (items : List Document) → ItemsProper items → items ≠ [] →
    ∀ (fuel : Nat) (done : List Spelled) (rest : List Char),
      2 * (itemChars items).length + 1 ≤ fuel →
        ∃ spelled, parseItems fuel done (itemChars items ++ ']' :: rest) =
            some (.array (done.reverse ++ spelled), rest) ∧
          resolvedItems? spelled = some items
  | [], _, hne, _, _, _, _ => absurd rfl hne
  | [j], h, _, fuel + 1, done, rest, hfuel => by
    rw [itemChars] at hfuel ⊢
    obtain ⟨item, hparse, hresolve⟩ := parseValue_chars j h.1 fuel _ (by omega)
      (endsNumber_cons (.inr (.inl rfl)) rest)
    refine ⟨[item], ?_, ?_⟩
    · rw [parseItems_close hparse, List.reverse_cons]
    · simp [resolvedItems?, hresolve]
  | j :: k :: items, h, _, fuel + 1, done, rest, hfuel => by
    rw [itemChars_cons] at hfuel ⊢
    rw [List.length_append, List.length_cons] at hfuel
    obtain ⟨item, hparse, hresolve⟩ := parseValue_chars j h.1 fuel _ (by omega)
      (endsNumber_cons (.inl rfl) (itemChars (k :: items) ++ ']' :: rest))
    obtain ⟨more, hmore, hresolveMore⟩ := parseItems_chars (k :: items) h.2 (by simp)
      fuel (item :: done) rest (by omega)
    refine ⟨item :: more, ?_, ?_⟩
    · rw [List.append_assoc, List.cons_append, parseItems_comma hparse, hmore]
      simp
    · simp [resolvedItems?, hresolve, hresolveMore]

/-- Members are read up to the end of their object, each with its name. -/
theorem parseMembers_chars : (members : List (String × Document)) → MembersProper members →
    members ≠ [] → ∀ (fuel : Nat) (done : List (List Piece × Spelled)) (rest : List Char),
      2 * (memberChars members).length + 1 ≤ fuel →
        ∃ spelled, parseMembers fuel done (memberChars members ++ '\x7d' :: rest) =
            some (.object (done.reverse ++ spelled), rest) ∧
          resolvedMembers? spelled = some members
  | [], _, hne, _, _, _, _ => absurd rfl hne
  | [(name, j)], h, _, fuel + 1, done, rest, hfuel => by
    rw [memberChars] at hfuel ⊢
    rw [List.length_append, List.length_cons] at hfuel
    obtain ⟨item, hparse, hresolve⟩ := parseValue_chars j h.1 fuel _ (by omega)
      (endsNumber_cons (.inr (.inr rfl)) rest)
    obtain ⟨pieces, hname, hresolveName⟩ :=
      parsePieces_quote name (':' :: (chars j ++ '\x7d' :: rest))
    refine ⟨[(pieces, item)], ?_, ?_⟩
    · rw [List.append_assoc, List.cons_append, quote_append, parseMembers_close hname hparse,
        List.reverse_cons]
    · simp [resolvedMembers?, hresolve, hresolveName]
  | (name, j) :: member :: members, h, _, fuel + 1, done, rest, hfuel => by
    rw [memberChars_cons] at hfuel ⊢
    rw [List.length_append, List.length_append, List.length_cons, List.length_cons] at hfuel
    obtain ⟨item, hparse, hresolve⟩ := parseValue_chars j h.1 fuel _ (by omega)
      (endsNumber_cons (.inl rfl) (memberChars (member :: members) ++ '\x7d' :: rest))
    obtain ⟨pieces, hname, hresolveName⟩ := parsePieces_quote name
      (':' :: (chars j ++ ',' :: (memberChars (member :: members) ++ '\x7d' :: rest)))
    obtain ⟨more, hmore, hresolveMore⟩ := parseMembers_chars (member :: members) h.2 (by simp)
      fuel ((pieces, item) :: done) rest (by omega)
    refine ⟨(pieces, item) :: more, ?_, ?_⟩
    · simp only [List.append_assoc, List.cons_append]
      rw [quote_append, parseMembers_comma hname hparse, hmore]
      simp
    · simp [resolvedMembers?, hresolve, hresolveName, hresolveMore]

end

/-- A document is read from its text as it is.

    The parser begins with more fuel than the length of the text asks for, and nothing is left
    behind the document, so the whole text is taken. -/
theorem parse?_render {j : Document} (h : j.Proper) : parse? j.render = some j := by
  have hend : EndsNumber [] := by
    intro c hc
    exact absurd hc (by simp)
  obtain ⟨spelled, hparse, hresolve⟩ := parseValue_chars j h
    (2 * (chars j).length + 2) [] (Nat.le_add_right _ _) hend
  rw [List.append_nil] at hparse
  have htext : j.render.toList = chars j := String.toList_ofList
  have hspelled : spelled? j.render = some spelled := by
    simp only [spelled?, htext, hparse, Option.bind_eq_bind, Option.bind_some]
    rfl
  rw [parse?, hspelled]
  exact hresolve

/-! ## Section 3: No control characters -/

/-- Characters among which there are no control characters below the blank. -/
def Visible (cs : List Char) : Prop := ∀ c ∈ cs, 0x20 ≤ c.toNat

@[simp] theorem visible_nil : Visible [] := by simp [Visible]

@[simp] theorem visible_cons {c : Char} {cs : List Char} :
    Visible (c :: cs) ↔ 0x20 ≤ c.toNat ∧ Visible cs := by simp [Visible]

@[simp] theorem visible_append {cs ds : List Char} : Visible (cs ++ ds) ↔ Visible cs ∧ Visible ds :=
  List.forall_mem_append

/-- No escape has a control character in it, whichever character it is for. -/
theorem escape_visible (c : Char) : Visible (escape c) := by
  unfold escape
  split_ifs with _ _ _ _ _ _ _ hcontrol
  -- The control characters without a letter of their own are spelled by digits.
  pick_goal 8
  · have htable : ∀ n < 0x20, 0x20 ≤ (Nat.digitChar (n / 16)).toNat ∧
        0x20 ≤ (Nat.digitChar (n % 16)).toNat := by
      decide
    simpa [hexDigits] using htable c.toNat hcontrol
  pick_goal 8
  · simpa using hcontrol
  all_goals simp

/-- A quoted text has no control characters, though the text may have some. -/
@[simp] theorem quote_visible (s : String) : Visible (quote s) := by
  have hescaped : Visible (s.toList.flatMap escape) := by
    intro d hd
    obtain ⟨c, -, hc⟩ := List.mem_flatMap.1 hd
    exact escape_visible c d hc
  simp [quote, hescaped]

/-- A token is made of digits and marks. -/
theorem NumberToken.visible {token : List Char} (h : NumberToken token) : Visible token := by
  intro c hc
  rcases h.mem hc with hdigit | hmark
  · have hrange := Char.isDigit_iff_toNat.1 hdigit
    exact le_trans (by decide) hrange.1
  · simp only [List.mem_cons, List.not_mem_nil, or_false] at hmark
    rcases hmark with rfl | rfl | rfl | rfl | rfl <;> decide

mutual

/-- The text of a document has no control characters. By recursion on the document, together with
    items and members. -/
theorem chars_visible : (j : Document) → j.Proper → Visible (chars j)
  | .null, _ => by simp [chars]
  | .bool true, _ => by simp [chars]
  | .bool false, _ => by simp [chars]
  | .number _, h => NumberToken.visible h
  | .string s, _ => quote_visible s
  | .array items, h => by
    have hitems : Visible (itemChars items) := itemChars_visible items h
    simp [chars, hitems]
  | .object members, h => by
    have hmembers : Visible (memberChars members) := memberChars_visible members h
    simp [chars, hmembers]

theorem itemChars_visible : (items : List Document) → ItemsProper items →
    Visible (itemChars items)
  | [], _ => visible_nil
  | [j], h => by
    rw [itemChars]
    exact chars_visible j h.1
  | j :: k :: items, h => by
    have hfirst : Visible (chars j) := chars_visible j h.1
    have hmore : Visible (itemChars (k :: items)) := itemChars_visible (k :: items) h.2
    simp [itemChars_cons, hfirst, hmore]

theorem memberChars_visible : (members : List (String × Document)) → MembersProper members →
    Visible (memberChars members)
  | [], _ => visible_nil
  | [(name, j)], h => by
    have hvalue : Visible (chars j) := chars_visible j h.1
    simp [memberChars, hvalue]
  | (name, j) :: member :: members, h => by
    have hvalue : Visible (chars j) := chars_visible j h.1
    have hmore : Visible (memberChars (member :: members)) :=
      memberChars_visible (member :: members) h.2
    simp [memberChars_cons, hvalue, hmore]

end

/-- The bytes of a visible character are no control bytes: it is its own byte, or all of its
    bytes are beyond those of ASCII. -/
theorem utf8EncodeChar_visible {c : Char} (hc : 0x20 ≤ c.toNat) :
    ∀ b ∈ String.utf8EncodeChar c, 0x20 ≤ b.toNat := by
  have hvalue : 0x20 ≤ c.val.toNat := hc
  intro b hb
  unfold String.utf8EncodeChar at hb
  dsimp only at hb
  split_ifs at hb <;> simp only [List.mem_cons, List.not_mem_nil, or_false] at hb
  · obtain rfl := hb
    rw [UInt8.toNat_ofNat_of_lt' (by simp only [UInt8.size]; omega)]
    exact hvalue
  · rcases hb with rfl | rfl <;>
      rw [UInt8.toNat_ofNat_of_lt' (by simp only [UInt8.size]; omega)] <;> omega
  · rcases hb with rfl | rfl | rfl <;>
      rw [UInt8.toNat_ofNat_of_lt' (by simp only [UInt8.size]; omega)] <;> omega
  · rcases hb with rfl | rfl | rfl | rfl <;>
      rw [UInt8.toNat_ofNat_of_lt' (by simp only [UInt8.size]; omega)] <;> omega

/-- No byte of a document's text is a control byte. -/
theorem render_visible {j : Document} (h : j.Proper) :
    ∀ b ∈ Utf8.encode j.render, 0x20 ≤ b.toNat := by
  intro b hb
  rw [render, Utf8.encode_ofList] at hb
  obtain ⟨c, hc, hb⟩ := List.mem_flatMap.1 hb
  exact utf8EncodeChar_visible (chars_visible j h c hc) b hb

end ChainGuest.Json
