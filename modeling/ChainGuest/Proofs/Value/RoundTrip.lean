import Mathlib
import ChainGuest.Proofs.Value.Grammar
import ChainGuest.Proofs.Wire.Refusal
import ChainGuest.Proofs.Wire.Shortest

/-! # Generic values survive writing and reading

    What is written of a value derives it, if its strings, its lists and its lists of fields
    can be counted (`tokens_derive`). Every derivation is read if the value nests within the
    limit, and refused for the limit if it does not (`ofBytes_of_form`), whatever forms its
    headers have. So the limit is met exactly, empty containers included.

    Values that are read can be counted, since their headers counted them (`Form.fits`); so
    they can be written and read again.
-/

namespace ChainGuest.Value

open Wire

/-! ## Section 1: Written values -/

mutual

/-- Every string, every list and every list of fields can be counted in 32 bits. -/
def Fits : Value → Prop
  | .bool _ | .u64 _ => True
  | .text s => (Utf8.encode s).length < 2 ^ 32
  | .list items => items.length < 2 ^ 32 ∧ ItemsFit items
  | .struct typeName fields =>
    (Utf8.encode typeName).length < 2 ^ 32 ∧ fields.length < 2 ^ 32 ∧ FieldsFit fields

/-- All of these values fit. -/
def ItemsFit : List Value → Prop
  | [] => True
  | v :: vs => Fits v ∧ ItemsFit vs

/-- The names and the values of all of these fields fit. -/
def FieldsFit : List (String × Value) → Prop
  | [] => True
  | (name, v) :: fields => (Utf8.encode name).length < 2 ^ 32 ∧ Fits v ∧ FieldsFit fields

end

/-- The tags are short, so what is written of one is always a tag. -/
theorem tag_derives (variant : Variant) :
    TagForm (Token.encode (.tag variant.tag)) variant.tag := by
  have hfits : (Token.tag variant.tag).Fits := by cases variant <;> decide
  exact Token.encode_derives _ hfits

mutual

/-- What is written of a value derives it. By recursion on the value, together with lists of
    values and lists of fields. -/
theorem tokens_derive : (v : Value) → v.Fits → Form (encodeTokens v.tokens) v
  | .bool b, _ => by
    have hpayload : BoolForm (Token.bool b).encode b := Token.encode_derives (.bool b) trivial
    simp only [tokens, encodeTokens_cons, encodeTokens_nil, List.append_nil]
    exact .mk (tag_derives .bool) (.bool hpayload)
  | .u64 n, _ => by
    have hpayload : IntegerForm (Token.uint n).encode n.toNat :=
      Token.encode_derives (.uint n) trivial
    simp only [tokens, encodeTokens_cons, encodeTokens_nil, List.append_nil]
    exact .mk (tag_derives .u64) (.u64 hpayload)
  | .text s, hfits => by
    have hpayload : TextForm (Token.text s).encode s := Token.encode_derives (.text s) hfits
    simp only [tokens, encodeTokens_cons, encodeTokens_nil, List.append_nil]
    exact .mk (tag_derives .text) (.text hpayload)
  | .list items, hfits => by
    obtain ⟨hlength, hitems⟩ := hfits
    have hheader : ArrayHeader (Token.array (UInt32.ofNat items.length)).encode items.length :=
      arrayToken_derives hlength
    simp only [tokens, encodeTokens_cons]
    exact .mk (tag_derives .list) (.list (.mk hheader (itemTokens_derive items hitems)))
  | .struct typeName fields, hfits => by
    obtain ⟨hname, hlength, hfields⟩ := hfits
    have hpair : ArrayHeader (Token.array 2).encode 2 := Token.encode_derives (.array 2) trivial
    have hheader : MapHeader (Token.map (UInt32.ofNat fields.length)).encode fields.length :=
      mapToken_derives hlength
    have htype : TextForm (Token.text typeName).encode typeName :=
      Token.encode_derives (.text typeName) hname
    simp only [tokens, encodeTokens_cons]
    exact .mk (tag_derives .struct)
      (.struct (.mk hpair htype hheader (fieldTokens_derive fields hfields)))

/-- What is written of the items of a list derives them, one after another. -/
theorem itemTokens_derive : (items : List Value) → ItemsFit items →
    Grammar.Each Form (encodeTokens (itemTokens items)) items
  | [], _ => .nil
  | v :: vs, hfits => by
    simp only [itemTokens, encodeTokens_append]
    exact .cons (tokens_derive v hfits.1) (itemTokens_derive vs hfits.2)

/-- What is written of the fields of a struct derives them, each behind its name. -/
theorem fieldTokens_derive : (fields : List (String × Value)) → FieldsFit fields →
    Grammar.Each (FieldForm Form) (encodeTokens (fieldTokens fields)) fields
  | [], _ => .nil
  | (name, v) :: fields, hfits => by
    obtain ⟨hname, hv, hfields⟩ := hfits
    have hkey : TextForm (Token.text name).encode name := Token.encode_derives (.text name) hname
    simp only [fieldTokens, encodeTokens_cons, encodeTokens_append]
    exact .cons (.mk hkey (tokens_derive v hv)) (fieldTokens_derive fields hfields)

end

/-! ## Section 2: Values that are read -/

mutual

/-- What is derived can be counted, as its headers did. -/
theorem Form.fits : (v : Value) → {bytes : List UInt8} → Form bytes v → v.Fits
  | .bool _, _, _ => trivial
  | .u64 _, _, _ => trivial
  -- The payload of a struct has a value of any shape by its type, so it is a case each time.
  | .text s, _, h => by
    obtain ⟨-, hpayload⟩ := h
    cases hpayload with
    | text hs => exact hs.length_lt
    | struct hs => nomatch hs
  | .list items, _, h => by
    obtain ⟨-, hpayload⟩ := h
    cases hpayload with
    | list hi =>
      obtain ⟨hheader, heach⟩ := hi
      exact ⟨hheader.lt (by decide) (by decide), Form.itemsFit items heach⟩
    | struct hs => nomatch hs
  | .struct typeName fields, _, h => by
    obtain ⟨-, hpayload⟩ := h
    cases hpayload with
    | struct hs =>
      obtain ⟨-, hname, hcount, heach⟩ := hs
      exact ⟨hname.length_lt, hcount.lt (by decide) (by decide),
        Form.fieldsFit fields heach⟩

/-- All items that are derived can be counted. -/
theorem Form.itemsFit : (items : List Value) → {bytes : List UInt8} →
    Grammar.Each Form bytes items → ItemsFit items
  | [], _, _ => trivial
  | v :: vs, _, h => by
    obtain ⟨front, back, rfl, hv, hvs⟩ := Grammar.each_cons.1 h
    exact ⟨Form.fits v hv, Form.itemsFit vs hvs⟩

/-- All fields that are derived can be counted. -/
theorem Form.fieldsFit : (fields : List (String × Value)) → {bytes : List UInt8} →
    Grammar.Each (FieldForm Form) bytes fields → FieldsFit fields
  | [], _, _ => trivial
  | (name, v) :: fields, _, h => by
    obtain ⟨front, back, rfl, hfield, hfields⟩ := Grammar.each_cons.1 h
    obtain ⟨hname, hv⟩ := hfield
    exact ⟨hname.length_lt, Form.fits v hv, Form.fieldsFit fields hfields⟩

end

/-! ## Section 3: The limit -/

variable {depth : Nat} {e : DecodeError}

/-- A struct is refused if the value of one of its fields is.

    The fields in front of that one are read, which is why the reader of the values inside has to
    accept what nests within the bound as well as to refuse what does not. -/
theorem readStruct_refuses {inner : Reader Value} {G : Grammar Value} {n : Nat}
    (haccepts : inner.Accepts depth fun bytes v => G bytes v ∧ v.nesting ≤ n)
    (hrefuses : inner.Refuses depth (fun bytes v => G bytes v ∧ ¬ v.nesting ≤ n) e) :
    (readStruct inner).Refuses depth
      (fun bytes v => StructForm G bytes v ∧ ¬ v.nesting ≤ n + 1) e := by
  -- Both for one field: its name is read, and then its value is read or refused.
  have hfield : (readField inner).Accepts depth fun bytes field =>
      FieldForm G bytes field ∧ field.2.nesting ≤ n := by
    refine (Reader.Accepts.text.bind fun name => haccepts.map fun v => (name, v)).congr
      fun bytes field => ?_
    constructor
    · rintro ⟨front, back, name, rfl, hn, v, ⟨hv, hle⟩, rfl⟩
      exact ⟨.mk hn hv, hle⟩
    · rintro ⟨⟨hn, hv⟩, hle⟩
      exact ⟨_, _, _, rfl, hn, _, ⟨hv, hle⟩, rfl⟩
  have hfield' : (readField inner).Refuses depth
      (fun bytes field => FieldForm G bytes field ∧ ¬ field.2.nesting ≤ n) e := by
    refine (Reader.Refuses.bind_right Reader.Accepts.text fun name => hrefuses.map _).mono ?_
    rintro bytes field ⟨⟨hn, hv⟩, hnot⟩
    exact ⟨_, _, _, _, rfl, hn, hv, hnot⟩
  -- The fields that are not all read are those of the structs that nest too deep.
  let Fields (count : Nat) : Grammar (List (String × Value)) := fun bytes fields =>
    (FieldForm G).Each bytes fields ∧ fields.length = count ∧
      ¬ ∀ field ∈ fields, field.2.nesting ≤ n
  refine (Reader.Refuses.position_bind fun start => Reader.Refuses.bind_right
    Reader.Accepts.arrayLength (H := fun length bytes fields => length = 2 ∧
      (TextForm.seq fun _ => MapHeader.seq Fields) bytes fields) fun length => ?_).mono ?_
  · by_cases hlength : length = 2
    · rw [if_neg (not_not.2 hlength)]
      refine (Reader.Refuses.bind_right Reader.Accepts.text fun typeName =>
        Reader.Refuses.bind_right Reader.Accepts.mapLength fun count =>
          (Reader.Refuses.times hfield hfield' count).map _).mono fun bytes fields h =>
            ⟨fields, h.2⟩
    · rintro c - bytes rest fields - ⟨rfl, -⟩
      exact absurd rfl hlength
  · rintro bytes v ⟨⟨hp, hn, hc, hf⟩, hnot⟩
    refine ⟨_, _, _, 2, rfl, hp, rfl, _, _, _, rfl, hn, _, _, _, rfl, hc, hf, rfl,
      fun hall => hnot ?_⟩
    have hle := fieldNesting_le_iff.2 hall
    unfold nesting
    omega

/-- One level of a value, if its lists and its structs are refused where they nest too deep. -/
theorem readLevel_refuses {limit room : Nat} {inner : Option (Reader Value)}
    (hlist : (Reader.inside limit inner Reader.array).Refuses depth
      (fun bytes items => ArrayForm Form bytes items ∧ ¬ 1 + itemNesting items ≤ room) e)
    (hstruct : (Reader.inside limit inner readStruct).Refuses depth
      (fun bytes v => StructForm Form bytes v ∧ ¬ v.nesting ≤ room) e) :
    (readLevel limit inner).Refuses depth
      (fun bytes v => Form bytes v ∧ ¬ v.nesting ≤ room) e := by
  refine (Reader.Refuses.bind_right Reader.Accepts.valueTag (H := fun tag bytes v =>
    PayloadForm Form tag bytes v ∧ ¬ v.nesting ≤ room) fun tag => ?_).mono ?_
  · rintro c hd front back v hrest ⟨hpayload, hnot⟩
    -- What does not nest is not refused.
    cases hpayload with
    | bool | u64 | text => exact absurd (Nat.zero_le room) hnot
    | list hi => exact (hlist.map Value.list) c hd front back _ hrest ⟨hi, hnot⟩
    | struct hs => exact hstruct c hd front back _ hrest ⟨hs, hnot⟩
  · rintro bytes v ⟨⟨hk, hp⟩, hnot⟩
    exact ⟨_, _, _, _, rfl, hk, hp, hnot⟩

/-- With `room` levels left, the derivations of the values that do not fit are refused, for the
    limit and for nothing else.

    Nothing else can be wrong with a derivation: whatever is in front of the container that is one
    level too deep is read, and no byte behind its tag is looked at. -/
theorem readWithin_refuses (limit room : Nat) :
    (readWithin limit room).Refuses depth (fun bytes v => Form bytes v ∧ ¬ v.nesting ≤ room)
      (.depthLimitExceeded limit) := by
  -- On the room. With none left, no container is read at all.
  induction room generalizing depth with
  | zero => exact readLevel_refuses (.fail _) (.fail _)
  | succ room ih =>
    -- Inside a container there is one level less, and as many are counted around it.
    have hlist : (Reader.array (readWithin limit room)).Refuses (depth + 1)
        (fun bytes items => ArrayForm Form bytes items ∧ ¬ 1 + itemNesting items ≤ room + 1)
        (.depthLimitExceeded limit) := by
      refine (Reader.Refuses.array (readWithin_accepts limit room) ih).mono ?_
      rintro bytes items ⟨hi, hnot⟩
      refine ⟨items, hi, fun hall => hnot ?_⟩
      have hle := itemNesting_le_iff.2 hall
      omega
    exact readLevel_refuses hlist.deeper
      (readStruct_refuses (readWithin_accepts limit room) ih).deeper

/-- What is made of a buffer that derives a value: it is read if it nests within the limit, and
    refused for the limit if it does not.

    The forms of its headers and tags have no part in this, so it holds of what other writers make
    of the value too. -/
theorem ofBytes_of_form (config : Config) {bytes : List UInt8} {v : Value} (h : Form bytes v) :
    (v.nesting ≤ config.maxValueDepth → ofBytes config bytes = (.ok v, [])) ∧
      (config.maxValueDepth < v.nesting →
        (ofBytes config bytes).1 = .error (.depthLimitExceeded config.maxValueDepth)) := by
  constructor
  · intro hle
    exact decodeBuffer_of_derivation (read_accepts config.maxValueDepth) config .value ⟨h, hle⟩
  · intro hlt
    obtain ⟨c, hrun⟩ := readWithin_refuses config.maxValueDepth config.maxValueDepth
      (.start bytes) rfl bytes [] v (List.append_nil bytes).symm ⟨h, Nat.not_le.2 hlt⟩
    have hread : read config.maxValueDepth (.start bytes) =
        (.error (.depthLimitExceeded config.maxValueDepth), c) := hrun
    unfold ofBytes
    rw [decodeBuffer_of_error hread]

/-- What is read of a buffer derives it, up to bytes that are left behind. -/
theorem form_of_ofBytes {config : Config} {bytes : List UInt8} {v : Value}
    (h : (ofBytes config bytes).1 = .ok v) :
    ∃ front, Form front v ∧ v.nesting ≤ config.maxValueDepth := by
  obtain ⟨front, -, -, hform, -⟩ :=
    (decodeBuffer_eq_ok_iff (read_accepts config.maxValueDepth) config .value bytes v).1 h
  exact ⟨front, hform⟩

end ChainGuest.Value
