import Mathlib
import ChainGuest.Proofs.Evm.Grammar
import ChainGuest.Proofs.Value.RoundTrip

/-! # Values of contract calls survive writing and reading

    The words of contract calls are written as hex text, and hosts spell it in several ways:
    with a mark or without, padded or not, in either case. So the writer is taken with a
    spelling of words (`tokensWith`), and any text that spells the word will do. The spelling
    of this library's own writer is one of them (`tokensWith_toHex`).

    Otherwise the argument is that of generic values: what is written derives the value,
    and what is derived is read or refused by its nesting alone.
-/

namespace ChainGuest

namespace Evm.Value

open Wire

/-! ## Section 1: Written values -/

mutual

/-- The tokens of a value whose words are written as `spell` says. -/
def tokensWith (spell : U256 → String) : Value → List Token
  | .bool b => [.tag Variant.bool.name, .bool b]
  | .uint u => [.tag Variant.uint.name, .text (spell u)]
  | .int x => [.tag Variant.int.name, .text (spell x.bits)]
  | .text s => [.tag Variant.text.name, .text s]
  | .address s => [.tag Variant.address.name, .text s]
  | .bytes b => [.tag Variant.bytes.name, .byteList b]
  | .fixedBytes b => [.tag Variant.fixedBytes.name, .byteList b]
  | .array items =>
    .tag Variant.array.name :: .array (UInt32.ofNat items.length) :: itemTokensWith spell items
  | .fixedArray items =>
    .tag Variant.fixedArray.name :: .array (UInt32.ofNat items.length) ::
      itemTokensWith spell items
  | .tuple items =>
    .tag Variant.tuple.name :: .array (UInt32.ofNat items.length) :: itemTokensWith spell items

/-- The tokens of values, one after another. -/
def itemTokensWith (spell : U256 → String) : List Value → List Token
  | [] => []
  | v :: vs => tokensWith spell v ++ itemTokensWith spell vs

end

/-- The tokens of an array of values. -/
def childTokensWith (spell : U256 → String) (items : List Value) : List Token :=
  .array (UInt32.ofNat items.length) :: itemTokensWith spell items

mutual

/-- The spelling in lower case, without a mark and without leading zeros. -/
theorem tokensWith_toHex : (v : Value) → tokensWith U256.toHex v = v.tokens
  | .bool _ | .uint _ | .int _ | .text _ | .address _ | .bytes _ | .fixedBytes _ => by
    simp only [tokensWith, tokens]
  | .array items | .fixedArray items | .tuple items => by
    simp only [tokensWith, tokens, childTokens, itemTokensWith_toHex items]

theorem itemTokensWith_toHex : (items : List Value) →
    itemTokensWith U256.toHex items = itemTokens items
  | [] => by simp only [itemTokensWith, itemTokens]
  | v :: vs => by
    simp only [itemTokensWith, itemTokens, tokensWith_toHex v, itemTokensWith_toHex vs]

end

theorem childTokensWith_toHex (items : List Value) :
    childTokensWith U256.toHex items = childTokens items := by
  rw [childTokensWith, childTokens, itemTokensWith_toHex]

/-- The texts spell their words. -/
def Spells (spell : U256 → String) : Prop := ∀ u, HexText (spell u) u.toNat

mutual

/-- Every string, all bytes and every list can be counted in 32 bits. -/
def Fits : Value → Prop
  | .bool _ | .uint _ | .int _ => True
  | .text s | .address s => (Utf8.encode s).length < 2 ^ 32
  | .bytes b | .fixedBytes b => b.length < 2 ^ 32
  | .array items | .fixedArray items | .tuple items => items.length < 2 ^ 32 ∧ ItemsFit items

/-- All of these values fit. -/
def ItemsFit : List Value → Prop
  | [] => True
  | v :: vs => Fits v ∧ ItemsFit vs

end

/-- A list that can be counted, of values that fit. -/
def ListFits (items : List Value) : Prop := items.length < 2 ^ 32 ∧ ItemsFit items

theorem tag_derives (variant : Variant) :
    TagForm (Token.encode (.tag variant.name)) variant.name := by
  have hfits : (Token.tag variant.name).Fits := by cases variant <;> decide
  exact Token.encode_derives _ hfits

/-- A text that spells a word is short. -/
theorem wordToken_derives {spell : U256 → String} (hspell : Spells spell) (u : U256) :
    WordForm (Token.text (spell u)).encode u := by
  have hlength : (Utf8.encode (spell u)).length ≤ 258 := (hspell u).length_encode_le
  have hfits : (Token.text (spell u)).Fits := Nat.lt_of_le_of_lt hlength (by decide)
  have htext : TextForm (Token.text (spell u)).encode (spell u) := Token.encode_derives _ hfits
  exact .mk htext (hspell u)

variable {spell : U256 → String}

mutual

/-- What is written of a value derives it, in any spelling of its words. By recursion on the
    value, together with lists of values. -/
theorem tokensWith_derive (hspell : Spells spell) : (v : Value) → v.Fits →
    Form (encodeTokens (tokensWith spell v)) v
  | .bool b, _ => by
    have hpayload : BoolForm (Token.bool b).encode b := Token.encode_derives (.bool b) trivial
    simp only [tokensWith, encodeTokens_cons, encodeTokens_nil, List.append_nil]
    exact .mk (tag_derives .bool) (.bool hpayload)
  | .uint u, _ => by
    simp only [tokensWith, encodeTokens_cons, encodeTokens_nil, List.append_nil]
    exact .mk (tag_derives .uint) (.uint (wordToken_derives hspell u))
  | .int x, _ => by
    simp only [tokensWith, encodeTokens_cons, encodeTokens_nil, List.append_nil]
    exact .mk (tag_derives .int) (.int (wordToken_derives hspell x.bits))
  | .text s, hfits => by
    have hpayload : TextForm (Token.text s).encode s := Token.encode_derives (.text s) hfits
    simp only [tokensWith, encodeTokens_cons, encodeTokens_nil, List.append_nil]
    exact .mk (tag_derives .text) (.text hpayload)
  | .address s, hfits => by
    have hpayload : TextForm (Token.text s).encode s := Token.encode_derives (.text s) hfits
    simp only [tokensWith, encodeTokens_cons, encodeTokens_nil, List.append_nil]
    exact .mk (tag_derives .address) (.address hpayload)
  | .bytes b, hfits => by
    have hpayload : ByteListForm (Token.byteList b).encode b :=
      Token.encode_derives (.byteList b) hfits
    simp only [tokensWith, encodeTokens_cons, encodeTokens_nil, List.append_nil]
    exact .mk (tag_derives .bytes) (.bytes hpayload)
  | .fixedBytes b, hfits => by
    have hpayload : ByteListForm (Token.byteList b).encode b :=
      Token.encode_derives (.byteList b) hfits
    simp only [tokensWith, encodeTokens_cons, encodeTokens_nil, List.append_nil]
    exact .mk (tag_derives .fixedBytes) (.fixedBytes hpayload)
  | .array items, hfits => by
    have hitems := itemTokensWith_derive hspell items hfits.2
    simp only [tokensWith, encodeTokens_cons]
    exact .mk (tag_derives .array) (.array (.mk (arrayToken_derives hfits.1) hitems))
  | .fixedArray items, hfits => by
    have hitems := itemTokensWith_derive hspell items hfits.2
    simp only [tokensWith, encodeTokens_cons]
    exact .mk (tag_derives .fixedArray) (.fixedArray (.mk (arrayToken_derives hfits.1) hitems))
  | .tuple items, hfits => by
    have hitems := itemTokensWith_derive hspell items hfits.2
    simp only [tokensWith, encodeTokens_cons]
    exact .mk (tag_derives .tuple) (.tuple (.mk (arrayToken_derives hfits.1) hitems))

/-- What is written of values derives them, one after another. -/
theorem itemTokensWith_derive (hspell : Spells spell) : (items : List Value) → ItemsFit items →
    Grammar.Each Form (encodeTokens (itemTokensWith spell items)) items
  | [], _ => .nil
  | v :: vs, hfits => by
    simp only [itemTokensWith, encodeTokens_append]
    exact .cons (tokensWith_derive hspell v hfits.1) (itemTokensWith_derive hspell vs hfits.2)

end

/-- What is written of a list of values derives it, its header included. -/
theorem childTokensWith_derive (hspell : Spells spell) {items : List Value}
    (hfits : ListFits items) :
    ArrayForm Form (encodeTokens (childTokensWith spell items)) items := by
  have hitems := itemTokensWith_derive hspell items hfits.2
  rw [childTokensWith, encodeTokens_cons]
  exact .mk (arrayToken_derives hfits.1) hitems

/-! ## Section 2: Values that are read -/

mutual

/-- What is derived can be counted, as its headers did. -/
theorem Form.fits : (v : Value) → {bytes : List UInt8} → Form bytes v → v.Fits
  | .bool _, _, _ | .uint _, _, _ | .int _, _, _ => trivial
  | .text s, _, h => by
    obtain ⟨-, hpayload⟩ := h
    cases hpayload with
    | text hs => exact hs.length_lt
  | .address s, _, h => by
    obtain ⟨-, hpayload⟩ := h
    cases hpayload with
    | address hs => exact hs.length_lt
  | .bytes b, _, h => by
    obtain ⟨-, hpayload⟩ := h
    cases hpayload with
    | bytes hb =>
      obtain ⟨hheader, -⟩ := hb
      exact hheader.lt (by decide) (by decide)
  | .fixedBytes b, _, h => by
    obtain ⟨-, hpayload⟩ := h
    cases hpayload with
    | fixedBytes hb =>
      obtain ⟨hheader, -⟩ := hb
      exact hheader.lt (by decide) (by decide)
  | .array items, _, h => by
    obtain ⟨-, hpayload⟩ := h
    cases hpayload with
    | array hi =>
      obtain ⟨hheader, heach⟩ := hi
      exact ⟨hheader.lt (by decide) (by decide), Form.itemsFit items heach⟩
  | .fixedArray items, _, h => by
    obtain ⟨-, hpayload⟩ := h
    cases hpayload with
    | fixedArray hi =>
      obtain ⟨hheader, heach⟩ := hi
      exact ⟨hheader.lt (by decide) (by decide), Form.itemsFit items heach⟩
  | .tuple items, _, h => by
    obtain ⟨-, hpayload⟩ := h
    cases hpayload with
    | tuple hi =>
      obtain ⟨hheader, heach⟩ := hi
      exact ⟨hheader.lt (by decide) (by decide), Form.itemsFit items heach⟩

/-- All values that are derived can be counted. -/
theorem Form.itemsFit : (items : List Value) → {bytes : List UInt8} →
    Grammar.Each Form bytes items → ItemsFit items
  | [], _, _ => trivial
  | v :: vs, _, h => by
    obtain ⟨front, back, rfl, hv, hvs⟩ := Grammar.each_cons.1 h
    exact ⟨Form.fits v hv, Form.itemsFit vs hvs⟩

end

/-- A list of values that is derived can be counted, as its own header did. -/
theorem Form.listFits {bytes : List UInt8} {items : List Value}
    (h : ArrayForm Form bytes items) : ListFits items := by
  obtain ⟨hheader, heach⟩ := h
  exact ⟨hheader.lt (by decide) (by decide), Form.itemsFit items heach⟩

/-! ## Section 3: The limit -/

variable {depth : Nat} {e : DecodeError}

/-- One level of a value, if its children are refused where they nest too deep. Only containers
    can nest too deep for any room, so the other payloads are no case. -/
theorem readLevel_refuses {limit room : Nat} {inner : Option (Reader Value)}
    (hchildren : (readChildren limit inner).Refuses depth
      (fun bytes items => ArrayForm Form bytes items ∧ ¬ 1 + itemNesting items ≤ room) e) :
    (readLevel limit inner).Refuses depth
      (fun bytes v => Form bytes v ∧ ¬ v.nesting ≤ room) e := by
  refine (Reader.Refuses.bind_right Reader.Accepts.valueTag (H := fun tag bytes v =>
    PayloadForm Form tag bytes v ∧ ¬ v.nesting ≤ room) fun tag => ?_).mono ?_
  · rintro c hd front back v hrest ⟨hpayload, hnot⟩
    -- What does not nest is not refused.
    cases hpayload with
    | bool | uint | int | text | address | bytes | fixedBytes =>
      exact absurd (Nat.zero_le room) hnot
    | array hi => exact (hchildren.map Value.array) c hd front back _ hrest ⟨hi, hnot⟩
    | fixedArray hi => exact (hchildren.map Value.fixedArray) c hd front back _ hrest ⟨hi, hnot⟩
    | tuple hi => exact (hchildren.map Value.tuple) c hd front back _ hrest ⟨hi, hnot⟩
  · rintro bytes v ⟨⟨hk, hp⟩, hnot⟩
    exact ⟨_, _, _, _, rfl, hk, hp, hnot⟩

/-- With `room` levels left, the derivations of the values that do not fit are refused, for
    the limit and for nothing else. -/
theorem readWithin_refuses (limit room : Nat) :
    (readWithin limit room).Refuses depth (fun bytes v => Form bytes v ∧ ¬ v.nesting ≤ room)
      (.depthLimitExceeded limit) := by
  -- On the room, as for generic values: a container is one level, and its children are below.
  induction room generalizing depth with
  | zero => exact readLevel_refuses (.fail _)
  | succ room ih =>
    have hchildren : (Reader.array (readWithin limit room)).Refuses (depth + 1)
        (fun bytes items => ArrayForm Form bytes items ∧ ¬ 1 + itemNesting items ≤ room + 1)
        (.depthLimitExceeded limit) := by
      refine (Reader.Refuses.array (readWithin_accepts limit room) ih).mono ?_
      rintro bytes items ⟨hi, hnot⟩
      refine ⟨items, hi, fun hall => hnot ?_⟩
      have hle := itemNesting_le_iff.2 hall
      omega
    exact readLevel_refuses hchildren.deeper

/-- What is made of a buffer that derives values: they are read if all of them nest within
    the limit, and refused for the limit if one does not. -/
theorem listOfBytes_of_form (config : Config) {bytes : List UInt8} {vs : List Value}
    (h : ArrayForm Form bytes vs) :
    (itemNesting vs ≤ config.maxValueDepth → listOfBytes config bytes = (.ok vs, [])) ∧
      (config.maxValueDepth < itemNesting vs →
        (listOfBytes config bytes).1 = .error (.depthLimitExceeded config.maxValueDepth)) := by
  have haccepts : (read config.maxValueDepth).Accepts 0 fun bytes v =>
      Form bytes v ∧ v.nesting ≤ config.maxValueDepth := read_accepts config.maxValueDepth
  have hrefuses : (read config.maxValueDepth).Refuses 0
      (fun bytes v => Form bytes v ∧ ¬ v.nesting ≤ config.maxValueDepth)
      (.depthLimitExceeded config.maxValueDepth) := by
    intro c hd
    unfold read
    rw [hd]
    exact readWithin_refuses config.maxValueDepth config.maxValueDepth c hd
  constructor
  · intro hle
    exact decodeBuffer_of_derivation haccepts.array config .values
      (arrayForm_and.2 ⟨h, itemNesting_le_iff.1 hle⟩)
  · intro hlt
    have hnot : ¬ ∀ v ∈ vs, v.nesting ≤ config.maxValueDepth := fun hall =>
      Nat.not_le.2 hlt (itemNesting_le_iff.2 hall)
    obtain ⟨c, hrun⟩ := (Reader.Refuses.array haccepts hrefuses) (.start bytes) rfl bytes [] vs
      (List.append_nil bytes).symm ⟨h, hnot⟩
    unfold listOfBytes
    rw [decodeBuffer_of_error hrun]

/-- What is read of a buffer derives it, up to bytes that are left behind. -/
theorem form_of_listOfBytes {config : Config} {bytes : List UInt8} {vs : List Value}
    (h : (listOfBytes config bytes).1 = .ok vs) :
    ∃ front, ArrayForm Form front vs ∧ itemNesting vs ≤ config.maxValueDepth := by
  obtain ⟨front, -, -, hform, -⟩ :=
    (decodeBuffer_eq_ok_iff (read_accepts config.maxValueDepth).array config .values bytes vs).1 h
  obtain ⟨hform, hall⟩ := arrayForm_and.1 hform
  exact ⟨front, hform, itemNesting_le_iff.2 hall⟩

end Evm.Value

/-! ## Section 4: Both kinds of values -/

open Wire

/-- Tagged values survive writing and reading, whatever the configuration. A value that can be
    counted is read as it was, with nothing left over to be noticed or refused, if it nests within
    the limit; and it is refused for the limit if it does not. So are lists of values of contract
    calls, in any spelling of their words. Whatever is read, from bytes of any form, is read again
    from what is written of it.

    The last two parts make writing a normal form: several byte strings may hold one value, and
    reading any of them and writing it leads to the one that this library writes. They need no
    assumption on sizes, since a value that was read has been counted by the headers in front of
    its parts. -/
theorem tagged_values_survive (config : Config) :
    (∀ v : Value, v.Fits →
      let bytes := encodeTokens v.tokens
      (v.nesting ≤ config.maxValueDepth → Value.ofBytes config bytes = (.ok v, [])) ∧
        (config.maxValueDepth < v.nesting →
          (Value.ofBytes config bytes).1 = .error (.depthLimitExceeded config.maxValueDepth))) ∧
    (∀ spell, Evm.Value.Spells spell → ∀ vs, Evm.Value.ListFits vs →
      let bytes := encodeTokens (Evm.Value.childTokensWith spell vs)
      (Evm.Value.itemNesting vs ≤ config.maxValueDepth →
          Evm.Value.listOfBytes config bytes = (.ok vs, [])) ∧
        (config.maxValueDepth < Evm.Value.itemNesting vs →
          (Evm.Value.listOfBytes config bytes).1 =
            .error (.depthLimitExceeded config.maxValueDepth))) ∧
    (∀ bytes v, (Value.ofBytes config bytes).1 = .ok v →
      Value.ofBytes config (encodeTokens v.tokens) = (.ok v, [])) ∧
    (∀ spell, Evm.Value.Spells spell →
      ∀ bytes vs, (Evm.Value.listOfBytes config bytes).1 = .ok vs →
        Evm.Value.listOfBytes config (encodeTokens (Evm.Value.childTokensWith spell vs)) =
          (.ok vs, [])) := by
  refine ⟨?values, ?lists, ?valuesAgain, ?listsAgain⟩
  case values =>
    intro v hfits bytes
    exact Value.ofBytes_of_form config (Value.tokens_derive v hfits)
  case lists =>
    intro spell hspell vs hfits bytes
    exact Evm.Value.listOfBytes_of_form config (Evm.Value.childTokensWith_derive hspell hfits)
  -- What is read derives the value, within the limit; so the first part applies to it.
  case valuesAgain =>
    intro bytes v hread
    obtain ⟨front, hform, hle⟩ := Value.form_of_ofBytes hread
    have hfits : v.Fits := Value.Form.fits v hform
    exact (Value.ofBytes_of_form config (Value.tokens_derive v hfits)).1 hle
  case listsAgain =>
    intro spell hspell bytes vs hread
    obtain ⟨front, hform, hle⟩ := Evm.Value.form_of_listOfBytes hread
    have hfits : Evm.Value.ListFits vs := Evm.Value.Form.listFits hform
    exact (Evm.Value.listOfBytes_of_form config
      (Evm.Value.childTokensWith_derive hspell hfits)).1 hle

/-- A struct that names a field twice, with an empty list in it. -/
def sampleStruct : Value :=
  .struct "0x2::coin::Coin" [("id", .list []), ("balance", .u64 300), ("id", .text "ä")]

/-- A word and bytes, beside a list of a tuple. -/
def sampleArguments : List Evm.Value :=
  [.uint 255, .array [.tuple [.int ⟨-1⟩]], .fixedBytes [0, 128, 255]]

/-- Both nest two containers: one level less refuses them. -/
theorem tagged_values_survive_samples :
    Value.ofBytes ⟨2, true⟩ (encodeTokens sampleStruct.tokens) = (.ok sampleStruct, []) ∧
      (Value.ofBytes ⟨1, true⟩ (encodeTokens sampleStruct.tokens)).1 =
        .error (.depthLimitExceeded 1) ∧
      Evm.Value.listOfBytes ⟨2, true⟩ (encodeTokens (Evm.Value.childTokens sampleArguments)) =
        (.ok sampleArguments, []) ∧
      (Evm.Value.listOfBytes ⟨1, true⟩
        (encodeTokens (Evm.Value.childTokens sampleArguments))).1 =
          .error (.depthLimitExceeded 1) ∧
      Value.ofBytes ⟨0, true⟩ (encodeTokens (Value.tokens (.u64 7))) = (.ok (.u64 7), []) := by
  have hfits : sampleStruct.Fits := by
    simp only [sampleStruct, Value.Fits, Value.FieldsFit, Value.ItemsFit]
    decide
  have hlist : Evm.Value.ListFits sampleArguments := by
    simp only [sampleArguments, Evm.Value.ListFits, Evm.Value.ItemsFit, Evm.Value.Fits]
    decide
  rw [← Evm.Value.childTokensWith_toHex]
  obtain ⟨hvalue, hlists, -, -⟩ := tagged_values_survive ⟨2, true⟩
  obtain ⟨hvalue', hlists', -, -⟩ := tagged_values_survive ⟨1, true⟩
  obtain ⟨-, -, hagain, -⟩ := tagged_values_survive ⟨0, true⟩
  refine ⟨(hvalue _ hfits).1 (by decide), (hvalue' _ hfits).2 (by decide),
    (hlists _ U256.toHex_spells _ hlist).1 (by decide),
    (hlists' _ U256.toHex_spells _ hlist).2 (by decide), ?_⟩
  -- The number seven, in nine bytes where one would do.
  exact hagain [0x81, 0xa3, 0x75, 0x36, 0x34, 0xcf, 0, 0, 0, 0, 0, 0, 0, 7] (.u64 7) rfl

end ChainGuest
