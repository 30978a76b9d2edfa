import Mathlib
import ChainGuest.Proofs.Wire.BigEndian
import ChainGuest.Proofs.Wire.Grammar

/-! # Written tokens against the token grammar

    Every token that is written derives what it was written for, so a reader of the
    token reads it back. Among the forms that a count or an integer has, the written one
    is a shortest one.

    A count is written behind a marker of four bytes at most, so only payloads of fewer
    than `2 ^ 32` elements can be written (`Token.Fits`).
-/

namespace ChainGuest.Wire

/-! ## Section 1: Headers -/

/-- The first form of a header that has room for the count, by the parameters of the
    grammar. -/
def firstHeader (base room : Nat) (wide : List (UInt8 × Nat)) (n : Nat) : List UInt8 :=
  if n < room then [UInt8.ofNat (base + n)]
  else match wide.find? fun row => n < 256 ^ row.2 with
    | some (marker, width) => marker :: bigEndianBytes width n
    | none => []

/-- The first form that has room is a form. -/
theorem firstHeader_derives {base room n : Nat} {wide : List (UInt8 × Nat)}
    (hfits : ∃ row ∈ wide, n < 256 ^ row.2) :
    Header base room wide (firstHeader base room wide n) n := by
  unfold firstHeader
  -- Either the marker has room for the count, or the search finds a row that has.
  by_cases hroom : n < room
  · rw [if_pos hroom]
    exact .fixed hroom
  · rw [if_neg hroom]
    cases hfind : wide.find? fun row => n < 256 ^ row.2 with
    | none =>
      obtain ⟨row, hmem, hn⟩ := hfits
      exact absurd hn (by simpa using List.find?_eq_none.1 hfind row hmem)
    | some row =>
      obtain ⟨marker, width⟩ := row
      have hn : n < 256 ^ width := by simpa using List.find?_some hfind
      exact .wide (List.mem_of_find?_eq_some hfind) hn

/-- If the wide forms stand in the order of their widths, no form is shorter than the first one
    that has room. That the writer takes the first one is therefore no waste of bytes. -/
theorem firstHeader_length_le {base room n : Nat} {wide : List (UInt8 × Nat)}
    (hsorted : wide.Pairwise fun row row' => row.2 ≤ row'.2) {bytes : List UInt8}
    (h : Header base room wide bytes n) :
    (firstHeader base room wide n).length ≤ bytes.length := by
  unfold firstHeader
  by_cases hroom : n < room
  · rw [if_pos hroom]
    cases h <;> simp
  · rw [if_neg hroom]
    cases h with
    | fixed hn => exact absurd hn hroom
    | @wide marker width _ hm hn =>
      cases hfind : wide.find? fun row => n < 256 ^ row.2 with
      | none => simp
      | some row =>
        obtain ⟨_, above, below, rfl, habove⟩ := List.find?_eq_some_iff_append.1 hfind
        -- The form at hand has room too, so it does not stand above the first one.
        have hle : row.2 ≤ width := by
          rcases List.mem_append.1 hm with hm | hm
          · exact absurd hn (by simpa using habove _ hm)
          · rcases List.mem_cons.1 hm with rfl | hm
            · exact Nat.le_refl _
            · exact List.rel_of_pairwise_cons (List.pairwise_append.1 hsorted).2.1 hm
        simpa using hle

theorem arrayHeader_eq_firstHeader {n : Nat} (hn : n < 2 ^ 32) :
    arrayHeader n = firstHeader 0x90 16 [(0xdc, 2), (0xdd, 4)] n := by
  have hfour : n < 4294967296 := hn
  unfold arrayHeader firstHeader
  by_cases htwo : n < 65536 <;> simp [List.find?, htwo, hfour]

theorem mapHeader_eq_firstHeader {n : Nat} (hn : n < 2 ^ 32) :
    mapHeader n = firstHeader 0x80 16 [(0xde, 2), (0xdf, 4)] n := by
  have hfour : n < 4294967296 := hn
  unfold mapHeader firstHeader
  by_cases htwo : n < 65536 <;> simp [List.find?, htwo, hfour]

theorem stringHeader_eq_firstHeader {n : Nat} (hn : n < 2 ^ 32) :
    stringHeader n = firstHeader 0xa0 32 [(0xd9, 1), (0xda, 2), (0xdb, 4)] n := by
  have hfour : n < 4294967296 := hn
  unfold stringHeader firstHeader
  by_cases hone : n < 256 <;> by_cases htwo : n < 65536 <;>
    simp [List.find?, hone, htwo, hfour]

theorem binaryHeader_eq_firstHeader {n : Nat} (hn : n < 2 ^ 32) :
    binaryHeader n = firstHeader 0 0 [(0xc4, 1), (0xc5, 2), (0xc6, 4)] n := by
  have hfour : n < 4294967296 := hn
  unfold binaryHeader firstHeader
  by_cases hone : n < 256 <;> by_cases htwo : n < 65536 <;>
    simp [List.find?, hone, htwo, hfour]

theorem arrayHeader_derives {n : Nat} (hn : n < 2 ^ 32) : ArrayHeader (arrayHeader n) n := by
  rw [arrayHeader_eq_firstHeader hn]
  exact firstHeader_derives ⟨(0xdd, 4), by simp, hn⟩

theorem mapHeader_derives {n : Nat} (hn : n < 2 ^ 32) : MapHeader (mapHeader n) n := by
  rw [mapHeader_eq_firstHeader hn]
  exact firstHeader_derives ⟨(0xdf, 4), by simp, hn⟩

theorem stringHeader_derives {n : Nat} (hn : n < 2 ^ 32) : StringHeader (stringHeader n) n := by
  rw [stringHeader_eq_firstHeader hn]
  exact firstHeader_derives ⟨(0xdb, 4), by simp, hn⟩

theorem binaryHeader_derives {n : Nat} (hn : n < 2 ^ 32) : BinaryHeader (binaryHeader n) n := by
  rw [binaryHeader_eq_firstHeader hn]
  exact firstHeader_derives ⟨(0xc6, 4), by simp, hn⟩

/-- A header of four bytes at most counts to less than `2 ^ 32`. -/
theorem Header.lt {base room n : Nat} {wide : List (UInt8 × Nat)} {bytes : List UInt8}
    (hroom : room ≤ 2 ^ 32) (hwide : ∀ row ∈ wide, 256 ^ row.2 ≤ 2 ^ 32)
    (h : Header base room wide bytes n) : n < 2 ^ 32 := by
  cases h with
  | fixed hn => exact Nat.lt_of_lt_of_le hn hroom
  | wide hm hn => exact Nat.lt_of_lt_of_le hn (hwide _ hm)

theorem arrayHeader_length_le {bytes : List UInt8} {n : Nat} (h : ArrayHeader bytes n) :
    (arrayHeader n).length ≤ bytes.length := by
  rw [arrayHeader_eq_firstHeader (h.lt (by decide) (by decide))]
  exact firstHeader_length_le (by decide) h

theorem mapHeader_length_le {bytes : List UInt8} {n : Nat} (h : MapHeader bytes n) :
    (mapHeader n).length ≤ bytes.length := by
  rw [mapHeader_eq_firstHeader (h.lt (by decide) (by decide))]
  exact firstHeader_length_le (by decide) h

theorem stringHeader_length_le {bytes : List UInt8} {n : Nat} (h : StringHeader bytes n) :
    (stringHeader n).length ≤ bytes.length := by
  rw [stringHeader_eq_firstHeader (h.lt (by decide) (by decide))]
  exact firstHeader_length_le (by decide) h

theorem binaryHeader_length_le {bytes : List UInt8} {n : Nat} (h : BinaryHeader bytes n) :
    (binaryHeader n).length ≤ bytes.length := by
  rw [binaryHeader_eq_firstHeader (h.lt (by decide) (by decide))]
  exact firstHeader_length_le (by decide) h

/-! ## Section 2: Integers -/

/-- A negative integer is written as what is missing to the modulus. -/
theorem negative_derives {marker : UInt8} {width : Nat} {n : Int}
    (hm : (marker, width) ∈ signedForms) (hl : -(256 ^ width) ≤ 2 * n) (hneg : n < 0) :
    IntegerForm (marker :: bigEndianBytes width (256 ^ width + n).toNat) n := by
  have hpos : (0 : Int) < 256 ^ width := by positivity
  have hresidue : n % 256 ^ width = 256 ^ width + n := by
    rw [← Int.add_emod_left, Int.emod_eq_of_lt (by omega) (by omega)]
  have hform := IntegerForm.signed hm hl (by omega)
  rwa [hresidue] at hform

theorem unsignedBytes_derives {n : Nat} (hn : n < 2 ^ 64) : IntegerForm (unsignedBytes n) n := by
  unfold unsignedBytes
  -- One width after another, as the writer tries them.
  by_cases hzero : n < 0x80
  · rw [if_pos hzero]
    exact .positive hzero
  rw [if_neg hzero]
  by_cases hone : n < 0x100
  · rw [if_pos hone]
    exact .unsigned (by simp [unsignedForms]) (by omega)
  rw [if_neg hone]
  by_cases htwo : n < 0x10000
  · rw [if_pos htwo]
    exact .unsigned (by simp [unsignedForms]) (by omega)
  rw [if_neg htwo]
  by_cases hfour : n < 0x100000000
  · rw [if_pos hfour]
    exact .unsigned (by simp [unsignedForms]) (by omega)
  rw [if_neg hfour]
  exact .unsigned (by simp [unsignedForms]) (by omega)

theorem signedBytes_derives {n : Int} (hl : -2 ^ 63 ≤ n) (hu : n < 2 ^ 63) :
    IntegerForm (signedBytes n) n := by
  unfold signedBytes
  by_cases hpos : 0 ≤ n
  · rw [if_pos hpos]
    have hform := unsignedBytes_derives (n := n.toNat) (by omega)
    rwa [Int.toNat_of_nonneg hpos] at hform
  -- From here on the number is negative, and what is written is its residue.
  rw [if_neg hpos]
  by_cases hzero : -0x20 ≤ n
  · rw [if_pos hzero]
    exact .negative hzero (by omega)
  rw [if_neg hzero]
  by_cases hone : -0x80 ≤ n
  · rw [if_pos hone]
    exact negative_derives (show (0xd0, 1) ∈ signedForms by simp [signedForms]) (by omega)
      (by omega)
  rw [if_neg hone]
  by_cases htwo : -0x8000 ≤ n
  · rw [if_pos htwo]
    exact negative_derives (show (0xd1, 2) ∈ signedForms by simp [signedForms]) (by omega)
      (by omega)
  rw [if_neg htwo]
  by_cases hfour : -0x80000000 ≤ n
  · rw [if_pos hfour]
    exact negative_derives (show (0xd2, 4) ∈ signedForms by simp [signedForms]) (by omega)
      (by omega)
  rw [if_neg hfour]
  exact negative_derives (show (0xd3, 8) ∈ signedForms by simp [signedForms]) (by omega)
    (by omega)

/-- The number of bytes in which an integer is written. -/
theorem length_signedBytes (n : Int) :
    (signedBytes n).length =
      if -0x20 ≤ n ∧ n < 0x80 then 1
      else if -0x80 ≤ n ∧ n < 0x100 then 2
      else if -0x8000 ≤ n ∧ n < 0x10000 then 3
      else if -0x80000000 ≤ n ∧ n < 0x100000000 then 5
      else 9 := by
  unfold signedBytes unsignedBytes
  -- The writer asks for the sign first, the table for the size; both come to the same width.
  by_cases hpos : 0 ≤ n
  · simp only [if_pos hpos, apply_ite List.length, List.length_cons, List.length_nil,
      length_bigEndianBytes]
    split_ifs <;> omega
  · simp only [if_neg hpos, apply_ite List.length, List.length_cons, List.length_nil,
      length_bigEndianBytes]
    split_ifs <;> omega

/-- No form of an integer is shorter than the written one: a form of some width can only spell
    integers that the writer spells in that width or less. -/
theorem signedBytes_length_le {bytes : List UInt8} {n : Int} (h : IntegerForm bytes n) :
    (signedBytes n).length ≤ bytes.length := by
  rw [length_signedBytes]
  -- A form of some width bounds its integer, and so the row of the table that can apply.
  cases h with
  | positive hn => rw [if_pos (by omega)]; simp
  | negative hl hu => rw [if_pos (by omega)]; simp
  | unsigned hm hn =>
    simp only [unsignedForms, List.mem_cons, Prod.mk.injEq, List.not_mem_nil, or_false] at hm
    rcases hm with ⟨rfl, rfl⟩ | ⟨rfl, rfl⟩ | ⟨rfl, rfl⟩ | ⟨rfl, rfl⟩ <;>
      simp only [List.length_cons, length_bigEndianBytes] <;> split_ifs <;> omega
  | signed hm hl hu =>
    simp only [signedForms, List.mem_cons, Prod.mk.injEq, List.not_mem_nil, or_false] at hm
    rcases hm with ⟨rfl, rfl⟩ | ⟨rfl, rfl⟩ | ⟨rfl, rfl⟩ | ⟨rfl, rfl⟩ <;>
      simp only [List.length_cons, length_bigEndianBytes] <;> split_ifs <;> omega

/-! ## Section 3: Tokens -/

/-- The payload of a token is one that its header can count. -/
def Token.Fits : Token → Prop
  | .text s => (Utf8.encode s).length < 2 ^ 32
  | .optText s => ∀ t ∈ s, (Utf8.encode t).length < 2 ^ 32
  | .binary bytes => bytes.length < 2 ^ 32
  | .byteList bytes => bytes.length < 2 ^ 32
  | .tag name => (Utf8.encode name).length < 2 ^ 32
  | _ => True

instance : DecidablePred Token.Fits
  | .text s => inferInstanceAs (Decidable ((Utf8.encode s).length < 2 ^ 32))
  | .optText s => inferInstanceAs (Decidable (∀ t ∈ s, (Utf8.encode t).length < 2 ^ 32))
  | .binary bytes => inferInstanceAs (Decidable (bytes.length < 2 ^ 32))
  | .byteList bytes => inferInstanceAs (Decidable (bytes.length < 2 ^ 32))
  | .tag name => inferInstanceAs (Decidable ((Utf8.encode name).length < 2 ^ 32))
  | .array _ | .map _ | .uint _ | .sint _ | .float _ | .bool _ | .nil | .raw _ =>
    .isTrue trivial

/-- The bytes that say what a token says, in any of its forms. -/
def Token.Form : Token → List UInt8 → Prop
  | .array length => fun bytes => ArrayHeader bytes length.toNat
  | .map length => fun bytes => MapHeader bytes length.toNat
  | .uint n => fun bytes => IntegerForm bytes n.toNat
  | .sint n => fun bytes => IntegerForm bytes n.toInt
  | .float x => fun bytes => FloatForm bytes x
  | .bool b => fun bytes => BoolForm bytes b
  | .nil => fun bytes => NilForm bytes ()
  | .text s => fun bytes => TextForm bytes s
  | .optText s => fun bytes => OptionForm TextForm bytes s
  | .binary payload => fun bytes => BinaryForm bytes payload
  | .byteList payload => fun bytes => ByteListForm bytes payload
  | .tag name => fun bytes => TagForm bytes name
  | .raw payload => fun bytes => bytes = payload

/-- What is written for one element after another derives the elements. -/
theorem each_flatMap {α : Type} {G : Grammar α} {write : α → List UInt8} {answers : List α}
    (h : ∀ a ∈ answers, G (write a) a) : G.Each (answers.flatMap write) answers := by
  induction answers with
  | nil => exact .nil
  | cons a rest ih =>
    have hrest : ∀ b ∈ rest, G (write b) b := fun b hb => h b (List.mem_cons_of_mem a hb)
    rw [List.flatMap_cons]
    exact .cons (h a List.mem_cons_self) (ih hrest)

theorem textBytes_derives {s : String} (hs : (Utf8.encode s).length < 2 ^ 32) :
    TextForm (textBytes s) s :=
  .mk (stringHeader_derives hs)

theorem TextForm.length_lt {bytes : List UInt8} {s : String} (h : TextForm bytes s) :
    (Utf8.encode s).length < 2 ^ 32 := by
  obtain ⟨hheader⟩ := h
  exact hheader.lt (by decide) (by decide)

/-- Every token whose payload can be counted is written in one of its forms, so whoever reads the
    token by its grammar reads back what was written. -/
theorem Token.encode_derives (t : Token) (h : t.Fits) : t.Form t.encode := by
  -- Each token is written by its own header and payload; `Fits` bounds what the header counts.
  cases t with
  | array length => exact arrayHeader_derives length.toNat_lt
  | map length => exact mapHeader_derives length.toNat_lt
  | uint n => exact unsignedBytes_derives n.toNat_lt
  | sint n => exact signedBytes_derives n.le_toInt n.toInt_lt
  | float x => exact .double x
  | bool b =>
    cases b with
    | false => exact .false
    | true => exact .true
  | nil => exact .nil
  | text s => exact textBytes_derives h
  | optText s =>
    cases s with
    | none => exact .none
    | some s => exact .some (textBytes_derives (h s rfl))
  | binary payload => exact .mk (binaryHeader_derives h)
  | byteList payload =>
    refine .mk (arrayHeader_derives h) (each_flatMap fun b _ => ?_)
    have hlt : b.toNat < 256 := b.toNat_lt
    exact unsignedBytes_derives (by omega)
  | tag name => exact .mk (mapHeader_derives (by decide)) (textBytes_derives h)
  | raw payload => rfl

/-! ### Tokens one after another -/

@[simp] theorem encodeTokens_nil : encodeTokens [] = [] := rfl

@[simp] theorem encodeTokens_cons (t : Token) (ts : List Token) :
    encodeTokens (t :: ts) = t.encode ++ encodeTokens ts := rfl

@[simp] theorem encodeTokens_append (ts ts' : List Token) :
    encodeTokens (ts ++ ts') = encodeTokens ts ++ encodeTokens ts' := List.flatMap_append

/-- The header of so many elements, if 32 bits can count them. -/
theorem arrayToken_derives {n : Nat} (hn : n < 2 ^ 32) :
    ArrayHeader (Token.array (UInt32.ofNat n)).encode n := by
  have hderives := Token.encode_derives (.array (UInt32.ofNat n)) trivial
  rwa [Token.Form, UInt32.toNat_ofNat_of_lt' hn] at hderives

/-- The header of so many entries, if 32 bits can count them. -/
theorem mapToken_derives {n : Nat} (hn : n < 2 ^ 32) :
    MapHeader (Token.map (UInt32.ofNat n)).encode n := by
  have hderives := Token.encode_derives (.map (UInt32.ofNat n)) trivial
  rwa [Token.Form, UInt32.toNat_ofNat_of_lt' hn] at hderives

end ChainGuest.Wire
