import Mathlib
import ChainGuest.Wire.Token

/-! # Grammars of bytes

    A grammar says which bytes derive which answer, without any reader: the token forms
    of the format, minimal or not, and what is built from them.

    Counts and unsigned integers are written by `bigEndianBytes`; a signed integer of
    `width` bytes is written as its residue modulo `256 ^ width`.
-/

namespace ChainGuest.Wire

/-- Which bytes derive which answer. -/
abbrev Grammar (α : Type) : Type := List UInt8 → α → Prop

namespace Grammar

/-! ## Section 1: Grammars from grammars -/

/-- The answer `a`, derived from no bytes. -/
def done {α : Type} (a : α) : Grammar α := fun bytes b => bytes = [] ∧ b = a

/-- A derivation of `G`, followed by one of the grammar that its answer picks. -/
def seq {α β : Type} (G : Grammar α) (H : α → Grammar β) : Grammar β := fun bytes b =>
  ∃ front back a, bytes = front ++ back ∧ G front a ∧ H a back b

/-- The derivations of `G`, their answers passed through `f`. -/
def map {α β : Type} (f : α → β) (G : Grammar α) : Grammar β := fun bytes b =>
  ∃ a, G bytes a ∧ b = f a

/-- Derivations of `G`, one after another. -/
inductive Each {α : Type} (G : Grammar α) : Grammar (List α) where
  | nil : Each G [] []
  | cons {front back : List UInt8} {a : α} {rest : List α} :
      G front a → Each G back rest → Each G (front ++ back) (a :: rest)

theorem each_nil {α : Type} {G : Grammar α} {bytes : List UInt8} :
    Each G bytes [] ↔ bytes = [] := by
  constructor
  · intro h
    cases h
    rfl
  · rintro rfl
    exact .nil

theorem each_cons {α : Type} {G : Grammar α} {bytes : List UInt8} {a : α} {rest : List α} :
    Each G bytes (a :: rest) ↔
      ∃ front back, bytes = front ++ back ∧ G front a ∧ Each G back rest := by
  constructor
  · intro h
    cases h with
    | cons ha hrest => exact ⟨_, _, rfl, ha, hrest⟩
  · rintro ⟨front, back, rfl, ha, hrest⟩
    exact .cons ha hrest

/-- Derivations of two grammars correspond answer by answer if each answer's do. -/
theorem each_congr {α : Type} {G H : Grammar α} {bytes : List UInt8} {answers : List α}
    (h : ∀ a ∈ answers, ∀ bytes, G bytes a ↔ H bytes a) :
    Each G bytes answers ↔ Each H bytes answers := by
  -- On the answers, as the grammars need to agree on these only.
  induction answers generalizing bytes with
  | nil => rw [each_nil, each_nil]
  | cons a rest ih =>
    have ih' : ∀ back, Each G back rest ↔ Each H back rest :=
      fun back => ih fun b hb => h b (List.mem_cons_of_mem a hb)
    simp only [each_cons, ih', h a List.mem_cons_self]

/-- If each answer's derivations are those of the answers related to it, then so are those of
    answers one after another. -/
theorem each_related {α β : Type} {G : Grammar α} {H : Grammar β} {R : α → β → Prop}
    (h : ∀ bytes b, H bytes b ↔ ∃ a, G bytes a ∧ R a b) {bytes : List UInt8}
    {answers : List β} :
    Each H bytes answers ↔ ∃ found, Each G bytes found ∧ List.Forall₂ R found answers := by
  constructor
  · intro hanswers
    -- From left to right the derivations are taken apart, and an answer is found for each of them.
    induction hanswers with
    | nil => exact ⟨[], .nil, .nil⟩
    | cons hb _ ih =>
      obtain ⟨a, ha, hab⟩ := (h _ _).1 hb
      obtain ⟨found, hfound, hrelated⟩ := ih
      exact ⟨a :: found, .cons ha hfound, .cons hab hrelated⟩
  · intro hfound
    obtain ⟨found, hfound, hrelated⟩ := hfound
    -- Back again the answers that were found say which relation the next one is in.
    induction hfound generalizing answers with
    | nil =>
      cases hrelated
      exact .nil
    | cons ha _ ih =>
      cases hrelated with
      | cons hab hrest => exact .cons ((h _ _).2 ⟨_, ha, hab⟩) (ih hrest)

/-- A side condition on each answer can be moved out of the derivations. -/
theorem each_and {α : Type} {G : Grammar α} {p : α → Prop} {bytes : List UInt8}
    {answers : List α} :
    Each (fun bytes a => G bytes a ∧ p a) bytes answers ↔
      Each G bytes answers ∧ ∀ a ∈ answers, p a := by
  induction answers generalizing bytes with
  | nil => simp [each_nil]
  | cons a rest ih =>
    simp only [each_cons, ih, List.forall_mem_cons]
    constructor
    · rintro ⟨front, back, hb, ⟨ha, hp⟩, hrest, hall⟩
      exact ⟨⟨front, back, hb, ha, hrest⟩, hp, hall⟩
    · rintro ⟨⟨front, back, hb, ha, hrest⟩, hp, hall⟩
      exact ⟨front, back, hb, ⟨ha, hp⟩, hrest, hall⟩

end Grammar

/-! ## Section 2: Headers -/

/-- Headers that count what follows them. A count below `room` may stand in the marker,
    above `base`; in the other forms it follows its marker in so many bytes. -/
inductive Header (base room : Nat) (wide : List (UInt8 × Nat)) : Grammar Nat where
  | fixed {n : Nat} (hn : n < room) : Header base room wide [UInt8.ofNat (base + n)] n
  | wide {marker : UInt8} {width n : Nat} (hm : (marker, width) ∈ wide) (hn : n < 256 ^ width) :
      Header base room wide (marker :: bigEndianBytes width n) n

/-- Headers of arrays: the fixed form and those of 16 and 32 bits. -/
abbrev ArrayHeader : Grammar Nat := Header 0x90 16 [(0xdc, 2), (0xdd, 4)]

/-- Headers of maps: the fixed form and those of 16 and 32 bits. -/
abbrev MapHeader : Grammar Nat := Header 0x80 16 [(0xde, 2), (0xdf, 4)]

/-- Headers of strings: the fixed form and those of 8, 16 and 32 bits. -/
abbrev StringHeader : Grammar Nat := Header 0xa0 32 [(0xd9, 1), (0xda, 2), (0xdb, 4)]

/-- Headers of binaries: the forms of 8, 16 and 32 bits. -/
abbrev BinaryHeader : Grammar Nat := Header 0 0 [(0xc4, 1), (0xc5, 2), (0xc6, 4)]

/-! ## Section 3: Scalars -/

/-- The markers of unsigned integers, with the width of what follows them. -/
def unsignedForms : List (UInt8 × Nat) := [(0xcc, 1), (0xcd, 2), (0xce, 4), (0xcf, 8)]

/-- The markers of signed integers, with the width of what follows them. -/
def signedForms : List (UInt8 × Nat) := [(0xd0, 1), (0xd1, 2), (0xd2, 4), (0xd3, 8)]

/-- The integer forms: seven bits in the marker, a small negative number in the marker, and
    eight wide forms, signed or not. None of them has to be the shortest. -/
inductive IntegerForm : Grammar Int where
  | positive {n : Nat} (hn : n < 0x80) : IntegerForm [UInt8.ofNat n] n
  | negative {n : Int} (hl : -0x20 ≤ n) (hu : n < 0) :
      IntegerForm [UInt8.ofNat (0x100 + n).toNat] n
  | unsigned {marker : UInt8} {width n : Nat} (hm : (marker, width) ∈ unsignedForms)
      (hn : n < 256 ^ width) : IntegerForm (marker :: bigEndianBytes width n) n
  | signed {marker : UInt8} {width : Nat} {n : Int} (hm : (marker, width) ∈ signedForms)
      (hl : -(256 ^ width) ≤ 2 * n) (hu : 2 * n < 256 ^ width) :
      IntegerForm (marker :: bigEndianBytes width (n % 256 ^ width).toNat) n

inductive NilForm : Grammar Unit where
  | nil : NilForm [0xc0] ()

inductive BoolForm : Grammar Bool where
  | false : BoolForm [0xc2] false
  | true : BoolForm [0xc3] true

/-- Floats of double precision, by their bits, and of single precision, which are widened. -/
inductive FloatForm : Grammar Binary64 where
  | double (x : Binary64) : FloatForm (0xcb :: bigEndianBytes 8 x.bits.toNat) x
  | single {n : Nat} (hn : n < 256 ^ 4) :
      FloatForm (0xca :: bigEndianBytes 4 n) (.ofBinary32 n)

/-! ## Section 4: Strings, bytes and arrays -/

/-- A text: any header form with the number of its bytes, and its bytes. -/
inductive TextForm : Grammar String where
  | mk {header : List UInt8} {s : String} (h : StringHeader header (Utf8.encode s).length) :
      TextForm (header ++ Utf8.encode s) s

/-- Bytes as they are, behind any header form with their number. -/
inductive BinaryForm : Grammar (List UInt8) where
  | mk {header payload : List UInt8} (h : BinaryHeader header payload.length) :
      BinaryForm (header ++ payload) payload

/-- Any header form with the number of elements, and one derivation for each of them. -/
inductive ArrayForm {α : Type} (G : Grammar α) : Grammar (List α) where
  | mk {header elements : List UInt8} {answers : List α}
      (h : ArrayHeader header answers.length) (he : G.Each elements answers) :
      ArrayForm G (header ++ elements) answers

/-- A side condition on each element can be moved out of the array. -/
theorem arrayForm_and {α : Type} {G : Grammar α} {p : α → Prop} {bytes : List UInt8}
    {answers : List α} :
    ArrayForm (fun bytes a => G bytes a ∧ p a) bytes answers ↔
      ArrayForm G bytes answers ∧ ∀ a ∈ answers, p a := by
  constructor
  · rintro ⟨hh, he⟩
    obtain ⟨he, hp⟩ := Grammar.each_and.1 he
    exact ⟨.mk hh he, hp⟩
  · rintro ⟨⟨hh, he⟩, hp⟩
    exact .mk hh (Grammar.each_and.2 ⟨he, hp⟩)

/-- Nil, or a derivation of `G`. -/
inductive OptionForm {α : Type} (G : Grammar α) : Grammar (Option α) where
  | none : OptionForm G [0xc0] none
  | some {bytes : List UInt8} {a : α} (h : G bytes a) : OptionForm G bytes (some a)

/-- A byte, as any integer form. -/
abbrev ByteForm : Grammar UInt8 := fun bytes b => IntegerForm bytes b.toNat

/-- Bytes as an array of integers. -/
abbrev ByteListForm : Grammar (List UInt8) := ArrayForm ByteForm

/-- What stands before the payload of a tagged value: a map header of one entry in any
    form, and the tag. -/
inductive TagForm : Grammar String where
  | mk {header key : List UInt8} {tag : String} (hh : MapHeader header 1)
      (hk : TextForm key tag) : TagForm (header ++ key) tag

end ChainGuest.Wire
