import Mathlib
import ChainGuest.Proofs.Wire.Orderly
import ChainGuest.Proofs.Wire.Tokens

/-! # Integer readers are exact

    What an integer reader does is determined by the bytes at the cursor, and by whether its
    type holds the integer that they spell. There are five ways it can go (`IntegerOutcome`),
    and from every cursor it goes one of them (`Reader.integer_exact`): the integer is read,
    or it is out of range, or its payload is cut short, or the bytes are at their end, or
    another token stands there. Only the first of them moves the cursor.

    The type decides whether an integer is read, and not which one: two readers that both
    succeed at a place read the same integer and stop at the same place.
-/

namespace ChainGuest.Wire

/-! ## Section 1: Markers -/

/-- The markers of integers, with the width of the payload that they ask for. -/
inductive IntegerMarker : UInt8 → Nat → Prop where
  | positive {marker : UInt8} (h : marker < 0x80) : IntegerMarker marker 0
  | negative {marker : UInt8} (h : 0xe0 ≤ marker) : IntegerMarker marker 0
  | unsigned {marker : UInt8} {width : Nat} (h : (marker, width) ∈ unsignedForms) :
      IntegerMarker marker width
  | signed {marker : UInt8} {width : Nat} (h : (marker, width) ∈ signedForms) :
      IntegerMarker marker width

/-- The table of integers has a row for each of their markers, and for nothing else. -/
theorem integerForm?_width_iff {marker : UInt8} {width : Nat} :
    (∃ form, integerForm? marker = some form ∧ form.width = width) ↔
      IntegerMarker marker width := by
  constructor
  · rintro ⟨form, hform, rfl⟩
    rcases integerForm?_cases hform with ⟨hsmall, rfl⟩ | ⟨hlarge, rfl⟩ | ⟨width, hm, rfl⟩ |
      ⟨width, hm, rfl⟩
    · exact .positive (UInt8.lt_iff_toNat_lt.2 hsmall)
    · exact .negative (UInt8.le_iff_toNat_le.2 hlarge)
    · exact .unsigned hm
    · exact .signed hm
  · intro h
    cases h with
    | positive h => exact ⟨_, if_pos h, rfl⟩
    | negative h =>
      have hnot : ¬ marker < 0x80 := by
        rw [UInt8.lt_iff_toNat_lt]
        rw [UInt8.le_iff_toNat_le] at h
        exact Nat.not_lt.2 (le_trans (by decide) h)
      exact ⟨_, (if_neg hnot).trans (if_pos h), rfl⟩
    | unsigned h => exact ⟨_, integerForm?_unsigned h, rfl⟩
    | signed h => exact ⟨_, integerForm?_signed h, rfl⟩

/-! ## Section 2: Ranges -/

namespace IntKind

/-- How many bits an integer of the type has. -/
def bits : IntKind → Nat
  | .u8 | .i8 => 8
  | .u16 | .i16 => 16
  | .u32 | .i32 => 32
  | .u64 | .i64 => 64

/-- Whether one of the bits is a sign. -/
def isSigned : IntKind → Bool
  | .u8 | .u16 | .u32 | .u64 => false
  | .i8 | .i16 | .i32 | .i64 => true

/-- The integers that so many bits can tell apart: from zero on, or half of them below zero. -/
def InRange (k : IntKind) (n : Int) : Prop :=
  if k.isSigned then -(2 ^ (k.bits - 1)) ≤ n ∧ n < 2 ^ (k.bits - 1) else 0 ≤ n ∧ n < 2 ^ k.bits

theorem holds_iff_inRange (k : IntKind) (n : Int) : k.Holds n ↔ k.InRange n := by
  cases k <;> simp only [Holds, InRange, least, greatest, isSigned, bits] <;> norm_num <;> omega

end IntKind

/-! ## Section 3: Outcomes -/

/-- The ways that reading an integer of a type can go from a cursor. -/
inductive IntegerOutcome (kind : IntKind) (c : Cursor) : Except DecodeError Int × Cursor → Prop
  /-- Any form of an integer that the type holds is read to its end. -/
  | read {front back : List UInt8} {n : Int} (hrest : c.rest = front ++ back)
      (hform : IntegerForm front n) (hrange : kind.InRange n) :
      IntegerOutcome kind c (.ok n, c.advance front.length back)
  | outOfRange {front back : List UInt8} {n : Int} (hrest : c.rest = front ++ back)
      (hform : IntegerForm front n) (hrange : ¬ kind.InRange n) :
      IntegerOutcome kind c (.error (.integerOutOfRange c.position kind), c)
  /-- The payload is missed behind its marker. -/
  | cutShort {marker : UInt8} {tail : List UInt8} {width : Nat} (hrest : c.rest = marker :: tail)
      (hmarker : IntegerMarker marker width) (hshort : tail.length < width) :
      IntegerOutcome kind c (.error (.unexpectedEof (c.position + 1) width tail.length), c)
  | atEnd (hrest : c.rest = []) :
      IntegerOutcome kind c (.error (.unexpectedEof c.position 1 0), c)
  | otherMarker {marker : UInt8} {tail : List UInt8} (hrest : c.rest = marker :: tail)
      (hmarker : ∀ width, ¬ IntegerMarker marker width) :
      IntegerOutcome kind c (.error (.unexpectedMarker c.position .integer marker), c)

namespace Reader

variable {kind : IntKind} {c : Cursor}

/-- The marker decides how a token fails that is not read. -/
theorem token_integer_of_cutShort {marker : UInt8} {tail : List UInt8} {width : Nat}
    (hrest : c.rest = marker :: tail) (hmarker : IntegerMarker marker width)
    (hshort : tail.length < width) :
    token .integer integerForm? c =
      (.error (.unexpectedEof (c.position + 1) width tail.length), c) := by
  obtain ⟨form, hform, rfl⟩ := integerForm?_width_iff.2 hmarker
  have hsplit : splitFront? form.width tail = none := splitFront?_eq_none_iff.2 hshort
  unfold token
  simp only [hrest, hform, hsplit]

theorem token_integer_of_otherMarker {marker : UInt8} {tail : List UInt8}
    (hrest : c.rest = marker :: tail) (hmarker : ∀ width, ¬ IntegerMarker marker width) :
    token .integer integerForm? c =
      (.error (.unexpectedMarker c.position .integer marker), c) := by
  have hnone : integerForm? marker = none := by
    cases hform : integerForm? marker with
    | none => rfl
    | some form => exact absurd (integerForm?_width_iff.1 ⟨form, hform, rfl⟩) (hmarker form.width)
  unfold token
  simp only [hrest, hnone]

/-- A reader whose token fails fails with it. -/
theorem integer_of_token_error {e : DecodeError} {c' : Cursor}
    (h : token .integer integerForm? c = (.error e, c')) : integer kind c = (.error e, c') := by
  unfold integer
  rw [h]

/-- Whatever way it can go, the reader goes. -/
theorem integer_of_outcome {outcome : Except DecodeError Int × Cursor}
    (h : IntegerOutcome kind c outcome) : integer kind c = outcome := by
  -- Each outcome names the bytes that lead to it, so the reader is run on these.
  cases h with
  | read hrest hform hrange =>
    exact (Accepts.integer kind).run rfl hrest ⟨hform, (kind.holds_iff_inRange _).2 hrange⟩
  | outOfRange hrest hform hrange =>
    have hholds := mt (kind.holds_iff_inRange _).1 hrange
    have htoken := Accepts.integerToken.run rfl hrest hform
    unfold integer
    simp only [htoken, if_neg hholds]
  | cutShort hrest hmarker hshort =>
    exact integer_of_token_error (token_integer_of_cutShort hrest hmarker hshort)
  | atEnd hrest =>
    refine integer_of_token_error ?_
    unfold token
    rw [hrest]
  | otherMarker hrest hmarker =>
    exact integer_of_token_error (token_integer_of_otherMarker hrest hmarker)

/-- There is a way to go from every cursor: the bytes are looked at as the reader looks at
    them, the marker first, and then the payload. -/
theorem exists_outcome (kind : IntKind) (c : Cursor) :
    ∃ outcome, IntegerOutcome kind c outcome := by
  cases hrest : c.rest with
  | nil => exact ⟨_, .atEnd hrest⟩
  | cons marker tail =>
    cases hform : integerForm? marker with
    | none =>
      refine ⟨_, .otherMarker hrest fun width hmarker => ?_⟩
      obtain ⟨form, hsome, -⟩ := integerForm?_width_iff.2 hmarker
      exact absurd (hform.symm.trans hsome) (by simp)
    | some form =>
      cases hsplit : splitFront? form.width tail with
      | none =>
        exact ⟨_, .cutShort hrest (integerForm?_width_iff.1 ⟨form, hform, rfl⟩)
          (splitFront?_eq_none_iff.1 hsplit)⟩
      | some parts =>
        obtain ⟨payload, back⟩ := parts
        obtain ⟨rfl, hwidth⟩ := splitFront?_eq_some_iff.1 hsplit
        have hinteger : IntegerForm (marker :: payload) (form.value payload) :=
          integerForm_of_tokenForm ⟨marker, form, payload, rfl, hform, hwidth, rfl⟩
        by_cases hrange : kind.InRange (form.value payload)
        · exact ⟨_, .read hrest hinteger hrange⟩
        · exact ⟨_, .outOfRange hrest hinteger hrange⟩

/-- A reader goes the one way that there is: what it answers is an outcome, and an outcome is what
    it answers. -/
theorem integer_eq_iff_outcome {outcome : Except DecodeError Int × Cursor} :
    integer kind c = outcome ↔ IntegerOutcome kind c outcome := by
  -- There is an outcome, and the reader goes it; so there is no other.
  constructor
  · rintro rfl
    obtain ⟨outcome, h⟩ := exists_outcome kind c
    rwa [integer_of_outcome h]
  · exact integer_of_outcome

/-- What is read is the integer of the token, whatever the type. -/
theorem token_of_integer_eq_ok {n : Int} {c' : Cursor} (h : integer kind c = (.ok n, c')) :
    token .integer integerForm? c = (.ok n, c') := by
  obtain ⟨front, back, hrest, ⟨hform, -⟩, rfl⟩ := (Accepts.integer kind c rfl n c').1 h
  exact Accepts.integerToken.run rfl hrest hform

/-! ## Section 4: Words -/

/-- The reader reads the integers of a type, as words. -/
def ReadsWords {α : Type} (r : Reader α) (kind : IntKind) (toInt : α → Int) : Prop :=
  (do return toInt (← r) : Reader Int) = integer kind

theorem readsWords {α : Type} {kind : IntKind} {ofInt : Int → α} {toInt : α → Int}
    (hto : ∀ n, kind.Holds n → toInt (ofInt n) = n) :
    ReadsWords (do return ofInt (← integer kind)) kind toInt := by
  funext c
  rw [Attempt.map_apply, Attempt.map_apply]
  -- A word is made of an integer that its type holds, and gives it back.
  rcases hrun : integer kind c with ⟨e | n, c'⟩
  · rfl
  · obtain ⟨front, back, -, ⟨-, hholds⟩, -⟩ := (Accepts.integer kind c rfl n c').1 hrun
    exact Prod.ext (congrArg Except.ok (hto n hholds)) rfl

theorem u8_readsWords : ReadsWords u8 .u8 fun w => w.toNat := by
  refine readsWords fun n hn => ?_
  obtain ⟨hl, hu⟩ : 0 ≤ n ∧ n ≤ 0xff := hn
  simp only [UInt8.toNat_ofNat']
  omega

theorem u32_readsWords : ReadsWords u32 .u32 fun w => w.toNat := by
  refine readsWords fun n hn => ?_
  obtain ⟨hl, hu⟩ : 0 ≤ n ∧ n ≤ 0xffffffff := hn
  simp only [UInt32.toNat_ofNat']
  omega

theorem u64_readsWords : ReadsWords u64 .u64 fun w => w.toNat := by
  refine readsWords fun n hn => ?_
  obtain ⟨hl, hu⟩ : 0 ≤ n ∧ n ≤ 0xffffffffffffffff := hn
  simp only [UInt64.toNat_ofNat']
  omega

theorem i64_readsWords : ReadsWords i64 .i64 Int64.toInt := by
  refine readsWords fun n hn => ?_
  obtain ⟨hl, hu⟩ : -0x8000000000000000 ≤ n ∧ n ≤ 0x7fffffffffffffff := hn
  exact Int64.toInt_ofInt_of_le hl (by omega)

/-! ## Section 5: Exactness -/

/-- An integer reader goes the one way that the bytes at the cursor leave it, and does not move if
    it fails. Readers of two types that both succeed read the same integer and stop at the same
    place; and the words of records are read as integers of their types.

    The outcomes cover every cursor and exclude one another (`integer_eq_iff_outcome`), so the
    first part says of each error when it arises, with its offset and its fields, and of success
    what is read. -/
theorem integer_exact (kind : IntKind) (c : Cursor) :
    (∀ outcome, integer kind c = outcome ↔ IntegerOutcome kind c outcome) ∧
      (∀ e c', integer kind c = (.error e, c') → c' = c) ∧
      (∀ (other : IntKind) (n m : Int) (c₁ c₂ : Cursor), integer kind c = (.ok n, c₁) →
        integer other c = (.ok m, c₂) → n = m ∧ c₁ = c₂) ∧
      ReadsWords u8 .u8 (fun w => w.toNat) ∧ ReadsWords u32 .u32 (fun w => w.toNat) ∧
        ReadsWords u64 .u64 (fun w => w.toNat) ∧ ReadsWords i64 .i64 Int64.toInt := by
  refine ⟨fun outcome => integer_eq_iff_outcome, Still.integer kind c, ?_, u8_readsWords,
    u32_readsWords, u64_readsWords, i64_readsWords⟩
  intro other n m c₁ c₂ h h'
  have hsame : (Except.ok n, c₁) = ((.ok m, c₂) : Except DecodeError Int × Cursor) :=
    (token_of_integer_eq_ok h).symm.trans (token_of_integer_eq_ok h')
  simpa using hsame

-- The greatest byte is too great for a signed one.
example : integer .i8 ⟨1, [0xcc, 0xff, 7], 0, []⟩ =
    (.error (.integerOutOfRange 1 .i8), ⟨1, [0xcc, 0xff, 7], 0, []⟩) := rfl

example : integer .u8 ⟨1, [0xcc, 0xff, 7], 0, []⟩ = (.ok 0xff, ⟨3, [7], 0, []⟩) := rfl

end Reader

end ChainGuest.Wire
