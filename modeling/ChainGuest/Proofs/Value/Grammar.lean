import Mathlib
import ChainGuest.Proofs.Wire.Tokens
import ChainGuest.Value

/-! # The grammar of generic values

    A value is derived from a tag and the payload of that tag; the payloads of lists and
    structs are built from the derivations of the values inside them. No form has to be
    the shortest, and names of fields may repeat.

    The reader with `room` levels left accepts exactly the derivations of values whose
    nesting fits the room (`readWithin_accepts`). The induction is on the room, as the
    recursion of the reader is: a container hands the levels below its own to the values
    inside it, and with no level left it is refused, even an empty one.
-/

namespace ChainGuest.Value

open Wire

/-! ## Section 1: Derivations -/

/-- A field of a struct: its name, and its value. -/
inductive FieldForm (G : Grammar Value) : Grammar (String × Value) where
  | mk {front back : List UInt8} {name : String} {v : Value} (hn : TextForm front name)
      (hv : G back v) : FieldForm G (front ++ back) (name, v)

/-- A struct: the header of a pair, the name of its type, the header of a map, and so many
    fields in the order of the bytes. -/
inductive StructForm (G : Grammar Value) : Grammar Value where
  | mk {pair name count entries : List UInt8} {typeName : String}
      {fields : List (String × Value)} (hp : ArrayHeader pair 2) (hn : TextForm name typeName)
      (hc : MapHeader count fields.length) (hf : Grammar.Each (FieldForm G) entries fields) :
      StructForm G (pair ++ (name ++ (count ++ entries))) (.struct typeName fields)

/-- What stands behind a tag. -/
inductive PayloadForm (G : Grammar Value) : String → Grammar Value where
  | bool {bytes : List UInt8} {b : Bool} (h : BoolForm bytes b) :
      PayloadForm G "b" bytes (.bool b)
  | u64 {bytes : List UInt8} {n : UInt64} (h : IntegerForm bytes n.toNat) :
      PayloadForm G "u64" bytes (.u64 n)
  | text {bytes : List UInt8} {s : String} (h : TextForm bytes s) :
      PayloadForm G "s" bytes (.text s)
  | list {bytes : List UInt8} {items : List Value} (h : ArrayForm G bytes items) :
      PayloadForm G "l" bytes (.list items)
  | struct {bytes : List UInt8} {v : Value} (h : StructForm G bytes v) :
      PayloadForm G "st" bytes v

/-- A value: its tag, and the payload of that tag. -/
inductive Form : Grammar Value where
  | mk {key payload : List UInt8} {tag : String} {v : Value} (hk : TagForm key tag)
      (hp : PayloadForm Form tag payload v) : Form (key ++ payload) v

/-! ## Section 2: Nesting -/

/-- Items nest at most so many levels if each of them does. -/
theorem itemNesting_le_iff {items : List Value} {n : Nat} :
    itemNesting items ≤ n ↔ ∀ v ∈ items, v.nesting ≤ n := by
  induction items with
  | nil => simp [itemNesting]
  | cons v items ih => simp [itemNesting, ih]

/-- Fields nest at most so many levels if the value of each of them does. -/
theorem fieldNesting_le_iff {fields : List (String × Value)} {n : Nat} :
    fieldNesting fields ≤ n ↔ ∀ field ∈ fields, field.2.nesting ≤ n := by
  induction fields with
  | nil => simp [fieldNesting]
  | cons field fields ih => simp [fieldNesting, ih]

/-- Structs whose values all nest at most `n` levels are those that nest one level more. -/
theorem structForm_and {G : Grammar Value} {bytes : List UInt8} {v : Value} {n : Nat} :
    StructForm (fun bytes v => G bytes v ∧ v.nesting ≤ n) bytes v ↔
      StructForm G bytes v ∧ v.nesting ≤ n + 1 := by
  -- The bound is carried from a field to the fields of a struct, and from there to the struct.
  have hfield : ∀ bytes field, FieldForm (fun bytes v => G bytes v ∧ v.nesting ≤ n) bytes field ↔
      FieldForm G bytes field ∧ field.2.nesting ≤ n := by
    intro bytes field
    constructor
    · rintro ⟨hn, hv, hle⟩
      exact ⟨.mk hn hv, hle⟩
    · rintro ⟨⟨hn, hv⟩, hle⟩
      exact .mk hn ⟨hv, hle⟩
  have hfields : ∀ entries fields,
      Grammar.Each (FieldForm fun bytes v => G bytes v ∧ v.nesting ≤ n) entries fields ↔
        Grammar.Each (FieldForm G) entries fields ∧ fieldNesting fields ≤ n := by
    intro entries fields
    rw [fieldNesting_le_iff, ← Grammar.each_and]
    exact Grammar.each_congr fun field _ bytes => hfield bytes field
  constructor
  · rintro ⟨hp, hn, hc, hf⟩
    obtain ⟨hf, hle⟩ := (hfields _ _).1 hf
    refine ⟨.mk hp hn hc hf, ?_⟩
    unfold nesting
    omega
  · rintro ⟨⟨hp, hn, hc, hf⟩, hle⟩
    unfold nesting at hle
    exact .mk hp hn hc ((hfields _ _).2 ⟨hf, by omega⟩)

/-! ## Section 3: Readers -/

theorem Variant.ofTag?_eq_some {tag : String} {variant : Variant}
    (h : Variant.ofTag? tag = some variant) : tag = variant.tag := by
  have htag := List.find?_some h
  exact (by simpa using htag : variant.tag = tag).symm

variable {depth : Nat}

/-- Structs of what `inner` reads. -/
theorem readStruct_accepts {inner : Reader Value} {G : Grammar Value}
    (h : inner.Accepts depth G) : (readStruct inner).Accepts depth (StructForm G) := by
  -- A field is its name and its value, in the order in which the grammar has them.
  have hfield : (readField inner).Accepts depth (FieldForm G) := by
    refine (Reader.Accepts.text.bind fun name => h.map fun v => (name, v)).congr
      fun bytes field => ?_
    constructor
    · rintro ⟨front, back, name, rfl, hn, v, hv, rfl⟩
      exact .mk hn hv
    · rintro ⟨hn, hv⟩
      exact ⟨_, _, _, rfl, hn, _, hv, rfl⟩
  -- Behind a header of two, whatever the position that a wrong header would be blamed on.
  have hpair : ∀ start length, Reader.Accepts depth
      (if length ≠ 2 then Attempt.fail (.invalidStructArity start length)
        else do
          let typeName ← Reader.text
          let count ← Reader.mapLength
          return .struct typeName (← Reader.times count (readField inner)))
      (fun bytes v => length = 2 ∧ (TextForm.seq fun typeName => MapHeader.seq fun count =>
        Grammar.map (Value.struct typeName) fun bytes fields =>
          Grammar.Each (FieldForm G) bytes fields ∧ fields.length = count) bytes v) := by
    intro start length
    by_cases hl : length = 2
    · rw [if_neg (not_not.2 hl)]
      refine (Reader.Accepts.text.bind fun typeName => Reader.Accepts.mapLength.bind fun count =>
        (hfield.times count).map (Value.struct typeName)).congr fun bytes v => ?_
      simp [hl]
    · rw [if_pos hl]
      refine (Reader.Accepts.fail _).congr fun bytes v => ?_
      simp [hl]
  refine Reader.Accepts.position_bind fun start =>
    (Reader.Accepts.arrayLength.bind fun length => hpair start length).congr fun bytes v => ?_
  constructor
  · rintro ⟨pair, _, _, rfl, hp, rfl, name, _, typeName, rfl, hn, count, entries, _, rfl, hc,
      fields, ⟨hf, rfl⟩, rfl⟩
    exact .mk hp hn hc hf
  · rintro ⟨hp, hn, hc, hf⟩
    exact ⟨_, _, _, rfl, hp, rfl, _, _, _, rfl, hn, _, _, _, rfl, hc, _, ⟨hf, rfl⟩, rfl⟩

/-- One level of a value, if its lists and its structs are read with the room for them.

    The induction on the room has two cases, with and without readers for the values inside. What
    both have in common is here, so that the five kinds of payloads are gone through once and not
    in each case. -/
theorem readLevel_accepts {limit room : Nat} {inner : Option (Reader Value)}
    (hlist : (Reader.inside limit inner Reader.array).Accepts depth fun bytes items =>
      ArrayForm Form bytes items ∧ 1 + itemNesting items ≤ room)
    (hstruct : (Reader.inside limit inner readStruct).Accepts depth fun bytes v =>
      StructForm Form bytes v ∧ v.nesting ≤ room) :
    (readLevel limit inner).Accepts depth fun bytes v => Form bytes v ∧ v.nesting ≤ room := by
  refine (Reader.Accepts.valueTag.bind (H := fun tag bytes v =>
    PayloadForm Form tag bytes v ∧ v.nesting ≤ room) fun tag => ?_).congr fun bytes v => ?_
  · intro c hd v c'
    constructor
    · -- A tag that is read is that of its kind.
      intro hrun
      cases hkind : Variant.ofTag? tag with
      | none =>
        rw [hkind] at hrun
        simp [Attempt.fail] at hrun
      | some kind =>
        rw [hkind] at hrun
        obtain rfl := Variant.ofTag?_eq_some hkind
        cases kind with
        | bool =>
          obtain ⟨front, back, hr, ⟨b, hb, rfl⟩, rfl⟩ :=
            (Reader.Accepts.bool.map Value.bool c hd v c').1 hrun
          exact ⟨front, back, hr, ⟨.bool hb, Nat.zero_le _⟩, rfl⟩
        | u64 =>
          obtain ⟨front, back, hr, ⟨n, hn, rfl⟩, rfl⟩ :=
            (Reader.Accepts.u64.map Value.u64 c hd v c').1 hrun
          exact ⟨front, back, hr, ⟨.u64 hn, Nat.zero_le _⟩, rfl⟩
        | text =>
          obtain ⟨front, back, hr, ⟨s, hs, rfl⟩, rfl⟩ :=
            (Reader.Accepts.text.map Value.text c hd v c').1 hrun
          exact ⟨front, back, hr, ⟨.text hs, Nat.zero_le _⟩, rfl⟩
        | list =>
          obtain ⟨front, back, hr, ⟨items, ⟨hi, hle⟩, rfl⟩, rfl⟩ :=
            (hlist.map Value.list c hd v c').1 hrun
          exact ⟨front, back, hr, ⟨.list hi, hle⟩, rfl⟩
        | struct =>
          obtain ⟨front, back, hr, ⟨hs, hle⟩, rfl⟩ := (hstruct c hd v c').1 hrun
          exact ⟨front, back, hr, ⟨.struct hs, hle⟩, rfl⟩
    -- Conversely, each payload that is derived is read by the reader of its kind.
    · rintro ⟨front, back, hr, ⟨hp, hle⟩, rfl⟩
      cases hp with
      | bool hb => exact (Reader.Accepts.bool.map Value.bool).run hd hr ⟨_, hb, rfl⟩
      | u64 hn => exact (Reader.Accepts.u64.map Value.u64).run hd hr ⟨_, hn, rfl⟩
      | text hs => exact (Reader.Accepts.text.map Value.text).run hd hr ⟨_, hs, rfl⟩
      | list hi => exact (hlist.map Value.list).run hd hr ⟨_, ⟨hi, hle⟩, rfl⟩
      | struct hs => exact hstruct.run hd hr ⟨hs, hle⟩
  · constructor
    · rintro ⟨key, payload, tag, rfl, hk, hp, hle⟩
      exact ⟨.mk hk hp, hle⟩
    · rintro ⟨⟨hk, hp⟩, hle⟩
      exact ⟨_, _, _, rfl, hk, hp, hle⟩

/-- With `room` levels left, the derivations of the values that fit are read.

    The bound on the nesting has to be part of the statement: without it, the induction hypothesis
    says nothing of the values that are refused inside a container. -/
theorem readWithin_accepts (limit room : Nat) :
    (readWithin limit room).Accepts depth fun bytes v => Form bytes v ∧ v.nesting ≤ room := by
  -- On the room, at every depth: the reader of the values inside runs one level deeper.
  induction room generalizing depth with
  | zero =>
    -- No container is read, and none fits.
    refine readLevel_accepts ((Reader.Accepts.fail _).congr fun bytes items => ?_)
      ((Reader.Accepts.fail _).congr fun bytes v => ?_)
    · simp
    · constructor
      · exact False.elim
      · rintro ⟨⟨_, _, _, _⟩, hle⟩
        simp [nesting] at hle
  | succ room ih =>
    -- Inside a container there is one level less, and as many are counted around it.
    refine readLevel_accepts (Reader.Accepts.deeper (ih.array.congr fun bytes items => ?_))
      (Reader.Accepts.deeper ((readStruct_accepts ih).congr fun bytes v => structForm_and))
    rw [arrayForm_and, ← itemNesting_le_iff, Nat.add_comm 1, Nat.add_le_add_iff_right]

/-- At a cursor with levels entered, the limit leaves the rest of them. -/
theorem read_accepts (limit : Nat) :
    (read limit).Accepts depth fun bytes v => Form bytes v ∧ v.nesting ≤ limit - depth :=
  fun c hd => by
    unfold read
    rw [hd]
    exact readWithin_accepts limit (limit - depth) c hd

/-! ## Section 4: Whole buffers -/

/-- Nothing derives two values. The grammar is not looked into for this: a reader that accepts it
    has one result. -/
theorem Form.unique {bytes : List UInt8} {v v' : Value} (h : Form bytes v) (h' : Form bytes v') :
    v = v' := by
  -- With room for both, the reader reads both from the same bytes.
  let room := max v.nesting v'.nesting
  have haccepts : (readWithin room room).Accepts 0 fun bytes v =>
      Form bytes v ∧ v.nesting ≤ room := readWithin_accepts room room
  exact haccepts.unique ⟨h, Nat.le_max_left _ _⟩ ⟨h', Nat.le_max_right _ _⟩

/-- A buffer of which no byte may be left over holds a value within the limit if and only if it
    derives that value, and then it holds no other.

    So every other byte string is an error, and so is a derivation that nests deeper than the
    limit. The second part has no limit in it: whatever two limits are taken, they never disagree
    about which value a buffer holds. -/
theorem ofBytes_eq_ok_iff (limit : Nat) (bytes : List UInt8) :
    (∀ v, (ofBytes ⟨limit, true⟩ bytes).1 = .ok v ↔ Form bytes v ∧ v.nesting ≤ limit) ∧
      { v | Form bytes v }.Subsingleton := by
  have haccepts : (read limit).Accepts 0 fun bytes v => Form bytes v ∧ v.nesting ≤ limit :=
    read_accepts limit
  constructor
  · intro v
    exact decodeBuffer_eq_ok_iff_of_reject haccepts rfl .value bytes v
  · intro v h v' h'
    exact Form.unique h h'

-- An empty list takes a level, in whatever forms its headers and its tag are written.
example : (ofBytes ⟨1, true⟩ [0xde, 0, 1, 0xd9, 1, 0x6c, 0xdc, 0, 0]).1 = .ok (.list []) := rfl

example : (ofBytes ⟨0, true⟩ [0xde, 0, 1, 0xd9, 1, 0x6c, 0xdc, 0, 0]).1 =
    .error (.depthLimitExceeded 0) := rfl

end ChainGuest.Value
