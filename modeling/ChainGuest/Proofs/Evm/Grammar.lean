import Mathlib
import ChainGuest.Evm.Value
import ChainGuest.Proofs.Number.HexWord
import ChainGuest.Proofs.Wire.Tokens

/-! # The grammar of values of contract calls

    The ten tags have five kinds of payloads: a boolean, hex text, text, bytes as an array
    of integers, and an array of values. A buffer holds an array of values.

    The induction is that of generic values: on the room that is left for containers
    (`readWithin_accepts`). The array around the values of a buffer is no value, so it
    takes no room.
-/

namespace ChainGuest.Evm.Value

open Wire

/-! ## Section 1: Derivations -/

/-- A word: a text that spells its 256 bits. -/
inductive WordForm : Grammar U256 where
  | mk {bytes : List UInt8} {s : String} {u : U256} (ht : TextForm bytes s)
      (hs : HexText s u.toNat) : WordForm bytes u

/-- What stands behind a tag. -/
inductive PayloadForm (G : Grammar Value) : String → Grammar Value where
  | bool {bytes : List UInt8} {b : Bool} (h : BoolForm bytes b) :
      PayloadForm G "Bool" bytes (.bool b)
  | uint {bytes : List UInt8} {u : U256} (h : WordForm bytes u) :
      PayloadForm G "Uint" bytes (.uint u)
  | int {bytes : List UInt8} {x : I256} (h : WordForm bytes x.bits) :
      PayloadForm G "Int" bytes (.int x)
  | text {bytes : List UInt8} {s : String} (h : TextForm bytes s) :
      PayloadForm G "String" bytes (.text s)
  | address {bytes : List UInt8} {s : String} (h : TextForm bytes s) :
      PayloadForm G "Address" bytes (.address s)
  | bytes {bytes : List UInt8} {b : List UInt8} (h : ByteListForm bytes b) :
      PayloadForm G "Bytes" bytes (.bytes b)
  | fixedBytes {bytes : List UInt8} {b : List UInt8} (h : ByteListForm bytes b) :
      PayloadForm G "FixedBytes" bytes (.fixedBytes b)
  | array {bytes : List UInt8} {items : List Value} (h : ArrayForm G bytes items) :
      PayloadForm G "Array" bytes (.array items)
  | fixedArray {bytes : List UInt8} {items : List Value} (h : ArrayForm G bytes items) :
      PayloadForm G "FixedArray" bytes (.fixedArray items)
  | tuple {bytes : List UInt8} {items : List Value} (h : ArrayForm G bytes items) :
      PayloadForm G "Tuple" bytes (.tuple items)

/-- A value: its tag, and the payload of that tag. -/
inductive Form : Grammar Value where
  | mk {key payload : List UInt8} {tag : String} {v : Value} (hk : TagForm key tag)
      (hp : PayloadForm Form tag payload v) : Form (key ++ payload) v

/-! ## Section 2: Readers -/

/-- Values nest at most so many levels if each of them does. -/
theorem itemNesting_le_iff {items : List Value} {n : Nat} :
    itemNesting items ≤ n ↔ ∀ v ∈ items, v.nesting ≤ n := by
  induction items with
  | nil => simp [itemNesting]
  | cons v items ih => simp [itemNesting, ih]

theorem Variant.ofTag?_eq_some {tag : String} {variant : Variant}
    (h : Variant.ofTag? tag = some variant) : tag = variant.name := by
  have htag := List.find?_some h
  exact (by simpa using htag : variant.name = tag).symm

variable {depth : Nat}

/-- The reader of words, whatever is made of their bits.

    Unsigned and signed words are read by the same steps and differ in the function that parses
    the text; all that is used of it is which texts it takes, and for which word. -/
theorem word_accepts {α : Type} {ofHex : String → Except DecodeError α} (bits : α → U256)
    (hof : ∀ s a, ofHex s = .ok a ↔ HexText s (bits a).toNat) (f : α → Value) :
    Reader.Accepts depth
      (Reader.text >>= fun s => Attempt.ofExcept (ofHex s) >>= fun a => pure (f a))
      (Grammar.map f fun bytes a => WordForm bytes (bits a)) := by
  refine (Reader.Accepts.text.bind fun s =>
    (Reader.Accepts.ofExcept (ofHex s)).map f).congr fun bytes v => ?_
  constructor
  · rintro ⟨front, back, s, rfl, ht, a, ⟨rfl, ha⟩, rfl⟩
    rw [List.append_nil]
    exact ⟨a, .mk ht ((hof s a).1 ha), rfl⟩
  · rintro ⟨a, ⟨ht, hs⟩, rfl⟩
    exact ⟨_, [], _, (List.append_nil _).symm, ht, a, ⟨rfl, (hof _ a).2 hs⟩, rfl⟩

theorem uint_accepts : Reader.Accepts depth
    (Reader.text >>= fun s => Attempt.ofExcept (U256.ofHex s) >>= fun u => pure (Value.uint u))
    (WordForm.map Value.uint) :=
  word_accepts id (fun _ _ => U256.ofHex_eq_ok_iff) Value.uint

theorem int_accepts : Reader.Accepts depth
    (Reader.text >>= fun s => Attempt.ofExcept (I256.ofHex s) >>= fun x => pure (Value.int x))
    (Grammar.map Value.int fun bytes x => WordForm bytes x.bits) :=
  word_accepts I256.bits (fun _ _ => I256.ofHex_eq_ok_iff) Value.int

/-- One level of a value, if the children of containers are read with the room for them.

    The three kinds of containers have one reader of children, so one hypothesis serves them all;
    the seven others have no children and fit any room. -/
theorem readLevel_accepts {limit room : Nat} {inner : Option (Reader Value)}
    (hchildren : (readChildren limit inner).Accepts depth fun bytes items =>
      ArrayForm Form bytes items ∧ 1 + itemNesting items ≤ room) :
    (readLevel limit inner).Accepts depth fun bytes v => Form bytes v ∧ v.nesting ≤ room := by
  refine (Reader.Accepts.valueTag.bind (H := fun tag bytes v =>
    PayloadForm Form tag bytes v ∧ v.nesting ≤ room) fun tag => ?_).congr fun bytes v => ?_
  · intro c hd v c'
    constructor
    · -- A tag that is read is that of its kind.
      intro hrun
      cases hkind : Variant.ofTag? tag with
      | none =>
        rw [hkind] at hrun
        simp [Attempt.fail] at hrun
      | some kind =>
        rw [hkind] at hrun
        obtain rfl := Variant.ofTag?_eq_some hkind
        cases kind with
        | bool =>
          obtain ⟨front, back, hr, ⟨b, hb, rfl⟩, rfl⟩ :=
            (Reader.Accepts.bool.map Value.bool c hd v c').1 hrun
          exact ⟨front, back, hr, ⟨.bool hb, Nat.zero_le _⟩, rfl⟩
        | uint =>
          obtain ⟨front, back, hr, ⟨u, hu, rfl⟩, rfl⟩ := (uint_accepts c hd v c').1 hrun
          exact ⟨front, back, hr, ⟨.uint hu, Nat.zero_le _⟩, rfl⟩
        | int =>
          obtain ⟨front, back, hr, ⟨x, hx, rfl⟩, rfl⟩ := (int_accepts c hd v c').1 hrun
          exact ⟨front, back, hr, ⟨.int hx, Nat.zero_le _⟩, rfl⟩
        | text =>
          obtain ⟨front, back, hr, ⟨s, hs, rfl⟩, rfl⟩ :=
            (Reader.Accepts.text.map Value.text c hd v c').1 hrun
          exact ⟨front, back, hr, ⟨.text hs, Nat.zero_le _⟩, rfl⟩
        | address =>
          obtain ⟨front, back, hr, ⟨s, hs, rfl⟩, rfl⟩ :=
            (Reader.Accepts.text.map Value.address c hd v c').1 hrun
          exact ⟨front, back, hr, ⟨.address hs, Nat.zero_le _⟩, rfl⟩
        | bytes =>
          obtain ⟨front, back, hr, ⟨b, hb, rfl⟩, rfl⟩ :=
            (Reader.Accepts.byteList.map Value.bytes c hd v c').1 hrun
          exact ⟨front, back, hr, ⟨.bytes hb, Nat.zero_le _⟩, rfl⟩
        | fixedBytes =>
          obtain ⟨front, back, hr, ⟨b, hb, rfl⟩, rfl⟩ :=
            (Reader.Accepts.byteList.map Value.fixedBytes c hd v c').1 hrun
          exact ⟨front, back, hr, ⟨.fixedBytes hb, Nat.zero_le _⟩, rfl⟩
        | array =>
          obtain ⟨front, back, hr, ⟨items, ⟨hi, hle⟩, rfl⟩, rfl⟩ :=
            (hchildren.map Value.array c hd v c').1 hrun
          exact ⟨front, back, hr, ⟨.array hi, hle⟩, rfl⟩
        | fixedArray =>
          obtain ⟨front, back, hr, ⟨items, ⟨hi, hle⟩, rfl⟩, rfl⟩ :=
            (hchildren.map Value.fixedArray c hd v c').1 hrun
          exact ⟨front, back, hr, ⟨.fixedArray hi, hle⟩, rfl⟩
        | tuple =>
          obtain ⟨front, back, hr, ⟨items, ⟨hi, hle⟩, rfl⟩, rfl⟩ :=
            (hchildren.map Value.tuple c hd v c').1 hrun
          exact ⟨front, back, hr, ⟨.tuple hi, hle⟩, rfl⟩
    -- Conversely, each payload that is derived is read by the reader of its kind.
    · rintro ⟨front, back, hr, ⟨hp, hle⟩, rfl⟩
      cases hp with
      | bool hb => exact (Reader.Accepts.bool.map Value.bool).run hd hr ⟨_, hb, rfl⟩
      | uint hu => exact uint_accepts.run hd hr ⟨_, hu, rfl⟩
      | int hx => exact int_accepts.run hd hr ⟨_, hx, rfl⟩
      | text hs => exact (Reader.Accepts.text.map Value.text).run hd hr ⟨_, hs, rfl⟩
      | address hs => exact (Reader.Accepts.text.map Value.address).run hd hr ⟨_, hs, rfl⟩
      | bytes hb => exact (Reader.Accepts.byteList.map Value.bytes).run hd hr ⟨_, hb, rfl⟩
      | fixedBytes hb =>
        exact (Reader.Accepts.byteList.map Value.fixedBytes).run hd hr ⟨_, hb, rfl⟩
      | array hi => exact (hchildren.map Value.array).run hd hr ⟨_, ⟨hi, hle⟩, rfl⟩
      | fixedArray hi => exact (hchildren.map Value.fixedArray).run hd hr ⟨_, ⟨hi, hle⟩, rfl⟩
      | tuple hi => exact (hchildren.map Value.tuple).run hd hr ⟨_, ⟨hi, hle⟩, rfl⟩
  · constructor
    · rintro ⟨key, payload, tag, rfl, hk, hp, hle⟩
      exact ⟨.mk hk hp, hle⟩
    · rintro ⟨⟨hk, hp⟩, hle⟩
      exact ⟨_, _, _, rfl, hk, hp, hle⟩

/-- With `room` levels left, the derivations of the values that fit are read. -/
theorem readWithin_accepts (limit room : Nat) :
    (readWithin limit room).Accepts depth fun bytes v => Form bytes v ∧ v.nesting ≤ room := by
  -- On the room, at every depth: the children of a container are read one level deeper.
  induction room generalizing depth with
  | zero =>
    -- No container is read, and none fits.
    exact readLevel_accepts ((Reader.Accepts.fail _).congr fun bytes items => by simp)
  | succ room ih =>
    -- Inside a container there is one level less, and as many are counted around it.
    refine readLevel_accepts (Reader.Accepts.deeper (ih.array.congr fun bytes items => ?_))
    rw [arrayForm_and, ← itemNesting_le_iff, Nat.add_comm 1, Nat.add_le_add_iff_right]

/-- At a cursor with levels entered, the limit leaves the rest of them. -/
theorem read_accepts (limit : Nat) :
    (read limit).Accepts depth fun bytes v => Form bytes v ∧ v.nesting ≤ limit - depth :=
  fun c hd => by
    unfold read
    rw [hd]
    exact readWithin_accepts limit (limit - depth) c hd

/-! ## Section 3: Whole buffers -/

/-- Nothing derives two lists of values, as their reader has one result. -/
theorem arrayForm_unique {bytes : List UInt8} {vs vs' : List Value}
    (h : ArrayForm Form bytes vs) (h' : ArrayForm Form bytes vs') : vs = vs' := by
  -- With room for all of them, the reader reads both lists from the same bytes.
  let room := max (itemNesting vs) (itemNesting vs')
  have haccepts : (Reader.array (readWithin room room)).Accepts 0
      (ArrayForm fun bytes v => Form bytes v ∧ v.nesting ≤ room) :=
    (readWithin_accepts room room).array
  have hroom : ∀ v ∈ vs, v.nesting ≤ room := itemNesting_le_iff.1 (Nat.le_max_left _ _)
  have hroom' : ∀ v ∈ vs', v.nesting ≤ room := itemNesting_le_iff.1 (Nat.le_max_right _ _)
  exact haccepts.unique (arrayForm_and.2 ⟨h, hroom⟩) (arrayForm_and.2 ⟨h', hroom'⟩)

/-- A buffer of which no byte may be left over holds values within the limit if and only if it is
    an array of derivations of these values, and then it holds no others.

    The limit is for each of the values and not for the array around them, which is read at depth
    zero and costs no level. With a limit of zero, lists of values without containers are still
    read. -/
theorem listOfBytes_eq_ok_iff (limit : Nat) (bytes : List UInt8) :
    (∀ vs, (listOfBytes ⟨limit, true⟩ bytes).1 = .ok vs ↔
      ArrayForm Form bytes vs ∧ ∀ v ∈ vs, v.nesting ≤ limit) ∧
      { vs | ArrayForm Form bytes vs }.Subsingleton := by
  have haccepts : (Reader.array (read limit)).Accepts 0
      (ArrayForm fun bytes v => Form bytes v ∧ v.nesting ≤ limit) := (read_accepts limit).array
  constructor
  · intro vs
    rw [← arrayForm_and]
    exact decodeBuffer_eq_ok_iff_of_reject haccepts rfl .values bytes vs
  · intro vs h vs' h'
    exact arrayForm_unique h h'

end ChainGuest.Evm.Value
