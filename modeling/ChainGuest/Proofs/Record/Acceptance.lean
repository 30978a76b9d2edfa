import Mathlib
import ChainGuest.Proofs.Number.Widening
import ChainGuest.Proofs.Record.RoundTrip

/-! # The collections that are accepted

    Which bytes hold which records is said here without any reader and without any schema: by
    the agreed order of the fields (`RecordKind.layout`), by the forms that each field's token
    has, and by what floating-point patterns stand for (`RecordKind.CollectionOf`). All NaNs
    count as one, in the bytes as in the records.

    A buffer is accepted exactly if it holds records in this sense, and then it is read as
    these records; any deviation, in whichever record, is an error of the whole call
    (`decodeCollection_exact`).
-/

namespace ChainGuest

open Wire

/-! ## Section 1: What bytes hold -/

/-- A double, bit by bit, or a single of the same value. All NaNs count as one. -/
inductive FloatOf : Grammar Binary64 where
  | double {x y : Binary64} (h : x.Same y) : FloatOf (0xcb :: bigEndianBytes 8 x.bits.toNat) y
  | single {n : Nat} {y : Binary64} (hn : n < 2 ^ 32)
      (h : FloatFormat.binary32.value n = y.value) : FloatOf (0xca :: bigEndianBytes 4 n) y

/-- The bytes that a reader may take for a token. -/
def Wire.Token.Admits : Token → List UInt8 → Prop
  | .float x => fun bytes => FloatOf bytes x
  | t => t.Form

namespace RecordKind

/-- A record: the header of an array of any length, and the fields in their agreed order. -/
inductive RecordOf (k : RecordKind) : Grammar k.Carrier where
  | mk {header fields : List UInt8} {length : Nat} {a : k.Carrier}
      (h : ArrayHeader header length)
      (hf : Grammar.Each (fun bytes t => Token.Admits t bytes) fields (k.layout a)) :
      RecordOf k (header ++ fields) a

/-- A collection: the header of an array, and so many records. -/
abbrev CollectionOf (k : RecordKind) : Grammar (List k.Carrier) := ArrayForm k.RecordOf

/-- Records that differ in nothing but the NaNs they hold. -/
def Alike : (k : RecordKind) → k.Carrier → k.Carrier → Prop
  | .evmBlock, b, b' => b.size.Same b'.size ∧ { b with size := b'.size } = b'
  | .evmTransaction, t, t' => t.size.Same t'.size ∧ { t with size := t'.size } = t'
  | _, a, a' => a = a'

end RecordKind

/-! ## Section 2: Fields and rows -/

/-- Doubles that are the same, and equal values of all other types. -/
def FieldType.Alike : (t : FieldType) → t.Carrier → t.Carrier → Prop
  | .float => Binary64.Same
  | _ => Eq

/-- What bytes hold for a float field is what the reader makes of them, up to NaNs.

    A single is widened by the reader. That this keeps its value is `Binary64.value_ofBinary32`,
    and two doubles are the same exactly if their values are. -/
theorem floatOf_iff {bytes : List UInt8} {y : Binary64} :
    FloatOf bytes y ↔ ∃ x, FloatForm bytes x ∧ x.Same y := by
  constructor
  · intro h
    cases h with
    | double hsame => exact ⟨_, .double _, hsame⟩
    | @single n _ hn hvalue =>
      -- The double that is read of a single has its value, so it is the one that is held.
      refine ⟨_, .single hn, Binary64.same_iff_value_eq.2 ?_⟩
      rw [Binary64.value_ofBinary32 hn, hvalue]
  · intro h
    obtain ⟨x, hform, hsame⟩ := h
    cases hform with
    | double => exact .double hsame
    | @single n hn =>
      refine .single hn ?_
      rw [← Binary64.value_ofBinary32 hn]
      exact Binary64.same_iff_value_eq.1 hsame

/-- A token is admitted in the forms of its field, up to NaNs. -/
theorem FieldType.admits_token_iff (t : FieldType) {value : t.Carrier} {bytes : List UInt8} :
    (t.token value).Admits bytes ↔ ∃ found, t.Form bytes found ∧ t.Alike found value := by
  -- But for floats, the only value that is alike is the value.
  have hequal (hadmits : (t.token value).Admits bytes ↔ t.Form bytes value) :
      (t.token value).Admits bytes ↔ ∃ found, t.Form bytes found ∧ found = value := by
    rw [hadmits]
    exact ⟨fun h => ⟨value, h, rfl⟩, fun ⟨_, h, heq⟩ => heq ▸ h⟩
  cases t with
  | float => exact floatOf_iff
  | u64 | i64 | text | optText | binary | byteList => exact hequal Iff.rfl
  -- Narrow integers are widened to be written, which does not change the number.
  | u32 =>
    apply hequal
    show IntegerForm bytes (UInt32.toUInt64 value).toNat ↔ IntegerForm bytes (UInt32.toNat value)
    rw [UInt32.toNat_toUInt64]
  | u8 =>
    apply hequal
    show IntegerForm bytes (UInt8.toUInt64 value).toNat ↔ IntegerForm bytes (UInt8.toNat value)
    rw [UInt8.toNat_toUInt64]

/-- Rows whose fields are alike. -/
def Row.Alike : (schema : Schema) → Row schema → Row schema → Prop
  | [], _, _ => True
  | (_, t) :: schema, (value, row), (value', row') =>
    t.Alike value value' ∧ Row.Alike schema row row'

/-- Rows without floats are alike only if they are equal. -/
theorem Row.alike_iff_eq {schema : Schema} (hno : ∀ field ∈ schema, field.2 ≠ .float)
    {row row' : Row schema} : Row.Alike schema row row' ↔ row = row' := by
  induction schema with
  | nil => exact ⟨fun _ => rfl, fun _ => trivial⟩
  | cons field schema ih =>
    obtain ⟨name, t⟩ := field
    obtain ⟨value, rest⟩ := row
    obtain ⟨value', rest'⟩ := row'
    have ht : t ≠ .float := hno _ List.mem_cons_self
    have hvalue : t.Alike value value' ↔ value = value' := by
      cases t with
      | float => exact absurd rfl ht
      | _ => exact Iff.rfl
    have hrest : Row.Alike schema rest rest' ↔ rest = rest' :=
      ih fun field hfield => hno field (List.mem_cons_of_mem _ hfield)
    rw [Prod.mk.injEq, ← hvalue, ← hrest]
    exact Iff.rfl

/-- The tokens of a row are admitted where a row stands that is alike, field by field. -/
theorem Row.admits_tokens_iff (schema : Schema) {row : Row schema} {bytes : List UInt8} :
    Grammar.Each (fun bytes t => Token.Admits t bytes) bytes (Row.tokens schema row) ↔
      ∃ found, Row.Form schema bytes found ∧ Row.Alike schema found row := by
  -- On the schema, for all bytes, since the fields behind the first stand in fewer of them.
  induction schema generalizing bytes with
  | nil =>
    constructor
    · intro h
      exact ⟨(), ⟨Grammar.each_nil.1 h, rfl⟩, trivial⟩
    · intro h
      obtain ⟨_, ⟨hbytes, -⟩, -⟩ := h
      exact Grammar.each_nil.2 hbytes
  | cons field schema ih =>
    obtain ⟨name, t⟩ := field
    obtain ⟨value, row⟩ := row
    have htokens : Row.tokens ((name, t) :: schema) (value, row) =
        t.token value :: Row.tokens schema row := rfl
    rw [htokens, Grammar.each_cons]
    constructor
    · intro h
      obtain ⟨front, back, hbytes, hvalue, hrow⟩ := h
      obtain ⟨found, hform, halike⟩ := t.admits_token_iff.1 hvalue
      obtain ⟨rest, hrest, hrestAlike⟩ := ih.1 hrow
      exact ⟨(found, rest), ⟨front, back, found, hbytes, hform, rest, hrest, rfl⟩,
        halike, hrestAlike⟩
    · intro h
      obtain ⟨_, ⟨front, back, found, hbytes, hform, rest, hrest, rfl⟩, halike, hrestAlike⟩ := h
      exact ⟨front, back, hbytes, t.admits_token_iff.2 ⟨found, hform, halike⟩,
        ih.2 ⟨rest, hrest, hrestAlike⟩⟩

/-! ## Section 3: Records and collections -/

namespace RecordKind

variable (k : RecordKind)

/-- Records are alike if their fields are. -/
theorem alike_iff {a a' : k.Carrier} :
    k.Alike a a' ↔ Row.Alike (Entity.schema k.Carrier) (Entity.toRow a) (Entity.toRow a') := by
  -- Only two kinds have a field that is a float; for the others both sides are equality.
  have hequal (hno : ∀ field ∈ Entity.schema k.Carrier, field.2 ≠ .float) :
      a = a' ↔ Row.Alike (Entity.schema k.Carrier) (Entity.toRow a) (Entity.toRow a') := by
    rw [Row.alike_iff_eq hno]
    exact (Function.LeftInverse.injective Entity.ofRow_toRow).eq_iff.symm
  cases k with
  | evmBlock =>
    obtain ⟨⟩ := a
    obtain ⟨⟩ := a'
    simp only [Alike, Row.Alike, FieldType.Alike, Entity.schema, Entity.toRow, Evm.Block.mk.injEq]
    tauto
  | evmTransaction =>
    obtain ⟨⟩ := a
    obtain ⟨⟩ := a'
    simp only [Alike, Row.Alike, FieldType.Alike, Entity.schema, Entity.toRow,
      Evm.Transaction.mk.injEq]
    tauto
  | _ => exact hequal (by decide)

theorem Alike.refl (a : k.Carrier) : k.Alike a a := by
  cases k with
  | evmBlock => exact ⟨.inl rfl, rfl⟩
  | evmTransaction => exact ⟨.inl rfl, rfl⟩
  | _ => exact rfl

/-- What bytes hold for one record is what the reader makes of them, up to NaNs. -/
theorem recordOf_iff (bytes : List UInt8) (a : k.Carrier) :
    k.RecordOf bytes a ↔ ∃ found, RecordForm k.Carrier bytes found ∧ k.Alike found a := by
  constructor
  · intro h
    obtain ⟨hheader, hfields⟩ := h
    rw [k.layout_eq_tokens] at hfields
    obtain ⟨row, hform, halike⟩ := (Row.admits_tokens_iff _).1 hfields
    refine ⟨Entity.ofRow row, .mk hheader ?_, k.alike_iff.2 ?_⟩
    · rwa [Entity.toRow_ofRow]
    · rwa [Entity.toRow_ofRow]
  · intro h
    obtain ⟨found, ⟨hheader, hform⟩, halike⟩ := h
    refine .mk hheader ?_
    rw [k.layout_eq_tokens]
    exact (Row.admits_tokens_iff _).2 ⟨_, hform, k.alike_iff.1 halike⟩

/-- What bytes hold is what the reader makes of them, up to NaNs. -/
theorem collectionOf_iff {bytes : List UInt8} {records : List k.Carrier} :
    k.CollectionOf bytes records ↔
      ∃ found, CollectionForm k.Carrier bytes found ∧ List.Forall₂ k.Alike found records := by
  constructor
  · intro h
    obtain ⟨hheader, helements⟩ := h
    obtain ⟨found, hfound, halike⟩ := (Grammar.each_related k.recordOf_iff).1 helements
    refine ⟨found, .mk ?_ hfound, halike⟩
    -- The header counts the records that are found, and there are as many of them.
    rwa [halike.length_eq]
  · intro h
    obtain ⟨found, ⟨hheader, helements⟩, halike⟩ := h
    refine .mk ?_ ((Grammar.each_related k.recordOf_iff).2 ⟨found, helements, halike⟩)
    rwa [← halike.length_eq]

end RecordKind

/-- A buffer is accepted exactly if it holds records, which are then those that are found; and if
    it holds none, the call fails as a whole.

    The right-hand sides mention no reader: they are about the agreed order of the fields and the
    bytes of each. The second part follows from the first, since records that are found are alike
    to themselves. -/
theorem decodeCollection_exact (k : RecordKind) (config : Config) (bytes : List UInt8) :
    let result : Except DecodeError (List k.Carrier) :=
      (decodeCollection { config with rejectTrailing := true } bytes).1
    (∀ records, (∃ found, result = .ok found ∧ List.Forall₂ k.Alike found records) ↔
      k.CollectionOf bytes records) ∧
    ((∃ e, result = .error e) ↔ ∀ records, ¬ k.CollectionOf bytes records) := by
  intro result
  have hok (found : List k.Carrier) :
      result = .ok found ↔ CollectionForm k.Carrier bytes found :=
    decodeBuffer_eq_ok_iff_of_reject (Entity.readAll_accepts k.Carrier) rfl .collection bytes found
  have hholds (records : List k.Carrier) :
      (∃ found, result = .ok found ∧ List.Forall₂ k.Alike found records) ↔
        k.CollectionOf bytes records := by
    rw [k.collectionOf_iff]
    simp only [hok]
  refine ⟨hholds, ?_⟩
  -- Where records are found, they are held; so holding none leaves only an error.
  simp only [← hholds]
  cases hresult : result with
  | error e => simp
  | ok found =>
    have hself : List.Forall₂ k.Alike found found :=
      List.forall₂_same.2 fun a _ => RecordKind.Alike.refl k a
    simpa using ⟨found, hself⟩

end ChainGuest
