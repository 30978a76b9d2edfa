import Mathlib
import ChainGuest.Proofs.Wire.Tokens
import ChainGuest.Record.Schema

/-! # The grammar of collections

    A field may stand in any form of its type, the fields of a record stand one after
    another behind the header of an array, and a collection is an array of records. What
    a record's own header counts is no part of the grammar's answer.

    The readers of fields, rows and collections accept exactly these grammars, for every
    schema at once.
-/

namespace ChainGuest

open Wire

/-! ## Section 1: Fields -/

/-- The bytes that hold a field, in any of the forms of its type. -/
def FieldType.Form : (t : FieldType) → Grammar t.Carrier
  | .u64 => fun bytes n => IntegerForm bytes n.toNat
  | .u32 => fun bytes n => IntegerForm bytes n.toNat
  | .u8 => ByteForm
  | .i64 => fun bytes n => IntegerForm bytes n.toInt
  | .float => FloatForm
  | .text => TextForm
  | .optText => OptionForm TextForm
  | .binary => BinaryForm
  | .byteList => ByteListForm

/-- Every type of a field is read by its own reader, each of which accepts its own grammar.

    An optional text needs more than that: its reader looks at one byte to tell the mark for
    nothing from a text, so no form of a text may begin with that mark. -/
theorem FieldType.read_accepts {depth : Nat} (t : FieldType) :
    Reader.Accepts depth t.read t.Form := by
  cases t with
  | u64 => exact .u64
  | u32 => exact .u32
  | u8 => exact .u8
  | i64 => exact .i64
  | float => exact .float
  | text => exact .text
  | optText => exact .optional .text fun _ _ h => h.head?_ne_nil
  | binary => exact .binary
  | byteList => exact .byteList

/-! ## Section 2: Rows -/

/-- The fields of a row, one after another. -/
def Row.Form : (schema : Schema) → Grammar (Row schema)
  | [] => Grammar.done ()
  | (_, t) :: schema => t.Form.seq fun value => (Row.Form schema).map fun row => (value, row)

/-- A row is read exactly if its fields stand there one after another, for any schema. -/
theorem Row.read_accepts {depth : Nat} (schema : Schema) :
    Reader.Accepts depth (Row.read schema) (Row.Form schema) := by
  -- On the fields in front, as the reader of rows takes them off one at a time.
  induction schema with
  | nil => exact .pure ()
  | cons field schema ih => exact field.2.read_accepts.bind fun value => ih.map _

/-! ## Section 3: Collections -/

/-- A record: the header of an array of any length, and the fields. -/
inductive RecordForm (α : Type) [Entity α] : Grammar α where
  | mk {header fields : List UInt8} {length : Nat} {a : α} (h : ArrayHeader header length)
      (hf : Row.Form (Entity.schema α) fields (Entity.toRow a)) :
      RecordForm α (header ++ fields) a

/-- A collection: the header of an array, and so many records. -/
abbrev CollectionForm (α : Type) [Entity α] : Grammar (List α) := ArrayForm (RecordForm α)

/-- The reader of collections accepts exactly the collections.

    No kind of record is looked at for this: what is specific to one is in its schema, and the
    schema is a part of the grammar. -/
theorem Entity.readAll_accepts {depth : Nat} (α : Type) [Entity α] :
    Reader.Accepts depth (Entity.readAll : Reader (List α)) (CollectionForm α) := by
  have hfields : Reader.Accepts depth (Entity.read : Reader α)
      ((Row.Form (Entity.schema α)).map Entity.ofRow) :=
    (Row.read_accepts (Entity.schema α)).map Entity.ofRow
  refine Reader.Accepts.array ?_
  -- What the record's own header counts is bound to no name: it has no influence.
  refine (Reader.Accepts.arrayLength.bind fun _ => hfields).congr fun bytes a => ?_
  constructor
  · rintro ⟨header, fields, length, rfl, hh, row, hf, rfl⟩
    exact .mk hh (by rwa [Entity.toRow_ofRow])
  · intro h
    cases h with
    | mk hh hf => exact ⟨_, _, _, rfl, hh, _, hf, (Entity.ofRow_toRow a).symm⟩

end ChainGuest
