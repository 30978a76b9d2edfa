import Mathlib
import ChainGuest.Proofs.Record.Grammar
import ChainGuest.Proofs.Wire.Shortest
import ChainGuest.Record.Kind

/-! # Collections survive writing and reading

    The host writes the fields of a record in the order that both sides agreed on
    (`RecordKind.layout`), each with the token of its kind. The layouts are listed here
    one record at a time; that they are the orders in which the guest's schemas read is
    `RecordKind.layout_eq_tokens`.

    What is written derives its records in the grammar of collections, which the reader
    accepts: so it is read to its end, with every field as it was
    (`decodeCollection_layout`).
-/

namespace ChainGuest

open Wire

/-! ## Section 1: Layouts -/

/-- The tokens of a record in the agreed order of its fields. -/
def RecordKind.layout : (k : RecordKind) → k.Carrier → List Token
  | .evmBlock, b =>
    [.uint b.blockIndex, .text b.hash, .text b.parentHash, .text b.stateRoot, .uint b.nonce,
     .text b.status, .uint b.timestamp, .binary b.blockReward, .text b.feeRecipient,
     .uint b.totalDifficulty, .float b.size, .uint b.gasUsed, .uint b.gasLimit]
  | .evmTransaction, t =>
    [.uint t.txIndex.toUInt64, .text t.txHash, .uint t.type.toUInt64, .uint t.nonce,
     .uint t.status, .uint t.blockIndex, .text t.sender, .optText t.recipient, .uint t.value,
     .uint t.fee, .uint t.gasPrice, .uint t.gasLimit, .uint t.gasUsed, .binary t.input,
     .float t.size]
  | .evmCallTrace, t =>
    [.uint t.seq.toUInt64, .uint t.txIndex.toUInt64, .uint t.blockIndex,
     .uint t.depth.toUInt64, .text t.type, .text t.sender, .text t.recipient, .uint t.value,
     .uint t.gasLimit, .uint t.gasUsed, .byteList t.input]
  | .evmEvent, e =>
    [.uint e.index.toUInt64, .uint e.txIndex.toUInt64, .text e.txHash, .uint e.blockNumber,
     .text e.blockHash, .text e.address, .byteList e.topic0, .byteList e.topic1,
     .byteList e.topic2, .byteList e.topic3, .byteList e.topic4, .byteList e.data]
  | .suiTransaction, t =>
    [.uint t.seq, .text t.digest, .sint t.time, .uint t.gasUsed, .uint t.gasComputationCost,
     .uint t.gasStorageCost, .uint t.gasBudget, .text t.sender, .text t.kind]
  | .suiEvent, e =>
    [.uint e.txSeq, .text e.packageId, .text e.transactionModule, .text e.sender,
     .text e.type, .binary e.contents]
  | .aptosBlock, b => [.text b.hash, .uint b.epoch, .uint b.timestampUsecs]
  | .aptosTransaction, t =>
    [.uint t.seq, .text t.blockHash, .text t.hash, .text t.eventRootHash,
     .text t.stateChangeHash, .uint t.gasUsed, .uint t.maxGasAmount, .uint t.gasUnitPrice,
     .uint t.expirationTimestampSecs, .uint t.status, .text t.sender,
     .uint t.sequenceNumber]
  | .aptosEvent, e =>
    [.uint e.txSeq, .text e.key, .uint e.sequenceNumber, .text e.type, .binary e.data]
  | .moveCallTrace, t =>
    [.uint t.seq, .uint t.txSeq, .uint t.depth.toUInt64, .uint t.callType.toUInt64,
     .uint t.gasUsed, .optText t.transactionModule, .text t.function]
  | .moveTypeArg, a => [.uint a.seq, .uint a.callTraceSeq, .text a.arg]
  | .moveArg, a => [.uint a.seq, .uint a.callTraceSeq]

/-- The agreed order is the order of the schema. Both lists are spelled out by hand, one for the
    host and one for the guest, so a field that is moved in one of them breaks this proof. -/
theorem RecordKind.layout_eq_tokens (k : RecordKind) (a : k.Carrier) :
    k.layout a = Entity.tokens a := by
  cases k <;> rfl

/-! ## Section 2: Written records derive themselves -/

/-- What a field's token says is what the field holds. -/
theorem FieldType.form_of_token {t : FieldType} {value : t.Carrier} {bytes : List UInt8}
    (h : (t.token value).Form bytes) : t.Form bytes value := by
  -- Narrow unsigned integers are widened to be written; all others are written as they are.
  cases t with
  | u32 =>
    have hwide : IntegerForm bytes value.toUInt64.toNat := h
    rwa [UInt32.toNat_toUInt64] at hwide
  | u8 =>
    have hwide : IntegerForm bytes value.toUInt64.toNat := h
    rwa [UInt8.toNat_toUInt64] at hwide
  | u64 | i64 | float | text | optText | binary | byteList => exact h

/-- The tokens of a row derive it, if each of them can be written. -/
theorem Row.tokens_derive (schema : Schema) (row : Row schema)
    (h : ∀ t ∈ Row.tokens schema row, t.Fits) :
    Row.Form schema (encodeTokens (Row.tokens schema row)) row := by
  -- On the schema: the first token is for the first field, and the others are for the rest.
  induction schema with
  | nil => exact ⟨rfl, rfl⟩
  | cons field schema ih =>
    obtain ⟨value, rest⟩ := row
    have hvalue : (field.2.token value).Fits := h _ List.mem_cons_self
    have hrest : ∀ t ∈ Row.tokens schema rest, t.Fits := fun t ht =>
      h t (List.mem_cons_of_mem _ ht)
    have hform : field.2.Form (field.2.token value).encode value :=
      FieldType.form_of_token (Token.encode_derives _ hvalue)
    exact ⟨_, _, value, rfl, hform, rest, ih rest hrest, rfl⟩

/-- What is written of records is a collection of them. -/
theorem encodeCollection_derives {α : Type} [Entity α] {records : List α} {fields : Nat}
    (hfields : fields < 2 ^ 32) (hcount : records.length < 2 ^ 32)
    (hfits : ∀ a ∈ records, ∀ t ∈ Entity.tokens a, t.Fits) :
    CollectionForm α (encodeCollection fields (records.map Entity.tokens)) records := by
  -- A record may claim any number of fields: its header is an array header all the same.
  have hrecord : ∀ a ∈ records,
      RecordForm α (arrayHeader fields ++ encodeTokens (Entity.tokens a)) a := fun a ha =>
    .mk (arrayHeader_derives hfields) (Row.tokens_derive _ _ (hfits a ha))
  unfold encodeCollection
  rw [List.length_map, List.flatMap_map]
  exact .mk (arrayHeader_derives hcount) (each_flatMap hrecord)

/-! ## Section 3: Reading back -/

/-- Records of any kind that were written are read as they were, in their order, up to the last
    byte; so no configuration refuses them, and none notices anything. The number of fields that
    the writer claims for each record does not matter.

    The kind is never split into cases. The agreed order of its fields is turned into the order of
    its schema once, and what is written then derives the records in the grammar of collections,
    which its reader accepts whatever the schema is. -/
theorem decodeCollection_layout (k : RecordKind) (records : List k.Carrier) (fields : UInt32)
    (config : Config) (hcount : records.length < 2 ^ 32)
    (hfits : ∀ a ∈ records, ∀ t ∈ k.layout a, t.Fits) :
    let bytes := encodeCollection fields.toNat (records.map k.layout)
    decodeCollection config bytes = (.ok records, []) ∧
      Entity.readAll (.start bytes) =
        (.ok records, { position := bytes.length, rest := [], depth := 0, notices := [] }) := by
  -- The layout is known only by the schema from here on.
  have hlayout : k.layout = Entity.tokens := funext k.layout_eq_tokens
  rw [hlayout] at hfits ⊢
  intro bytes
  have hderives : CollectionForm k.Carrier bytes records :=
    encodeCollection_derives fields.toNat_lt hcount hfits
  constructor
  · exact decodeBuffer_of_derivation (Entity.readAll_accepts k.Carrier) config .collection
      hderives
  · have hrun := (Entity.readAll_accepts k.Carrier).run (c := .start bytes) rfl
      (List.append_nil bytes).symm hderives
    rw [hrun]
    simp [Cursor.advance, Cursor.start]

/-- A transfer, with integers on both sides of several widths, and a size that is no number. -/
def sampleTransfer : Evm.Transaction where
  txIndex := 0xffffffff
  txHash := "0x1f"
  type := 0x80
  nonce := 0x7f
  status := 1
  blockIndex := 0x10000
  sender := "äß"
  recipient := some ""
  value := 0xffffffffffffffff
  fee := 0xff
  gasPrice := 0x100
  gasLimit := 0xffff
  gasUsed := 0x100000000
  input := [0x00, 0xc0, 0xff]
  size := ⟨0xfff8000000000001⟩

/-- The creation of a contract. -/
def sampleCreation : Evm.Transaction := { sampleTransfer with recipient := none, input := [] }

theorem decodeCollection_layout_samples :
    let bytes := encodeCollection 15
      ([sampleTransfer, sampleCreation].map (RecordKind.layout .evmTransaction))
    decodeCollection ⟨64, true⟩ bytes = (.ok [sampleTransfer, sampleCreation], []) ∧
      Entity.readAll (.start bytes) =
        (.ok [sampleTransfer, sampleCreation],
          { position := bytes.length, rest := [], depth := 0, notices := [] }) := by
  -- Every text and all bytes of the samples are short enough to be counted.
  have hfits : ∀ a ∈ [sampleTransfer, sampleCreation],
      ∀ t ∈ RecordKind.layout .evmTransaction a, t.Fits := by
    decide
  exact decodeCollection_layout .evmTransaction [sampleTransfer, sampleCreation] 15 ⟨64, true⟩
    (by decide) hfits

end ChainGuest
