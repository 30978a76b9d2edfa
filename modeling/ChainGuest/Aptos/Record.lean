import ChainGuest.Record.Schema

/-! # Records of Aptos

    Blocks, transactions and events, with their fields in the order in which the
    host writes them.
-/

namespace ChainGuest.Aptos

structure Block where
  hash : String
  epoch : UInt64
  timestampUsecs : UInt64
  deriving DecidableEq

instance : Entity Block where
  schema := [("hash", .text), ("epoch", .u64), ("timestamp_usecs", .u64)]
  toRow b := (b.hash, b.epoch, b.timestampUsecs, ())
  ofRow := fun
    | (hash, epoch, timestampUsecs, ()) => { hash, epoch, timestampUsecs }
  ofRow_toRow _ := rfl
  toRow_ofRow _ := rfl

structure Transaction where
  seq : UInt64
  blockHash : String
  hash : String
  eventRootHash : String
  stateChangeHash : String
  gasUsed : UInt64
  maxGasAmount : UInt64
  gasUnitPrice : UInt64
  expirationTimestampSecs : UInt64
  /-- Zero when the transaction succeeded. -/
  status : UInt64
  sender : String
  sequenceNumber : UInt64
  deriving DecidableEq

instance : Entity Transaction where
  schema :=
    [("seq", .u64), ("block_hash", .text), ("hash", .text), ("event_root_hash", .text),
     ("state_change_hash", .text), ("gas_used", .u64), ("max_gas_amount", .u64),
     ("gas_unit_price", .u64), ("expiration_timestamp_secs", .u64), ("status", .u64),
     ("sender", .text), ("sequence_number", .u64)]
  toRow t :=
    (t.seq, t.blockHash, t.hash, t.eventRootHash, t.stateChangeHash, t.gasUsed, t.maxGasAmount,
     t.gasUnitPrice, t.expirationTimestampSecs, t.status, t.sender, t.sequenceNumber, ())
  ofRow := fun
    | (seq, blockHash, hash, eventRootHash, stateChangeHash, gasUsed, maxGasAmount,
       gasUnitPrice, expirationTimestampSecs, status, sender, sequenceNumber, ()) =>
      { seq, blockHash, hash, eventRootHash, stateChangeHash, gasUsed, maxGasAmount,
        gasUnitPrice, expirationTimestampSecs, status, sender, sequenceNumber }
  ofRow_toRow _ := rfl
  toRow_ofRow _ := rfl

/-- Whether the transaction succeeded. -/
def Transaction.isSuccess (t : Transaction) : Bool := t.status = 0

/-- The greatest fee the sender agreed to, at most the greatest word. -/
def Transaction.maxFee (t : Transaction) : UInt64 :=
  UInt64.ofNat (min (t.maxGasAmount.toNat * t.gasUnitPrice.toNat) (UInt64.size - 1))

structure Event where
  txSeq : UInt64
  key : String
  sequenceNumber : UInt64
  type : String
  data : List UInt8
  deriving DecidableEq

instance : Entity Event where
  schema :=
    [("tx_seq", .u64), ("key", .text), ("sequence_number", .u64), ("typ", .text),
     ("data", .binary)]
  toRow e := (e.txSeq, e.key, e.sequenceNumber, e.type, e.data, ())
  ofRow := fun
    | (txSeq, key, sequenceNumber, type, data, ()) => { txSeq, key, sequenceNumber, type, data }
  ofRow_toRow _ := rfl
  toRow_ofRow _ := rfl

end ChainGuest.Aptos
