import ChainGuest.Record.Schema

/-! # Records of an EVM chain

    Blocks, transactions, call traces and events, with their fields in the order
    in which the host writes them.
-/

namespace ChainGuest.Evm

structure Block where
  blockIndex : UInt64
  hash : String
  parentHash : String
  stateRoot : String
  nonce : UInt64
  status : String
  timestamp : UInt64
  blockReward : List UInt8
  feeRecipient : String
  totalDifficulty : UInt64
  size : Binary64
  gasUsed : UInt64
  gasLimit : UInt64
  deriving DecidableEq

instance : Entity Block where
  schema :=
    [("block_index", .u64), ("hash", .text), ("parent_hash", .text), ("state_root", .text),
     ("nonce", .u64), ("status", .text), ("timestamp", .u64), ("block_reward", .binary),
     ("fee_recipient", .text), ("total_difficulty", .u64), ("size", .float),
     ("gas_used", .u64), ("gas_limit", .u64)]
  toRow b :=
    (b.blockIndex, b.hash, b.parentHash, b.stateRoot, b.nonce, b.status, b.timestamp,
     b.blockReward, b.feeRecipient, b.totalDifficulty, b.size, b.gasUsed, b.gasLimit, ())
  ofRow := fun
    | (blockIndex, hash, parentHash, stateRoot, nonce, status, timestamp, blockReward,
       feeRecipient, totalDifficulty, size, gasUsed, gasLimit, ()) =>
      { blockIndex, hash, parentHash, stateRoot, nonce, status, timestamp, blockReward,
        feeRecipient, totalDifficulty, size, gasUsed, gasLimit }
  ofRow_toRow _ := rfl
  toRow_ofRow _ := rfl

structure Transaction where
  txIndex : UInt32
  txHash : String
  type : UInt8
  nonce : UInt64
  status : UInt64
  blockIndex : UInt64
  sender : String
  /-- Absent when the transaction creates a contract. -/
  recipient : Option String
  value : UInt64
  fee : UInt64
  gasPrice : UInt64
  gasLimit : UInt64
  gasUsed : UInt64
  input : List UInt8
  size : Binary64
  deriving DecidableEq

instance : Entity Transaction where
  schema :=
    [("tx_index", .u32), ("tx_hash", .text), ("typ", .u8), ("nonce", .u64), ("status", .u64),
     ("block_index", .u64), ("from", .text), ("to", .optText), ("value", .u64), ("fee", .u64),
     ("gas_price", .u64), ("gas_limit", .u64), ("gas_used", .u64), ("input", .binary),
     ("size", .float)]
  toRow t :=
    (t.txIndex, t.txHash, t.type, t.nonce, t.status, t.blockIndex, t.sender, t.recipient,
     t.value, t.fee, t.gasPrice, t.gasLimit, t.gasUsed, t.input, t.size, ())
  ofRow := fun
    | (txIndex, txHash, type, nonce, status, blockIndex, sender, recipient, value, fee,
       gasPrice, gasLimit, gasUsed, input, size, ()) =>
      { txIndex, txHash, type, nonce, status, blockIndex, sender, recipient, value, fee,
        gasPrice, gasLimit, gasUsed, input, size }
  ofRow_toRow _ := rfl
  toRow_ofRow _ := rfl

/-- A transaction without recipient creates a contract. -/
def Transaction.isContractCreation (t : Transaction) : Bool := t.recipient.isNone

structure CallTrace where
  seq : UInt32
  txIndex : UInt32
  blockIndex : UInt64
  depth : UInt32
  type : String
  sender : String
  recipient : String
  value : UInt64
  gasLimit : UInt64
  gasUsed : UInt64
  input : List UInt8
  deriving DecidableEq

instance : Entity CallTrace where
  schema :=
    [("seq", .u32), ("tx_index", .u32), ("block_index", .u64), ("depth", .u32), ("typ", .text),
     ("from", .text), ("to", .text), ("value", .u64), ("gas_limit", .u64), ("gas_used", .u64),
     ("input", .byteList)]
  toRow t :=
    (t.seq, t.txIndex, t.blockIndex, t.depth, t.type, t.sender, t.recipient, t.value, t.gasLimit,
     t.gasUsed, t.input, ())
  ofRow := fun
    | (seq, txIndex, blockIndex, depth, type, sender, recipient, value, gasLimit, gasUsed,
       input, ()) =>
      { seq, txIndex, blockIndex, depth, type, sender, recipient, value, gasLimit, gasUsed,
        input }
  ofRow_toRow _ := rfl
  toRow_ofRow _ := rfl

structure Event where
  index : UInt32
  txIndex : UInt32
  txHash : String
  blockNumber : UInt64
  blockHash : String
  address : String
  topic0 : List UInt8
  topic1 : List UInt8
  topic2 : List UInt8
  topic3 : List UInt8
  topic4 : List UInt8
  data : List UInt8
  deriving DecidableEq

instance : Entity Event where
  schema :=
    [("index", .u32), ("tx_index", .u32), ("tx_hash", .text), ("block_number", .u64),
     ("block_hash", .text), ("address", .text), ("topic0", .byteList), ("topic1", .byteList),
     ("topic2", .byteList), ("topic3", .byteList), ("topic4", .byteList), ("data", .byteList)]
  toRow e :=
    (e.index, e.txIndex, e.txHash, e.blockNumber, e.blockHash, e.address, e.topic0, e.topic1,
     e.topic2, e.topic3, e.topic4, e.data, ())
  ofRow := fun
    | (index, txIndex, txHash, blockNumber, blockHash, address, topic0, topic1, topic2, topic3,
       topic4, data, ()) =>
      { index, txIndex, txHash, blockNumber, blockHash, address, topic0, topic1, topic2, topic3,
        topic4, data }
  ofRow_toRow _ := rfl
  toRow_ofRow _ := rfl

/-- The topics that an event has: unused ones are written as no bytes. -/
def Event.topics (e : Event) : List (List UInt8) :=
  [e.topic0, e.topic1, e.topic2, e.topic3, e.topic4].filter (!·.isEmpty)

end ChainGuest.Evm
