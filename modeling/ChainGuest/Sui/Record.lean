import ChainGuest.Record.Schema

/-! # Records of Sui

    Transactions and events, with their fields in the order in which the host
    writes them.
-/

namespace ChainGuest.Sui

structure Transaction where
  seq : UInt64
  digest : String
  time : Int64
  gasUsed : UInt64
  gasComputationCost : UInt64
  gasStorageCost : UInt64
  gasBudget : UInt64
  sender : String
  kind : String
  deriving DecidableEq

instance : Entity Transaction where
  schema :=
    [("seq", .u64), ("digest", .text), ("time", .i64), ("gas_used", .u64),
     ("gas_computation_cost", .u64), ("gas_storage_cost", .u64), ("gas_budget", .u64),
     ("sender", .text), ("kind", .text)]
  toRow t :=
    (t.seq, t.digest, t.time, t.gasUsed, t.gasComputationCost, t.gasStorageCost, t.gasBudget,
     t.sender, t.kind, ())
  ofRow := fun
    | (seq, digest, time, gasUsed, gasComputationCost, gasStorageCost, gasBudget, sender,
       kind, ()) =>
      { seq, digest, time, gasUsed, gasComputationCost, gasStorageCost, gasBudget, sender, kind }
  ofRow_toRow _ := rfl
  toRow_ofRow _ := rfl

structure Event where
  txSeq : UInt64
  packageId : String
  transactionModule : String
  sender : String
  type : String
  contents : List UInt8
  deriving DecidableEq

instance : Entity Event where
  schema :=
    [("tx_seq", .u64), ("package_id", .text), ("transaction_module", .text), ("sender", .text),
     ("typ", .text), ("contents", .binary)]
  toRow e := (e.txSeq, e.packageId, e.transactionModule, e.sender, e.type, e.contents, ())
  ofRow := fun
    | (txSeq, packageId, transactionModule, sender, type, contents, ()) =>
      { txSeq, packageId, transactionModule, sender, type, contents }
  ofRow_toRow _ := rfl
  toRow_ofRow _ := rfl

end ChainGuest.Sui
