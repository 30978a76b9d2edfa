import ChainGuest.Record.Schema

/-! # Records of Move calls

    The calls that Move code makes while a transaction runs, and the arguments and
    type arguments of those calls, as every chain that runs Move records them. The
    value of an argument is no part of its record.
-/

namespace ChainGuest.Move

structure CallTrace where
  seq : UInt64
  txSeq : UInt64
  depth : UInt32
  callType : UInt8
  gasUsed : UInt64
  /-- Absent for calls into natives and scripts. -/
  transactionModule : Option String
  function : String
  deriving DecidableEq

instance : Entity CallTrace where
  schema :=
    [("seq", .u64), ("tx_seq", .u64), ("depth", .u32), ("call_type", .u8), ("gas_used", .u64),
     ("transaction_module", .optText), ("function", .text)]
  toRow t :=
    (t.seq, t.txSeq, t.depth, t.callType, t.gasUsed, t.transactionModule, t.function, ())
  ofRow := fun
    | (seq, txSeq, depth, callType, gasUsed, transactionModule, function, ()) =>
      { seq, txSeq, depth, callType, gasUsed, transactionModule, function }
  ofRow_toRow _ := rfl
  toRow_ofRow _ := rfl

/-- A type argument of a call. -/
structure TypeArg where
  seq : UInt64
  callTraceSeq : UInt64
  arg : String
  deriving DecidableEq

instance : Entity TypeArg where
  schema := [("seq", .u64), ("call_trace_seq", .u64), ("arg", .text)]
  toRow a := (a.seq, a.callTraceSeq, a.arg, ())
  ofRow := fun
    | (seq, callTraceSeq, arg, ()) => { seq, callTraceSeq, arg }
  ofRow_toRow _ := rfl
  toRow_ofRow _ := rfl

/-- An argument of a call; its value is fetched by its `seq`. -/
structure Arg where
  seq : UInt64
  callTraceSeq : UInt64
  deriving DecidableEq

instance : Entity Arg where
  schema := [("seq", .u64), ("call_trace_seq", .u64)]
  toRow a := (a.seq, a.callTraceSeq, ())
  ofRow := fun
    | (seq, callTraceSeq, ()) => { seq, callTraceSeq }
  ofRow_toRow _ := rfl
  toRow_ofRow _ := rfl

end ChainGuest.Move
