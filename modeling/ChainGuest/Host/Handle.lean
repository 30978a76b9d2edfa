/-! # Handles

    A handle names a buffer in the host's memory: its offset in the upper half of a
    64-bit word and its length in the lower half. No buffer starts at offset zero,
    so the zero handle names no data.
-/

namespace ChainGuest

structure Handle where
  raw : UInt64
  deriving DecidableEq

namespace Handle

/-- The handle of no data. -/
def null : Handle := ⟨0⟩

/-- The handle of a buffer. -/
def pack (offset length : UInt32) : Handle := ⟨offset.toUInt64 <<< 32 ||| length.toUInt64⟩

def offset (h : Handle) : UInt32 := (h.raw >>> 32).toUInt32

def length (h : Handle) : UInt32 := (h.raw &&& 0xffffffff).toUInt32

/-- The offset and the length. -/
def unpack (h : Handle) : UInt32 × UInt32 := (h.offset, h.length)

def isEmpty (h : Handle) : Bool := h.length = 0

def isNull (h : Handle) : Bool := h.raw = 0

end Handle

/-! ## Memory ranges -/

/-- Why a host does not answer. -/
inductive HostError where
  /-- A read outside the memory, or at the null offset. -/
  | outOfBounds (offset length : UInt32) (memorySize : Nat)
  /-- No parameter has this key. -/
  | missingParameter (key : String)
  deriving DecidableEq

def HostError.message : HostError → String
  | .outOfBounds offset length memorySize =>
    s!"memory read out of bounds: offset {offset.toNat}, length {length.toNat}, memory size {memorySize}"
  | .missingParameter key => "No parameter found with key \"" ++ key ++ "\""

/-- The first offset of a read and the first beyond it. Only an empty read may start
    at the null offset. -/
def memoryRange (offset length : UInt32) (memorySize : Nat) : Except HostError (Nat × Nat) :=
  let start := offset.toNat
  let stop := start + length.toNat
  if memorySize < stop ∨ (offset = 0 ∧ 0 < length) then
    .error (.outOfBounds offset length memorySize)
  else .ok (start, stop)

end ChainGuest
