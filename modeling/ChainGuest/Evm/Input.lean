import ChainGuest.Bridge
import ChainGuest.Evm.Value

/-! # Inputs of transactions

    The bytes a transaction calls a contract with: four bytes that select a function,
    and its arguments, which the host parses by the function's signature.
-/

namespace ChainGuest.Evm

/-- The input of a transaction. -/
structure Input where
  data : List UInt8
  deriving DecidableEq

namespace Input

/-- The selector, if the input has four bytes. -/
def selector? (i : Input) : Option (List UInt8) :=
  if 4 ≤ i.data.length then some (i.data.take 4) else none

/-- The input in hex. -/
def toHex (i : Input) : String := Hex.encode i.data

/-- The values of an input by a signature; none if it does not match. -/
def parse (i : Input) (abi : String) : Bridge.Call (Option (List Value)) := do
  match ← Bridge.parseInput abi i.data with
  | none => return none
  | some bytes =>
    let config := (← Attempt.get).config
    let values ← Bridge.decodeFor (Value.listOfBytes config bytes)
      ("Failed to decode input values for '" ++ abi ++ "'")
    return some values

end Input

end ChainGuest.Evm
