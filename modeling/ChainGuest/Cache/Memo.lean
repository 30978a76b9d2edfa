import ChainGuest.Attempt

/-! # Tables written once

    A table of slots, one for each position in a collection. The first access fixes
    the number of slots; a slot keeps its first value for good. Reaching for a slot
    beyond the table is a fault of the caller.
-/

namespace ChainGuest

/-- A table, once its size is fixed; a slot that is not filled holds nothing. -/
structure Memo (α : Type) where
  slots? : Option (Array (Option α))

namespace Memo

variable {σ ε α : Type}

/-- A table that nobody has used. -/
def empty : Memo α := ⟨none⟩

/-- The value in a slot, if it is filled. -/
def get? (m : Memo α) (index : Nat) : Option α := do
  let slots ← m.slots?
  let slot ← slots[index]?
  slot

/-- The slots, `size` of them if the table is not fixed yet. -/
def slotsOf (m : Memo α) (size : Nat) : Array (Option α) :=
  m.slots?.getD (Array.replicate size none)

/-- The table with its size fixed. -/
def fix (m : Memo α) (size : Nat) : Memo α := ⟨some (m.slotsOf size)⟩

/-- The table with a slot filled. -/
def fill (m : Memo α) (index : Nat) (a : α) : Memo α :=
  ⟨m.slots?.map fun slots => slots.setIfInBounds index (some a)⟩

/-- The value in a slot of a table of the state, computed by `init` if the slot is empty.
    An attempt to compute it that fails leaves the slot empty. `beyond` is the fault of
    an index that the table does not have.

    `init` is not meant to reach for the slot that it is run for: were it to fill that slot
    itself, what it answers would be written over it, where a cell that is written once
    would refuse. No initializer of a context reaches for its own table. -/
def getOrInit (table : Part σ (Memo α)) (beyond : ε) (size index : Nat)
    (init : Attempt σ ε α) : Attempt σ ε α := fun s =>
  let m := (table.get s).fix size
  let s := table.set m s
  match (m.slotsOf size)[index]? with
  | none => (.error beyond, s)
  | some (some a) => (.ok a, s)
  | some none =>
    match init s with
    | (.ok a, s') => (.ok a, table.set ((table.get s').fill index a) s')
    | (.error e, s') => (.error e, s')

end Memo

/-- For each parent's position, the positions of its children. -/
abbrev Relation : Type := Memo (List Nat)

end ChainGuest
