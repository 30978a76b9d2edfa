import ChainGuest.Attempt

/-! # Collections loaded once

    A cell that holds a collection from its first successful load on. A load that
    fails leaves the cell empty, so the next access loads again.
-/

namespace ChainGuest

/-- A collection, once it is loaded. -/
structure Once (α : Type) where
  items? : Option (List α)

namespace Once

variable {σ ε α : Type}

/-- A cell that is not loaded. -/
def empty : Once α := ⟨none⟩

/-- Whether a load has succeeded. -/
def isLoaded (c : Once α) : Bool := c.items?.isSome

/-- The collection in a cell of the state, loaded if it is not there yet. As with tables,
    `load` is not meant to reach for the cell that it is run for. -/
def getOrLoad (cell : Part σ (Once α)) (load : Attempt σ ε (List α)) : Attempt σ ε (List α) :=
  fun s =>
    match (cell.get s).items? with
    | some items => (.ok items, s)
    | none =>
      match load s with
      | (.ok items, s') => (.ok items, cell.set ⟨some items⟩ s')
      | (.error e, s') => (.error e, s')

end Once

end ChainGuest
