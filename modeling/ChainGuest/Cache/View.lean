/-! # Views and joins

    A view is a record together with its position in the collection it stands in.
    A join goes from a record to the positions of the records of another collection
    that match it.
-/

namespace ChainGuest

/-- A record and its position. -/
structure View (α : Type) where
  index : Nat
  record : α

namespace View

variable {α : Type}

/-- A view of every record, in order. -/
def all (records : List α) : List (View α) :=
  records.zipIdx.map fun (record, index) => ⟨index, record⟩

/-- Views of the records at these positions, if the collection has all of them. -/
def pick? (records : List α) (indices : List Nat) : Option (List (View α)) :=
  indices.mapM fun index => records[index]?.map fun record => ⟨index, record⟩

end View

/-- The positions of the records that `p` holds of, in order. -/
def matchingIndices {α : Type} (p : α → Bool) (records : List α) : List Nat :=
  (records.zipIdx.filter fun (record, _) => p record).map (·.2)

/-- The records at these positions, if the collection has all of them. -/
def recordsAt? {α : Type} (records : List α) (indices : List Nat) : Option (List α) :=
  indices.mapM (records[·]?)

end ChainGuest
