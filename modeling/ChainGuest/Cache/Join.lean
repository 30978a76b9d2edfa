import ChainGuest.Bridge
import ChainGuest.Cache.Memo
import ChainGuest.Cache.Once
import ChainGuest.Cache.View

/-! # Collections and joins of a context

    A context is a state with a bridge, a cell for each collection, and a table for
    each join. A collection is fetched when it is first asked for, and a join is
    computed once for each parent, from the collections as they are loaded.

    Records are looked up by their positions. A position that its collection does not
    have is a fault, whether it comes from a view that another context has handed out
    or from a table of links; it is never passed over.
-/

namespace ChainGuest

variable {σ α β γ : Type} [HasBridge σ]

/-- The records of a collection, fetched if its cell is empty. -/
def loadCollection [Entity α] (cell : Part σ (Once α)) (kind : CollectionKind) :
    Action σ (List α) :=
  Once.getOrLoad cell (call (Bridge.fetchCollection kind))

/-- The first record, or the failure that the host has none of what it should. -/
def firstView (load : Action σ (List α)) (title : String) : Action σ (View α) := do
  match ← load with
  | record :: _ => return ⟨0, record⟩
  | [] => Attempt.fail (.of (.plain ("host returned no " ++ title)))

/-- A view of every record. -/
def allViews (load : Action σ (List α)) : Action σ (List (View α)) := do
  return View.all (← load)

/-- What is made for the record at a position, once, and kept in a table of slots by
    position. -/
def onceFor (load : Action σ (List α)) (table : Part σ (Memo γ)) (index : Nat)
    (make : α → Action σ γ) : Action σ γ := do
  let records ← load
  let record ← Attempt.ofOption (.of .strayView) records[index]?
  Memo.getOrInit table (.of .strayView) records.length index (make record)

/-- How the records of one collection lead to those of another. -/
structure Join (σ α β : Type) where
  parents : Action σ (List α)
  children : Action σ (List β)
  /-- For each parent that was asked for, the positions of its children. -/
  links : Part σ Relation
  /-- What the children are to their parents, in log entries. -/
  title : String
  /-- The name of a parent's key and its text, in log entries. -/
  key : α → String × String
  /-- Whether a record is a child of a parent. -/
  related : α → β → Bool

namespace Join

/-- The positions of the children of the parent at `index`. The children are loaded only if
    the positions are not known yet. -/
def indices (j : Join σ α β) (index : Nat) : Action σ (List Nat) :=
  onceFor j.parents j.links index fun parent => do
    let children ← j.children
    noteJoin j.title (j.key parent).1 (j.key parent).2
    return matchingIndices (j.related parent) children

/-- The children of a parent, which are loaded first. -/
def records (j : Join σ α β) (parent : View α) : Action σ (List β) := do
  let children ← j.children
  let found ← j.indices parent.index
  Attempt.ofOption (.of .strayView) (recordsAt? children found)

/-- Views of the children of a parent; the children are loaded first. -/
def views (j : Join σ α β) (parent : View α) : Action σ (List (View β)) := do
  let children ← j.children
  let found ← j.indices parent.index
  Attempt.ofOption (.of .strayView) (View.pick? children found)

/-- Views of the children of a parent; their positions are asked for first. -/
def viewsByIndex (j : Join σ α β) (parent : View α) : Action σ (List (View β)) := do
  let found ← j.indices parent.index
  let children ← j.children
  Attempt.ofOption (.of .strayView) (View.pick? children found)

end Join

end ChainGuest
