import Mathlib
import ChainGuest.Proofs.Cache.Ledger

/-! # Layouts of contexts

    The contexts of the chains are laid out alike: a bridge, a cell for each kind of records,
    a table of links for each join, and for some kinds a table of values by position. A layout
    says where a context has these, and that no two of them overlap.

    What can be asked of a context is asked along its layout: the records of a kind, its first
    record, views of all of them, the children of a view, or the value of a view's record
    (`Layout.Ask`). A plan asks through views; a wish says by their places which of the views
    that were handed out it means, and answers so far make a plan of it (`Layout.Ask.resolve`).
    Whatever is proved of plans holds of every context that has a layout.
-/

namespace ChainGuest

variable {σ Kind Link Valued : Type} {Record : Kind → Type}

/-! ## Section 1: Places -/

/-- The places of a context. -/
inductive Place (Kind Link Valued : Type) where
  | bridge
  | cell (k : Kind)
  | links (l : Link)
  | values (a : Valued)

/-- What is kept in a place. -/
abbrev Place.Content (Record : Kind → Type) : Place Kind Link Valued → Type
  | .bridge => Bridge
  | .cell k => Once (Record k)
  | .links _ => Relation
  | .values _ => Memo Value

/-- Where a context keeps its records, links and values.

    The laws of the parts say that no two places overlap. Together with the equations of the joins
    they are all that later proofs use of a context: none of them looks into its state. -/
structure Layout (σ : Type) [HasBridge σ] (Record : Kind → Type) [∀ k, Entity (Record k)]
    (Link Valued : Type) where
  part : (p : Place Kind Link Valued) → Part σ (p.Content Record)
  get_set : ∀ p x s, (part p).get ((part p).set x s) = x
  get_set_ne : ∀ p q, p ≠ q → ∀ x s, (part p).get ((part q).set x s) = (part p).get s
  part_bridge : part .bridge = HasBridge.bridge
  /-- The collection that holds the records of a kind. -/
  collection : Kind → CollectionKind
  collection_injective : Function.Injective collection
  /-- The kinds that a join leads from and to. -/
  parent : Link → Kind
  child : Link → Kind
  parent_ne_child : ∀ l, parent l ≠ child l
  join : (l : Link) → Join σ (Record (parent l)) (Record (child l))
  join_parents : ∀ l, (join l).parents =
    loadCollection (part (.cell (parent l))) (collection (parent l))
  join_children : ∀ l, (join l).children =
    loadCollection (part (.cell (child l))) (collection (child l))
  join_links : ∀ l, (join l).links = part (.links l)
  /-- The kind whose records have values, and the argument that a record is. -/
  source : Valued → Kind
  argument : (a : Valued) → Record (source a) → UInt64

/-- How a join hands out the children. -/
inductive JoinForm where
  /-- Their records; the children are loaded first. -/
  | records
  /-- Views of them; the children are loaded first. -/
  | views
  /-- Views of them; their positions are asked for first. -/
  | viewsByIndex

/-- What is answered. -/
inductive Reply (Record : Kind → Type) where
  | records (k : Kind) (items : List (Record k))
  | view (k : Kind) (v : View (Record k))
  | views (k : Kind) (vs : List (View (Record k)))
  | value (x : Value)

/-- The answer hands out this view. -/
inductive Reply.Hands : Reply Record → (k : Kind) → View (Record k) → Prop where
  | view {k : Kind} (v : View (Record k)) : Hands (.view k v) k v
  | views {k : Kind} {vs : List (View (Record k))} {v : View (Record k)} (h : v ∈ vs) :
    Hands (.views k vs) k v

/-- The views of a kind that an answer hands out, in order. -/
def Reply.handed [DecidableEq Kind] (k : Kind) : Reply Record → List (View (Record k))
  | .view k' v => if h : k' = k then [h ▸ v] else []
  | .views k' vs => if h : k' = k then h ▸ vs else []
  | _ => []

/-- What is listed as handed out is handed out. The kinds are compared first: an answer about
    another kind lists nothing. -/
theorem Reply.hands_of_mem_handed [DecidableEq Kind] {reply : Reply Record} {k : Kind}
    {v : View (Record k)} (h : v ∈ reply.handed k) : reply.Hands k v := by
  unfold handed at h
  -- Only views are handed out, one or several; records and values list nothing.
  split at h
  · rename_i k' w
    by_cases hk : k' = k
    · subst hk
      obtain rfl : v = w := by simpa using h
      exact .view v
    · exact absurd h (by simp [hk])
  · rename_i k' ws
    by_cases hk : k' = k
    · subst hk
      exact .views (by simpa using h)
    · exact absurd h (by simp [hk])
  · exact absurd h (by simp)

namespace Layout

variable [HasBridge σ] [∀ k, Entity (Record k)] (L : Layout σ Record Link Valued)

include L in
/-- Interludes go on with the bridge. -/
theorem bridge_after (meanwhile : List Interlude) (s : σ) :
    HasBridge.bridge.get (Interlude.after meanwhile s) =
      meanwhile.foldl (fun b interlude => interlude.run b) (HasBridge.bridge.get s) := by
  unfold Interlude.after
  rw [← L.part_bridge, L.get_set]

/-- The records of a kind, fetched if its cell is empty. -/
def load (k : Kind) : Action σ (List (Record k)) :=
  loadCollection (L.part (.cell k)) (L.collection k)

/-- The value of a view's record, fetched if its slot is empty. -/
def valueOf (a : Valued) (arg : View (Record (L.source a))) : Action σ Value :=
  onceFor (L.load (L.source a)) (L.part (.values a)) arg.index fun record =>
    call (Bridge.fetchArgumentValue (L.argument a record))

/-- The entry that a join makes when it is computed for a parent. -/
def entry (l : Link) (p : Record (L.parent l)) : LogEntry :=
  .event .trace ("joining " ++ (L.join l).title) [(L.join l).key p]

/-! ## Section 2: Plans -/

/-- What can be asked of a context, where `V k` is how views of the records of `k` are named. -/
inductive Ask (V : Kind → Type) where
  | records (k : Kind)
  | first (k : Kind) (title : String)
  | views (k : Kind)
  | join (l : Link) (form : JoinForm) (parent : V (L.parent l))
  | value (a : Valued) (arg : V (L.source a))

/-- What is asked through views. -/
abbrev Plan : Type := L.Ask fun k => View (Record k)

/-- What is asked through views that are named by their places among those of their kind that
    were handed out before. -/
abbrev Wish : Type := L.Ask fun _ => Nat

variable {L} in
/-- The plan that a wish is, after these answers. A view that was not handed out cannot be asked
    through. -/
def Ask.resolve [DecidableEq Kind] (history : List (Reply Record)) : L.Wish → Option L.Plan
  | .records k => some (.records k)
  | .first k title => some (.first k title)
  | .views k => some (.views k)
  | .join l form i => (history.flatMap (Reply.handed (L.parent l)))[i]?.map (.join l form)
  | .value a i => (history.flatMap (Reply.handed (L.source a)))[i]?.map (.value a)

namespace Plan

variable {L}

/-- A plan is carried out. -/
def act : L.Plan → Action σ (Reply Record)
  | .records k => do return .records k (← L.load k)
  | .first k title => do return .view k (← firstView (L.load k) title)
  | .views k => do return .views k (← allViews (L.load k))
  | .join l .records v => do return .records (L.child l) (← (L.join l).records v)
  | .join l .views v => do return .views (L.child l) (← (L.join l).views v)
  | .join l .viewsByIndex v => do return .views (L.child l) (← (L.join l).viewsByIndex v)
  | .value a v => do return .value (← L.valueOf a v)

/-- The kind whose records are asked for; those of the parents of a join are loaded already
    when a view of them is there. -/
def subject : L.Plan → Kind
  | .records k | .first k _ | .views k => k
  | .join l _ _ => L.child l
  | .value a _ => L.source a

end Plan

end Layout

end ChainGuest
