import Mathlib
import ChainGuest.Cache.Once
import ChainGuest.Proofs.Cache.Simulation

/-! # Tables and cells answer from their past

    What a table answers can be told from the uses it was put to, without a table. Its size is
    the one that the first use with a size came with, and a slot holds what the first
    computation for it that succeeded has made (`Past.size?`, `Past.held`). From that past
    alone a use is answered, runs its initializer or not, and is a fault or not
    (`Past.report`).

    A table does the same, whatever sizes and indices it is used with and whichever of its
    initializers fail. So does a cell, as the slot of a table that has only this one
    (`WriteOnce.replay_from_past`). Initializers act on a world of their own: they may change
    it also when they fail, but they do not reach for the table that runs them.
-/

namespace ChainGuest

variable {κ σ ρ τ ω ε α : Type}

namespace Memo

/-- An index beyond the table is a fault: nothing is computed, but the size is fixed. -/
theorem getOrInit_of_beyond {table : Part σ (Memo α)} (beyond : ε) {size index : Nat}
    (init : Attempt σ ε α) {s : σ} (hindex : ((table.get s).slotsOf size).size ≤ index) :
    getOrInit table beyond size index init s =
      (.error beyond, table.set ((table.get s).fix size) s) := by
  have hslot : (((table.get s).fix size).slotsOf size)[index]? = none :=
    Array.getElem?_eq_none hindex
  unfold getOrInit
  simp only [hslot]

/-- An empty slot stays empty if what would fill it cannot be computed. -/
theorem getOrInit_of_error {table : Part σ (Memo α)} (beyond : ε) {size index : Nat}
    {init : Attempt σ ε α} {s s' : σ} {e : ε} (h : (table.get s).get? index = none)
    (hindex : index < ((table.get s).slotsOf size).size)
    (hinit : init (table.set ((table.get s).fix size) s) = (.error e, s')) :
    getOrInit table beyond size index init s = (.error e, s') := by
  rw [getOrInit_of_none beyond init h hindex, Attempt.bind_of_error _ hinit]

end Memo

namespace WriteOnce

/-! ## Section 1: Uses and reports -/

/-- A use of a table. -/
inductive TableUse (ω ε α : Type) where
  | getOrInit (size index : Nat) (init : Attempt ω ε α)
  | get (index : Nat)

/-- A use of a cell. -/
inductive CellUse (ω ε α : Type) where
  | getOrLoad (load : Attempt ω ε (List α))
  | get
  | isLoaded

/-- What a use answers. -/
inductive Reply (ε α : Type) where
  | value (a : α)
  /-- The initializer failed. -/
  | failed (e : ε)
  /-- The caller is at fault: the table has no such index. -/
  | beyond
  /-- What a slot holds, if it holds anything. -/
  | found (a? : Option α)
  /-- Whether a cell holds anything. -/
  | filled (b : Bool)

/-- What a use answers and does. -/
structure Report (ω ε α : Type) where
  reply : Reply ε α
  /-- Whether it has run its initializer. -/
  ran : Bool
  /-- The world that it leaves. -/
  world : ω

/-- The reports of uses, one after another. -/
def replay (use : κ → σ → Report ω ε α × σ) : List κ → σ → List (Report ω ε α)
  | [], _ => []
  | u :: us, s => (use u s).1 :: replay use us (use u s).2

/-- Uses that are reported alike from related states, and lead to related states again, are
    replayed alike. -/
theorem replay_eq {R : σ → ρ → Prop} {use : κ → σ → Report ω ε α × σ}
    {use' : κ → ρ → Report ω ε α × ρ}
    (hstep : ∀ u s r, R s r → (use u s).1 = (use' u r).1 ∧ R (use u s).2 (use' u r).2)
    (us : List κ) (s : σ) (r : ρ) (h : R s r) : replay use us s = replay use' us r := by
  -- On the uses, from any two states that are related.
  induction us generalizing s r with
  | nil => rfl
  | cons u us ih =>
    obtain ⟨hreport, hstate⟩ := hstep u s r h
    rw [replay, replay, hreport, ih _ _ hstate]

/-! ## Section 2: The past -/

/-- The uses of a table with their reports, the oldest first. -/
abbrev Past (ω ε α : Type) : Type := List (TableUse ω ε α × Report ω ε α)

/-- The size that a use comes with. -/
def TableUse.size? : TableUse ω ε α → Option Nat
  | .getOrInit size _ _ => some size
  | .get _ => none

/-- The value that a use has computed for the slot at `index`, if it has. -/
def computed? (index : Nat) : TableUse ω ε α × Report ω ε α → Option α
  | (.getOrInit _ k _, ⟨.value a, true, _⟩) => if k = index then some a else none
  | _ => none

namespace Past

/-- The size that the first use with a size came with, however that use ended. -/
def size? (past : Past ω ε α) : Option Nat := past.findSome? fun (use, _) => use.size?

/-- The first value that was computed for a slot. -/
def held (past : Past ω ε α) (index : Nat) : Option α := past.findSome? (computed? index)

/-- The report of a use after this past, in this world. -/
def report (past : Past ω ε α) (w : ω) : TableUse ω ε α → Report ω ε α
  | .get index => ⟨.found (past.held index), false, w⟩
  | .getOrInit size index init =>
    if past.size?.getD size ≤ index then ⟨.beyond, false, w⟩
    else
      match past.held index with
      | some a => ⟨.value a, false, w⟩
      | none =>
        match init w with
        | (.ok a, w') => ⟨.value a, true, w'⟩
        | (.error e, w') => ⟨.failed e, true, w'⟩

/-- The past with one more use. -/
def extend (past : Past ω ε α) (w : ω) (use : TableUse ω ε α) : Past ω ε α :=
  past ++ [(use, past.report w use)]

/-- A use of a table of which only the past is known. -/
def useTable (use : TableUse ω ε α) : Past ω ε α × ω → Report ω ε α × (Past ω ε α × ω)
  | (past, w) => (past.report w use, (past.extend w use, (past.report w use).world))

/-- A use of a cell of which only the past is known: it is the one slot of a table. -/
def useCell : CellUse ω ε α → Past ω ε (List α) × ω →
    Report ω ε (List α) × (Past ω ε (List α) × ω)
  | .getOrLoad load, p => useTable (.getOrInit 1 0 load) p
  | .get, p => useTable (.get 0) p
  | .isLoaded, (past, w) => (⟨.filled (past.held 0).isSome, false, w⟩, (past, w))

variable {past : Past ω ε α} {w w' : ω} {size index : Nat} {init : Attempt ω ε α} {a : α} {e : ε}

/-- One more use fixes the size only if none did before. -/
theorem size?_extend (past : Past ω ε α) (w : ω) (use : TableUse ω ε α) :
    (past.extend w use).size? = past.size?.or use.size? := by
  unfold size? extend
  rw [List.findSome?_append, List.findSome?_singleton]

/-- One more use fills a slot only if no use did before. -/
theorem held_extend (past : Past ω ε α) (w : ω) (use : TableUse ω ε α) (index : Nat) :
    (past.extend w use).held index =
      (past.held index).or (computed? index (use, past.report w use)) := by
  unfold held extend
  rw [List.findSome?_append, List.findSome?_singleton]

theorem report_of_beyond (h : past.size?.getD size ≤ index) :
    past.report w (.getOrInit size index init) = ⟨.beyond, false, w⟩ := by
  simp only [report, if_pos h]

theorem report_of_held (h : index < past.size?.getD size) (hheld : past.held index = some a) :
    past.report w (.getOrInit size index init) = ⟨.value a, false, w⟩ := by
  simp only [report, if_neg (Nat.not_le.2 h), hheld]

theorem report_of_ok (h : index < past.size?.getD size) (hheld : past.held index = none)
    (hinit : init w = (.ok a, w')) :
    past.report w (.getOrInit size index init) = ⟨.value a, true, w'⟩ := by
  simp only [report, if_neg (Nat.not_le.2 h), hheld, hinit]

theorem report_of_error (h : index < past.size?.getD size) (hheld : past.held index = none)
    (hinit : init w = (.error e, w')) :
    past.report w (.getOrInit size index init) = ⟨.failed e, true, w'⟩ := by
  simp only [report, if_neg (Nat.not_le.2 h), hheld, hinit]

end Past

/-! ## Section 3: Sites -/

/-- A table or a cell, with the world around it. -/
structure Site (τ ω : Type) where
  kept : τ
  /-- Whether an initializer has been run. -/
  ran : Bool
  world : ω

namespace Site

/-- The table or the cell of a site. -/
def part : Part (Site τ ω) τ := ⟨kept, fun x s => { s with kept := x }⟩

/-- An initializer that is seen to run; its failures are told from the fault of an index. -/
def watched (init : Attempt ω ε α) : Attempt (Site τ ω) (Option ε) α := fun s =>
  let (answer, w) := init s.world
  (answer.mapError some, { s with ran := true, world := w })

/-- The report of what was answered and where that has led. -/
def reportOf : Except (Option ε) α × Site τ ω → Report ω ε α
  | (.ok a, s) => ⟨.value a, s.ran, s.world⟩
  | (.error (some e), s) => ⟨.failed e, s.ran, s.world⟩
  | (.error none, s) => ⟨.beyond, s.ran, s.world⟩

/-- A use of a table. -/
def useTable (use : TableUse ω ε α) (s : Site (Memo α) ω) : Report ω ε α × Site (Memo α) ω :=
  match use with
  | .getOrInit size index init =>
    let outcome := Memo.getOrInit part none size index (watched init) { s with ran := false }
    (reportOf outcome, outcome.2)
  | .get index => (⟨.found (s.kept.get? index), false, s.world⟩, s)

/-- A use of a cell. -/
def useCell (use : CellUse ω ε α) (s : Site (Once α) ω) :
    Report ω ε (List α) × Site (Once α) ω :=
  match use with
  | .getOrLoad load =>
    let outcome := Once.getOrLoad part (watched load) { s with ran := false }
    (reportOf outcome, outcome.2)
  | .get => (⟨.found s.kept.items?, false, s.world⟩, s)
  | .isLoaded => (⟨.filled s.kept.isLoaded, false, s.world⟩, s)

/-- What an initializer does in the world, it does at the site. -/
theorem watched_of_eq {init : Attempt ω ε α} {x : τ} {b : Bool} {w w' : ω}
    {answer : Except ε α} (h : init w = (answer, w')) :
    watched init ⟨x, b, w⟩ = (answer.mapError some, ⟨x, true, w'⟩) := by
  unfold watched
  rw [h]

/-! The four ways in which a use with an initializer can go. -/

variable {s : Site (Memo α) ω} {size index : Nat} {init : Attempt ω ε α}

/-- What a use with an initializer reports is what the table answers. -/
theorem useTable_of_eq {answer : Except (Option ε) α} {s' : Site (Memo α) ω}
    (h : Memo.getOrInit part none size index (watched init) { s with ran := false } =
      (answer, s')) :
    s.useTable (.getOrInit size index init) = (reportOf (answer, s'), s') := by
  simp only [useTable, h]

theorem useTable_of_beyond (hindex : (s.kept.slotsOf size).size ≤ index) :
    s.useTable (.getOrInit size index init) =
      (⟨.beyond, false, s.world⟩, ⟨s.kept.fix size, false, s.world⟩) := by
  have hrun : Memo.getOrInit part none size index (watched init) { s with ran := false } =
      (.error none, ⟨s.kept.fix size, false, s.world⟩) :=
    Memo.getOrInit_of_beyond none (watched init) hindex
  exact useTable_of_eq hrun

theorem useTable_of_filled {a : α} (hfilled : s.kept.get? index = some a) :
    s.useTable (.getOrInit size index init) =
      (⟨.value a, false, s.world⟩, ⟨s.kept.fix size, false, s.world⟩) := by
  have hrun : Memo.getOrInit part none size index (watched init) { s with ran := false } =
      (.ok a, ⟨s.kept.fix size, false, s.world⟩) :=
    Memo.getOrInit_of_filled none size (watched init) hfilled
  exact useTable_of_eq hrun

theorem useTable_of_ok {a : α} {w : ω} (hempty : s.kept.get? index = none)
    (hindex : index < (s.kept.slotsOf size).size) (hinit : init s.world = (.ok a, w)) :
    s.useTable (.getOrInit size index init) =
      (⟨.value a, true, w⟩, ⟨(s.kept.fix size).fill index a, true, w⟩) := by
  let computed : Site (Memo α) ω := ⟨s.kept.fix size, true, w⟩
  have hwatched : watched init ⟨s.kept.fix size, false, s.world⟩ = (.ok a, computed) :=
    watched_of_eq hinit
  have hrun : Memo.getOrInit part none size index (watched init) { s with ran := false } =
      (.ok a, part.set ((part.get computed).fill index a) computed) :=
    Memo.getOrInit_of_empty none hempty hindex hwatched
  exact useTable_of_eq hrun

theorem useTable_of_error {e : ε} {w : ω} (hempty : s.kept.get? index = none)
    (hindex : index < (s.kept.slotsOf size).size) (hinit : init s.world = (.error e, w)) :
    s.useTable (.getOrInit size index init) =
      (⟨.failed e, true, w⟩, ⟨s.kept.fix size, true, w⟩) := by
  have hwatched : watched init ⟨s.kept.fix size, false, s.world⟩ =
      (.error (some e), ⟨s.kept.fix size, true, w⟩) := watched_of_eq hinit
  have hrun : Memo.getOrInit part none size index (watched init) { s with ran := false } =
      (.error (some e), ⟨s.kept.fix size, true, w⟩) :=
    Memo.getOrInit_of_error none hempty hindex hwatched
  exact useTable_of_eq hrun

/-! The three ways in which a use with a load can go. -/

variable {c : Site (Once α) ω} {load : Attempt ω ε (List α)}

/-- What a use with a load reports is what the cell answers. -/
theorem useCell_of_eq {answer : Except (Option ε) (List α)} {c' : Site (Once α) ω}
    (h : Once.getOrLoad part (watched load) { c with ran := false } = (answer, c')) :
    c.useCell (.getOrLoad load) = (reportOf (answer, c'), c') := by
  simp only [useCell, h]

theorem useCell_of_filled {items : List α} (hfilled : c.kept.items? = some items) :
    c.useCell (.getOrLoad load) =
      (⟨.value items, false, c.world⟩, { c with ran := false }) := by
  have hrun : Once.getOrLoad part (watched load) { c with ran := false } =
      (.ok items, { c with ran := false }) := by
    simp only [Once.getOrLoad, part, hfilled]
  exact useCell_of_eq hrun

theorem useCell_of_ok {items : List α} {w : ω} (hempty : c.kept.items? = none)
    (hload : load c.world = (.ok items, w)) :
    c.useCell (.getOrLoad load) = (⟨.value items, true, w⟩, ⟨⟨some items⟩, true, w⟩) := by
  have hrun : Once.getOrLoad part (watched load) { c with ran := false } =
      (.ok items, ⟨⟨some items⟩, true, w⟩) := by
    simp only [Once.getOrLoad, part, hempty, watched_of_eq hload, Except.mapError]
  exact useCell_of_eq hrun

theorem useCell_of_error {e : ε} {w : ω} (hempty : c.kept.items? = none)
    (hload : load c.world = (.error e, w)) :
    c.useCell (.getOrLoad load) = (⟨.failed e, true, w⟩, ⟨c.kept, true, w⟩) := by
  have hrun : Once.getOrLoad part (watched load) { c with ran := false } =
      (.error (some e), ⟨c.kept, true, w⟩) := by
    simp only [Once.getOrLoad, part, hempty, watched_of_eq hload, Except.mapError]
  exact useCell_of_eq hrun

end Site

/-! ## Section 4: Tables -/

/-- The table is what its past has made of it: its size is the one that the past has fixed, and
    each slot holds the first value that was computed for it. -/
structure TableFollows (past : Past ω ε α) (m : Memo α) : Prop where
  size : m.slots?.map Array.size = past.size?
  held : ∀ index, m.get? index = past.held index

namespace TableFollows

variable {past : Past ω ε α} {m : Memo α} {w : ω} {size index : Nat} {init : Attempt ω ε α}

/-- A table that nobody has used has no past. -/
theorem empty : TableFollows ([] : Past ω ε α) (Memo.empty : Memo α) := ⟨rfl, fun _ => rfl⟩

theorem size_slotsOf (h : TableFollows past m) (size : Nat) :
    (m.slotsOf size).size = past.size?.getD size := by
  rw [← h.size]
  unfold Memo.slotsOf
  cases m.slots? with
  | none => simp
  | some slots => rfl

/-- The size is fixed, by this use or one before it. -/
theorem size?_extend (h : TableFollows past m) (w : ω) (size index : Nat)
    (init : Attempt ω ε α) :
    (past.extend w (.getOrInit size index init)).size? = some (m.slotsOf size).size := by
  rw [Past.size?_extend, h.size_slotsOf]
  cases past.size? with
  | none => rfl
  | some fixed => rfl

/-- A slot is looked at, which changes nothing. -/
theorem get (h : TableFollows past m) (w : ω) (index : Nat) :
    TableFollows (past.extend w (.get index)) m where
  size := by rw [Past.size?_extend, TableUse.size?, Option.or_none, h.size]
  held k := by
    have hnone : computed? k (.get index, past.report w (.get index)) = none := rfl
    rw [Past.held_extend, hnone, Option.or_none, h.held]

/-- A use that computes no value fixes the size, and fills no slot. -/
theorem fix (h : TableFollows past m)
    (hnone : ∀ k, computed? k (.getOrInit size index init,
      past.report w (.getOrInit size index init)) = none) :
    TableFollows (past.extend w (.getOrInit size index init)) (m.fix size) where
  size := (h.size?_extend w size index init).symm
  held k := by rw [Memo.get?_fix, Past.held_extend, hnone, Option.or_none, h.held]

/-- A use that computes a value fills its slot, which was empty, and no other. -/
theorem fill (h : TableFollows past m) {w' : ω} {a : α} (hindex : index < past.size?.getD size)
    (hheld : past.held index = none) (hinit : init w = (.ok a, w')) :
    TableFollows (past.extend w (.getOrInit size index init)) ((m.fix size).fill index a) where
  size := by
    rw [h.size?_extend, Memo.slots?_fill]
    show some ((m.slotsOf size).setIfInBounds index (some a)).size = _
    rw [Array.size_setIfInBounds]
  held k := by
    have hslots : (m.fix size).slots? = some (m.slotsOf size) := rfl
    have hsize : index < (m.slotsOf size).size := by rwa [h.size_slotsOf]
    rw [Memo.get?_fill_of_lt hslots hsize, Memo.get?_fix, Past.held_extend,
      Past.report_of_ok hindex hheld hinit, computed?, ← h.held]
    -- The slot that is filled was empty in the past; any other is as the past has it.
    by_cases hk : k = index
    · rw [if_pos hk, if_pos hk.symm, hk, h.held, hheld, Option.none_or]
    · rw [if_neg hk, if_neg (Ne.symm hk), Option.or_none]

/-- A use of a table is reported as its past has it, and belongs to the past from then on. -/
theorem useTable {s : Site (Memo α) ω} (h : TableFollows past s.kept) (use : TableUse ω ε α) :
    (s.useTable use).1 = past.report s.world use ∧
      TableFollows (past.extend s.world use) (s.useTable use).2.kept ∧
      (s.useTable use).2.world = (past.report s.world use).world := by
  cases use with
  | get index =>
    have hreport : past.report s.world (.get index) =
        ⟨.found (s.kept.get? index), false, s.world⟩ := by rw [h.held]; rfl
    exact ⟨hreport.symm, h.get s.world index, by rw [hreport]; rfl⟩
  | getOrInit size index init =>
    have hsize : (s.kept.slotsOf size).size = past.size?.getD size := h.size_slotsOf size
    -- Beyond the table nothing is run; within it the slot decides, and then the initializer.
    rcases Nat.lt_or_ge index (past.size?.getD size) with hindex | hindex
    · cases hheld : past.held index with
      | some a =>
        have hreport : past.report s.world (.getOrInit size index init) =
            ⟨.value a, false, s.world⟩ := Past.report_of_held hindex hheld
        rw [Site.useTable_of_filled ((h.held index).trans hheld), hreport]
        exact ⟨rfl, h.fix fun k => by rw [hreport]; rfl, rfl⟩
      | none =>
        have hempty : s.kept.get? index = none := (h.held index).trans hheld
        rcases hinit : init s.world with ⟨e | a, w⟩
        · have hreport := Past.report_of_error hindex hheld hinit
          rw [Site.useTable_of_error hempty (hindex.trans_eq hsize.symm) hinit, hreport]
          exact ⟨rfl, h.fix fun k => by rw [hreport]; rfl, rfl⟩
        · rw [Site.useTable_of_ok hempty (hindex.trans_eq hsize.symm) hinit,
            Past.report_of_ok hindex hheld hinit]
          exact ⟨rfl, h.fill hindex hheld hinit, rfl⟩
    · have hreport : past.report s.world (.getOrInit size index init) =
          ⟨.beyond, false, s.world⟩ := Past.report_of_beyond hindex
      rw [Site.useTable_of_beyond (hsize.trans_le hindex), hreport]
      exact ⟨rfl, h.fix fun k => by rw [hreport]; rfl, rfl⟩

end TableFollows

/-! ## Section 5: Cells -/

/-- The cell is what the past of the one slot has made of it. Every use of a cell that comes with
    a size comes with the size one, so no other size can have been fixed. -/
structure CellFollows (past : Past ω ε (List α)) (c : Once α) : Prop where
  size : past.size?.getD 1 = 1
  held : c.items? = past.held 0

namespace CellFollows

variable {past : Past ω ε (List α)} {c : Once α} {w : ω} {load : Attempt ω ε (List α)}

/-- A cell that nobody has used has no past. -/
theorem empty : CellFollows ([] : Past ω ε (List α)) (Once.empty : Once α) := ⟨rfl, rfl⟩

theorem zero_lt (h : CellFollows past c) : 0 < past.size?.getD 1 := by
  rw [h.size]
  exact Nat.one_pos

theorem size_extend (h : CellFollows past c) (w : ω) {use : TableUse ω ε (List α)}
    (huse : use.size?.getD 1 = 1) : (past.extend w use).size?.getD 1 = 1 := by
  have hsize := h.size
  rw [Past.size?_extend]
  cases hpast : past.size? with
  | none => simpa using huse
  | some fixed => simpa [hpast] using hsize

/-- A use that computes nothing leaves the cell as it is. -/
theorem keep (h : CellFollows past c) {use : TableUse ω ε (List α)} (huse : use.size?.getD 1 = 1)
    (hnone : computed? 0 (use, past.report w use) = none) :
    CellFollows (past.extend w use) c where
  size := h.size_extend w huse
  held := by rw [Past.held_extend, hnone, Option.or_none, h.held]

/-- A load that succeeds fills the cell, which was empty. -/
theorem fill (h : CellFollows past c) {w' : ω} {items : List α} (hheld : past.held 0 = none)
    (hload : load w = (.ok items, w')) :
    CellFollows (past.extend w (.getOrInit 1 0 load)) ⟨some items⟩ where
  size := h.size_extend w rfl
  held := by
    rw [Past.held_extend, hheld, Past.report_of_ok h.zero_lt hheld hload, computed?, if_pos rfl,
      Option.none_or]

/-- A use of a cell is reported as the past of the slot has it, and belongs to that past from
    then on. -/
theorem useCell {s : Site (Once α) ω} (h : CellFollows past s.kept) (use : CellUse ω ε α) :
    (s.useCell use).1 = (Past.useCell use (past, s.world)).1 ∧
      CellFollows (Past.useCell use (past, s.world)).2.1 (s.useCell use).2.kept ∧
      (s.useCell use).2.world = (Past.useCell use (past, s.world)).2.2 := by
  cases use with
  | isLoaded =>
    refine ⟨?_, h, rfl⟩
    simp only [Site.useCell, Past.useCell, Once.isLoaded, h.held]
  | get =>
    refine ⟨?_, h.keep rfl rfl, rfl⟩
    simp only [Site.useCell, Past.useCell, Past.useTable, Past.report, h.held]
  | getOrLoad load =>
    simp only [Past.useCell, Past.useTable]
    -- The one slot is within the table, so a load is never a fault.
    cases hheld : past.held 0 with
    | some items =>
      have hreport : past.report s.world (.getOrInit 1 0 load) =
          ⟨.value items, false, s.world⟩ := Past.report_of_held h.zero_lt hheld
      rw [Site.useCell_of_filled (h.held.trans hheld), hreport]
      exact ⟨rfl, h.keep rfl (by rw [hreport]; rfl), rfl⟩
    | none =>
      have hempty : s.kept.items? = none := h.held.trans hheld
      rcases hload : load s.world with ⟨e | items, w⟩
      · have hreport := Past.report_of_error h.zero_lt hheld hload
        rw [Site.useCell_of_error hempty hload, hreport]
        exact ⟨rfl, h.keep rfl (by rw [hreport]; rfl), rfl⟩
      · rw [Site.useCell_of_ok hempty hload, Past.report_of_ok h.zero_lt hheld hload]
        exact ⟨rfl, h.fill hheld hload, rfl⟩

end CellFollows

/-! ## Section 6: Replays -/

/-- Whatever uses a table or a cell is put to, one after another, it answers them as their past
    has it, runs the same initializers in the same worlds and leaves the same world.

    The right-hand sides have no table: each use is answered from the list of uses before it. So
    the initializers for a slot run only until one of them succeeds, and an index beyond the first
    size is a fault, whatever sizes later uses come with. -/
theorem replay_from_past :
    (∀ (uses : List (TableUse ω ε α)) (w : ω),
      replay Site.useTable uses ⟨Memo.empty, false, w⟩ =
        replay Past.useTable uses ([], w)) ∧
    ∀ (uses : List (CellUse ω ε α)) (w : ω),
      replay Site.useCell uses ⟨Once.empty, false, w⟩ =
        replay Past.useCell uses ([], w) := by
  constructor
  · intro uses w
    -- What carries the induction on the uses is that the table follows its past.
    refine replay_eq (R := fun s p => TableFollows p.1 s.kept ∧ s.world = p.2) ?_ uses _ _
      ⟨.empty, rfl⟩
    rintro use s ⟨past, _⟩ ⟨h, rfl⟩
    exact h.useTable use
  · intro uses w
    refine replay_eq (R := fun s p => CellFollows p.1 s.kept ∧ s.world = p.2) ?_ uses _ _
      ⟨.empty, rfl⟩
    rintro use s ⟨past, _⟩ ⟨h, rfl⟩
    exact h.useCell use

-- A use that is a fault fixes the size all the same, if it is the first.
example : (replay Site.useTable
    [.getOrInit 1 5 (pure 3), .getOrInit 9 0 (pure 7), .getOrInit 9 1 (pure 8), .get 0]
    (⟨Memo.empty, false, ()⟩ : Site (Memo Nat) Unit)).map (·.reply) =
      ([.beyond, .value 7, .beyond, .found (some 7)] : List (Reply Unit Nat)) := rfl

end WriteOnce

end ChainGuest
