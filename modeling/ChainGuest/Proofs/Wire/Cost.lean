import Mathlib
import ChainGuest.Proofs.Wire.Tokens

/-! # What answers cost

    No form of the format is empty, so that an answer costs bytes. A grammar costs what each of
    its derivations takes at least (`Grammar.Costs`), and what is built from forms costs the sum
    of its parts, however much its headers announce.

    A reader of such a grammar leaves fewer bytes than it found (`Reader.Spends`). A header that
    announces more elements than there are bytes left is therefore found out before long: the
    elements fail, and the number of those that are begun is bounded by the bytes
    (`Reader.attempts`), not by the header.
-/

namespace ChainGuest.Wire

/-! ## Section 1: Grammars -/

/-- Every derivation of an answer takes as many bytes, or more. -/
def Grammar.Costs {α : Type} (G : Grammar α) (cost : α → Nat) : Prop :=
  ∀ bytes a, G bytes a → cost a ≤ bytes.length

/-- Answers one after another cost their sum. -/
theorem Grammar.Costs.each {α : Type} {G : Grammar α} {cost : α → Nat} (h : G.Costs cost)
    {bytes : List UInt8} {answers : List α} (hanswers : G.Each bytes answers) :
    (answers.map cost).sum ≤ bytes.length := by
  induction hanswers with
  | nil => exact Nat.zero_le _
  | cons ha _ ih =>
    have hfirst := h _ _ ha
    rw [List.map_cons, List.sum_cons, List.length_append]
    omega

/-- What begins with something costs something. -/
theorem Grammar.Costs.seq {α β : Type} {G : Grammar α} (h : G.Costs fun _ => 1)
    (H : α → Grammar β) : (G.seq H).Costs fun _ => 1 := by
  intro bytes b hb
  obtain ⟨front, back, a, rfl, ha, -⟩ := hb
  have hfront : 1 ≤ front.length := h front a ha
  rw [List.length_append]
  exact Nat.le_add_right_of_le hfront

theorem Header.one_le_length {base room : Nat} {wide : List (UInt8 × Nat)} {bytes : List UInt8}
    {n : Nat} (h : Header base room wide bytes n) : 1 ≤ bytes.length := by
  cases h with
  | fixed hn => exact Nat.le_refl 1
  | wide hm hn => exact Nat.le_add_left 1 _

theorem IntegerForm.one_le_length {bytes : List UInt8} {n : Int} (h : IntegerForm bytes n) :
    1 ≤ bytes.length := by
  cases h with
  | positive hn => exact Nat.le_refl 1
  | negative hl hu => exact Nat.le_refl 1
  | unsigned hm hn => exact Nat.le_add_left 1 _
  | signed hm hl hu => exact Nat.le_add_left 1 _

theorem BoolForm.one_le_length {bytes : List UInt8} {b : Bool} (h : BoolForm bytes b) :
    1 ≤ bytes.length := by
  cases h with
  | false => exact Nat.le_refl 1
  | true => exact Nat.le_refl 1

theorem FloatForm.one_le_length {bytes : List UInt8} {x : Binary64} (h : FloatForm bytes x) :
    1 ≤ bytes.length := by
  cases h with
  | double x => exact Nat.le_add_left 1 _
  | single hn => exact Nat.le_add_left 1 _

/-- A text costs its bytes and a header. -/
theorem TextForm.cost_le {bytes : List UInt8} {s : String} (h : TextForm bytes s) :
    1 + s.utf8ByteSize ≤ bytes.length := by
  obtain ⟨hheader⟩ := h
  have hpos := hheader.one_le_length
  have hbytes : (Utf8.encode s).length = s.utf8ByteSize := rfl
  rw [List.length_append, hbytes]
  omega

theorem BinaryForm.cost_le {bytes payload : List UInt8} (h : BinaryForm bytes payload) :
    1 + payload.length ≤ bytes.length := by
  obtain ⟨hheader⟩ := h
  have hpos := hheader.one_le_length
  rw [List.length_append]
  omega

/-- An array costs its elements and a header. -/
theorem ArrayForm.cost_le {α : Type} {G : Grammar α} {cost : α → Nat} (hG : G.Costs cost)
    {bytes : List UInt8} {answers : List α} (h : ArrayForm G bytes answers) :
    1 + (answers.map cost).sum ≤ bytes.length := by
  obtain ⟨hheader, helements⟩ := h
  have hpos := hheader.one_le_length
  have hsum := hG.each helements
  rw [List.length_append]
  omega

theorem ByteListForm.cost_le {bytes b : List UInt8} (h : ByteListForm bytes b) :
    1 + b.length ≤ bytes.length := by
  have hbyte : ByteForm.Costs fun _ => 1 := fun _ _ => IntegerForm.one_le_length
  simpa using ArrayForm.cost_le hbyte h

theorem OptionForm.one_le_length {α : Type} {G : Grammar α} (hG : G.Costs fun _ => 1)
    {bytes : List UInt8} {a : Option α} (h : OptionForm G bytes a) : 1 ≤ bytes.length := by
  cases h with
  | none => exact Nat.le_refl 1
  | some ha => exact hG _ _ ha

/-- A tag costs its bytes, its header and that of the map. -/
theorem TagForm.cost_le {bytes : List UInt8} {tag : String} (h : TagForm bytes tag) :
    2 + tag.utf8ByteSize ≤ bytes.length := by
  obtain ⟨hheader, hkey⟩ := h
  have hpos := hheader.one_le_length
  have htext := hkey.cost_le
  rw [List.length_append]
  omega

/-! ## Section 2: Readers -/

namespace Reader

variable {α β : Type} {r : Reader α} {c c' : Cursor}

/-- Reading leaves the levels as they were. -/
theorem Accepts.depth_eq {G : Grammar α} {a : α} (h : Accepts c.depth r G)
    (hrun : r c = (.ok a, c')) : c'.depth = c.depth := by
  obtain ⟨front, back, -, -, rfl⟩ := (h c rfl a c').1 hrun
  rfl

/-- At this cursor the reader does not succeed. -/
def Fails (r : Reader α) (c : Cursor) : Prop := ∃ e c', r c = (.error e, c')

namespace Fails

theorem congr {r' : Reader α} (h : r c = r' c) (h' : Fails r' c) : Fails r c := by
  obtain ⟨e, c', hrun⟩ := h'
  exact ⟨e, c', h.trans hrun⟩

theorem bind (h : Fails r c) (f : α → Reader β) : Fails (r >>= f) c := by
  obtain ⟨e, c', hrun⟩ := h
  exact ⟨e, c', Attempt.bind_of_error f hrun⟩

theorem bind_of_ok {f : α → Reader β} {a : α} (hrun : r c = (.ok a, c')) (h : Fails (f a) c') :
    Fails (r >>= f) c := by
  obtain ⟨e, c'', hfails⟩ := h
  exact ⟨e, c'', (Attempt.bind_of_ok f hrun).trans hfails⟩

/-- What stands inside a container fails, if there is a level left for it, and if there is none
    it is refused. -/
theorem inside {limit : Nat} {inner : Option (Reader α)} {container : Reader α → Reader β}
    (h : ∀ r ∈ inner, Fails (container r) { c with depth := c.depth + 1 }) :
    Fails (inside limit inner container) c := by
  cases inner with
  | none => exact ⟨_, _, rfl⟩
  | some r =>
    obtain ⟨e, c', hrun⟩ := h r rfl
    refine ⟨e, { c' with depth := c'.depth - 1 }, ?_⟩
    simp [Reader.inside, Reader.deeper, hrun]

end Fails

/-- A reader that goes by the levels that are left reads what is inside one level deeper, if there
    is a level left. This is how recursion on levels becomes recursion on what is inside: the
    inner reader is the same reader, at a cursor one level down. -/
theorem exists_inner (within : Nat → Reader α) (level : Option (Reader α) → Reader α)
    (hzero : within 0 = level none) (hsucc : ∀ room, within (room + 1) = level (some (within room)))
    (limit : Nat) (c : Cursor) : ∃ inner, within (limit - c.depth) c = level inner c ∧
      ∀ r ∈ inner, r = within (limit - (c.depth + 1)) := by
  -- The limit counts from the outside, the recursion from the levels that are left.
  cases hroom : limit - c.depth with
  | zero => exact ⟨none, congrFun hzero c, by simp⟩
  | succ room =>
    have hless : limit - (c.depth + 1) = room := by omega
    refine ⟨some (within room), congrFun (hsucc room) c, ?_⟩
    intro r hr
    rw [hless]
    exact (Option.mem_some_iff.1 hr).symm

/-- A reader that succeeds leaves fewer bytes than it found. -/
def Spends (r : Reader α) : Prop :=
  ∀ c a c', r c = (.ok a, c') → c'.remaining < c.remaining

/-- The grammars may depend on the level: all of them cost something. -/
theorem Spends.of_accepts {G : Nat → Grammar α} (h : ∀ depth, Accepts depth r (G depth))
    (hcost : ∀ depth, (G depth).Costs fun _ => 1) : Spends r := by
  intro c a c' hrun
  obtain ⟨front, back, hc, hg, rfl⟩ := (h c.depth c rfl a c').1 hrun
  have hfront : 1 ≤ front.length := hcost c.depth front a hg
  -- What was read is in front of what is left.
  unfold Cursor.remaining
  rw [hc, Cursor.advance_rest, List.length_append]
  omega

/-- How many of `count` elements are begun: those that are read, and the one that fails. -/
def attempts (r : Reader α) : (count : Nat) → Cursor → Nat
  | 0, _ => 0
  | count + 1, c =>
    match r c with
    | (.ok _, c') => attempts r count c' + 1
    | (.error _, _) => 1

theorem attempts_succ_of_ok {count : Nat} {a : α} (h : r c = (.ok a, c')) :
    attempts r (count + 1) c = attempts r count c' + 1 := by
  rw [attempts, h]

theorem attempts_succ_of_error {count : Nat} {e : DecodeError} (h : r c = (.error e, c')) :
    attempts r (count + 1) c = 1 := by
  rw [attempts, h]

/-- If the elements fail, then those begun are the ones before the failure and the one that fails.
    So what was read before a failure is a run that succeeded, and costs what it costs. -/
theorem times_of_error {count : Nat} {e : DecodeError} (h : times count r c = (.error e, c')) :
    ∃ done answers c₁, attempts r count c = done + 1 ∧ times done r c = (.ok answers, c₁) ∧
      r c₁ = (.error e, c') := by
  induction count generalizing c with
  | zero =>
    rw [times_zero] at h
    exact absurd h (by simp)
  | succ count ih =>
    rw [times_succ] at h
    -- Either the first element fails, or one of the others does, or the failure is none.
    rcases hfirst : r c with ⟨e' | a, c₁⟩
    · rw [Attempt.bind_of_error _ hfirst] at h
      obtain ⟨rfl, rfl⟩ : e' = e ∧ c₁ = c' := by simpa using h
      exact ⟨0, [], c, attempts_succ_of_error hfirst, rfl, hfirst⟩
    · rw [Attempt.bind_of_ok _ hfirst] at h
      rcases hrest : times count r c₁ with ⟨e' | rest, c₂⟩
      · rw [Attempt.bind_of_error _ hrest] at h
        obtain ⟨rfl, rfl⟩ : e' = e ∧ c₂ = c' := by simpa using h
        obtain ⟨done, answers, c₃, hattempts, hdone, hfails⟩ := ih hrest
        refine ⟨done + 1, a :: answers, c₃, ?_, ?_, hfails⟩
        · rw [attempts_succ_of_ok hfirst, hattempts]
        · rw [times_succ, Attempt.bind_of_ok _ hfirst, Attempt.bind_of_ok _ hdone]
          rfl
      · rw [Attempt.bind_of_ok _ hrest] at h
        exact absurd h (by simp)

namespace Spends

/-- Each element that is read takes a byte. -/
theorem times_ok (h : Spends r) {count : Nat} {answers : List α}
    (hrun : times count r c = (.ok answers, c')) : count + c'.remaining ≤ c.remaining := by
  -- Each run spends a byte, and the rest of the runs start from what it has left.
  induction count generalizing c answers with
  | zero =>
    rw [times_zero] at hrun
    obtain ⟨-, rfl⟩ : [] = answers ∧ c = c' := by simpa using hrun
    exact Nat.le_of_eq (Nat.zero_add _)
  | succ count ih =>
    rw [times_succ] at hrun
    rcases hfirst : r c with ⟨e | a, c₁⟩
    · rw [Attempt.bind_of_error _ hfirst] at hrun
      exact absurd hrun (by simp)
    · rw [Attempt.bind_of_ok _ hfirst] at hrun
      rcases hrest : times count r c₁ with ⟨e | rest, c₂⟩
      · rw [Attempt.bind_of_error _ hrest] at hrun
        exact absurd hrun (by simp)
      · rw [Attempt.bind_of_ok _ hrest] at hrun
        obtain ⟨-, rfl⟩ : a :: rest = answers ∧ c₂ = c' := by simpa using hrun
        have hspent := h c a c₁ hfirst
        have hbound := ih hrest
        omega

/-- More elements than bytes fail. -/
theorem times_fails (h : Spends r) {count : Nat} (hcount : c.remaining < count) :
    Fails (times count r) c := by
  rcases hrun : times count r c with ⟨e | answers, c'⟩
  · exact ⟨e, c', hrun⟩
  · have hle := h.times_ok hrun
    omega

/-- The elements that are begun are no more than the bytes and one. This does not depend on
    `count`, which is what the header announces. -/
theorem attempts_le (h : Spends r) (count : Nat) (c : Cursor) :
    attempts r count c ≤ c.remaining + 1 := by
  induction count generalizing c with
  | zero => exact Nat.zero_le _
  | succ count ih =>
    -- The one that fails counts for itself, and one that is read is paid for by its byte.
    rcases hfirst : r c with ⟨e | a, c'⟩
    · rw [attempts_succ_of_error hfirst]
      omega
    · have hspent := h c a c' hfirst
      have hbound := ih c'
      rw [attempts_succ_of_ok hfirst]
      omega

end Spends

end Reader

end ChainGuest.Wire
