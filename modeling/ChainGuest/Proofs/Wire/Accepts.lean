import Mathlib
import ChainGuest.Proofs.Wire.Grammar
import ChainGuest.Wire.Buffer

/-! # Readers against grammars

    A reader accepts a grammar if it succeeds exactly on the inputs that begin with a
    derivation, answers what is derived, and stops right behind the derivation's bytes.

    Acceptance follows the shape of a reader: one lemma for each way of building
    readers from readers. What a whole buffer holds is then read off the grammar
    (`decodeBuffer_eq_ok_iff`), and a grammar that some reader accepts derives at most
    one answer from the same bytes (`Reader.Accepts.unique`).
-/

namespace ChainGuest.Wire

/-! ## Section 1: Acceptance -/

namespace Cursor

@[simp] theorem advance_depth (c : Cursor) (count : Nat) (rest : List UInt8) :
    (c.advance count rest).depth = c.depth := rfl

@[simp] theorem advance_rest (c : Cursor) (count : Nat) (rest : List UInt8) :
    (c.advance count rest).rest = rest := rfl

theorem advance_advance (c : Cursor) (m n : Nat) (mid rest : List UInt8) :
    (c.advance m mid).advance n rest = c.advance (m + n) rest := by
  simp [advance, Nat.add_assoc]

/-- Staying where one is, is advancing by nothing. -/
theorem advance_zero (c : Cursor) : c.advance 0 c.rest = c := rfl

end Cursor

namespace Reader

/-- With `depth` levels entered, `r` succeeds exactly on the inputs that begin with a
    derivation of `G`, and consumes exactly the bytes of that derivation. -/
def Accepts {α : Type} (depth : Nat) (r : Reader α) (G : Grammar α) : Prop :=
  ∀ c : Cursor, c.depth = depth → ∀ a c',
    r c = (.ok a, c') ↔
      ∃ front back, c.rest = front ++ back ∧ G front a ∧ c' = c.advance front.length back

namespace Accepts

variable {α β : Type} {depth : Nat}

/-- A reader that accepts a grammar reads every derivation, whatever follows it. -/
theorem run {r : Reader α} {G : Grammar α} (h : Accepts depth r G) {c : Cursor}
    (hd : c.depth = depth) {front back : List UInt8} {a : α} (hr : c.rest = front ++ back)
    (hg : G front a) : r c = (.ok a, c.advance front.length back) :=
  (h c hd a _).2 ⟨front, back, hr, hg, rfl⟩

/-- No two answers are derived from the same bytes. A grammar by itself does not say so; it
    follows from there being a reader of it. -/
theorem unique {r : Reader α} {G : Grammar α} (h : Accepts depth r G) {bytes : List UInt8}
    {a b : α} (ha : G bytes a) (hb : G bytes b) : a = b := by
  let c : Cursor := ⟨0, bytes, depth, []⟩
  have hr : c.rest = bytes ++ [] := (List.append_nil bytes).symm
  -- One run of the reader cannot have two answers.
  have h₁ := h.run (c := c) rfl hr ha
  have h₂ := h.run (c := c) rfl hr hb
  rw [h₁] at h₂
  simpa using h₂

theorem congr {r : Reader α} {G H : Grammar α} (h : Accepts depth r G)
    (hGH : ∀ bytes a, G bytes a ↔ H bytes a) : Accepts depth r H := by
  intro c hd a c'
  simp only [h c hd a c', hGH]

/-! ### Acceptance along the constructors of readers -/

protected theorem pure (a : α) : Accepts depth (pure a) (Grammar.done a) := by
  intro c _ b c'
  constructor
  · intro h
    obtain ⟨rfl, rfl⟩ : a = b ∧ c = c' := by simpa using h
    exact ⟨[], c.rest, rfl, ⟨rfl, rfl⟩, c.advance_zero.symm⟩
  · rintro ⟨front, back, hr, ⟨rfl, rfl⟩, rfl⟩
    obtain rfl : c.rest = back := by simpa using hr
    rfl

protected theorem fail (e : DecodeError) :
    Accepts depth (Attempt.fail e : Reader α) fun _ _ => False := by
  intro c _ a c'
  constructor
  · intro h
    simp [Attempt.fail] at h
  · rintro ⟨_, _, _, h, _⟩
    exact h.elim

/-- What is decided without reading. -/
protected theorem ofExcept (answer : Except DecodeError α) :
    Accepts depth (Attempt.ofExcept answer : Reader α) fun bytes a =>
      bytes = [] ∧ answer = .ok a := by
  cases answer with
  | error e => exact (Accepts.fail e).congr (by simp)
  | ok a => exact (Accepts.pure a).congr (by simp [Grammar.done, eq_comm])

protected theorem bind {r : Reader α} {G : Grammar α} {f : α → Reader β}
    {H : α → Grammar β} (hr : Accepts depth r G) (hf : ∀ a, Accepts depth (f a) (H a)) :
    Accepts depth (r >>= f) (G.seq H) := by
  intro c hd b c'
  constructor
  · intro h
    rcases hx : r c with ⟨e | a, c₁⟩
    · rw [Attempt.bind_of_error f hx] at h
      simp at h
    · rw [Attempt.bind_of_ok f hx] at h
      -- The second reader starts behind the bytes of the first derivation.
      obtain ⟨front, mid, hc, hg, rfl⟩ := (hr c hd a c₁).1 hx
      obtain ⟨front', back, rfl, hh, rfl⟩ :=
        (hf a (c.advance front.length mid) hd b c').1 h
      refine ⟨front ++ front', back, by simp [hc], ⟨front, front', a, rfl, hg, hh⟩, ?_⟩
      rw [Cursor.advance_advance, List.length_append]
  · rintro ⟨bytes, back, hc, ⟨front, front', a, rfl, hg, hh⟩, rfl⟩
    -- To the first reader, the second derivation is what follows.
    have hx := hr.run hd (by simpa using hc) hg
    have hnext := (hf a).run (c := c.advance front.length (front' ++ back)) hd rfl hh
    rw [Attempt.bind_of_ok f hx, hnext, Cursor.advance_advance, List.length_append]

/-- A reader whose answer is passed through `f`. -/
protected theorem map {r : Reader α} {G : Grammar α} (f : α → β) (hr : Accepts depth r G) :
    Accepts depth (r >>= fun a => pure (f a)) (G.map f) := by
  refine (hr.bind fun a => .pure (f a)).congr fun bytes b => ?_
  constructor
  · rintro ⟨front, back, a, rfl, hg, rfl, rfl⟩
    exact ⟨a, by simpa using hg, rfl⟩
  · rintro ⟨a, hg, rfl⟩
    exact ⟨bytes, [], a, by simp, hg, rfl, rfl⟩

/-- The offset at which a reader starts shows in its errors only. -/
theorem position_bind {f : Nat → Reader α} {G : Grammar α} (h : ∀ n, Accepts depth (f n) G) :
    Accepts depth (position >>= f) G :=
  fun c hd => h c.position c hd

protected theorem take (count : Nat) :
    Accepts depth (take count) fun bytes answer => answer = bytes ∧ bytes.length = count := by
  intro c _ a c'
  unfold take
  constructor
  · intro h
    split at h
    · next front back hs =>
      obtain ⟨hc, hl⟩ := splitFront?_eq_some_iff.1 hs
      obtain ⟨rfl, rfl⟩ : front = a ∧ c.advance count back = c' := by simpa using h
      exact ⟨_, back, hc, ⟨rfl, hl⟩, by rw [hl]⟩
    · simp at h
  · rintro ⟨front, back, hc, ⟨rfl, hl⟩, rfl⟩
    have hs : splitFront? count c.rest = some (a, back) := splitFront?_eq_some_iff.2 ⟨hc, hl⟩
    simp only [hs, hl]

/-- Entering and leaving a level moves no byte. -/
theorem deeper {r : Reader α} {G : Grammar α} (h : Accepts (depth + 1) r G) :
    Accepts depth r.deeper G := by
  intro c hd a c'
  have hc := h { c with depth := c.depth + 1 } (by simp [hd]) a
  constructor
  · intro hrun
    rcases hx : r { c with depth := c.depth + 1 } with ⟨x, c₁⟩
    -- Coming back up takes away the level that was entered.
    obtain ⟨rfl, rfl⟩ : x = .ok a ∧ { c₁ with depth := c₁.depth - 1 } = c' := by
      simpa [Reader.deeper, hx] using hrun
    obtain ⟨front, back, hr, hg, rfl⟩ := (hc c₁).1 hx
    exact ⟨front, back, hr, hg, rfl⟩
  · rintro ⟨front, back, hr, hg, rfl⟩
    have hx := (hc _).2 ⟨front, back, hr, hg, rfl⟩
    simp [Reader.deeper, hx, Cursor.advance]

/-- `count` runs read `count` derivations. -/
theorem times {r : Reader α} {G : Grammar α} (h : Accepts depth r G) (count : Nat) :
    Accepts depth (times count r) fun bytes answers =>
      G.Each bytes answers ∧ answers.length = count := by
  -- On the number of runs; the grammar says how many derivations there are, so the lists of answers
  -- follow it.
  induction count with
  | zero =>
    rw [times_zero]
    refine (Accepts.pure []).congr fun bytes answers => ?_
    constructor
    · rintro ⟨rfl, rfl⟩
      exact ⟨.nil, rfl⟩
    · rintro ⟨hg, hl⟩
      obtain rfl := List.length_eq_zero_iff.1 hl
      exact ⟨Grammar.each_nil.1 hg, rfl⟩
  | succ count ih =>
    -- A list that is not empty is one derivation, and those of the rest.
    rw [times_succ]
    refine (h.bind fun a => ih.map (a :: ·)).congr fun bytes answers => ?_
    constructor
    · rintro ⟨front, back, a, rfl, ha, rest, ⟨hrest, hl⟩, rfl⟩
      exact ⟨.cons ha hrest, by rw [List.length_cons, hl]⟩
    · rintro ⟨hg, hl⟩
      obtain ⟨a, rest, rfl⟩ := List.exists_cons_of_length_eq_add_one hl
      obtain ⟨front, back, rfl, ha, hrest⟩ := Grammar.each_cons.1 hg
      exact ⟨front, back, a, rfl, ha, rest, ⟨hrest, by simpa using hl⟩, rfl⟩

end Accepts

end Reader

/-! ## Section 2: Whole buffers -/

/-- What is made of a buffer whose content was read up to `c`. -/
theorem decodeBuffer_of_ok {α : Type} {r : Reader α} {bytes : List UInt8} {a : α} {c : Cursor}
    (h : r (.start bytes) = (.ok a, c)) (config : Config) (content : Content) :
    decodeBuffer config content r bytes =
      if c.rest = [] then (.ok a, c.notices)
      else if config.rejectTrailing then
        (.error (.trailingBytes c.position c.remaining), c.notices)
      else (.ok a, c.notices ++ [⟨content, c.position, c.remaining⟩]) := by
  unfold decodeBuffer
  simp only [Attempt.bind_of_ok _ h, Attempt.bind_apply, Reader.checkTrailing, Reader.finish]
  cases hc : c.rest with
  | nil => simp
  | cons head tail => cases config.rejectTrailing <;> simp

/-- A failure to read the content is the answer. -/
theorem decodeBuffer_of_error {α : Type} {r : Reader α} {bytes : List UInt8} {e : DecodeError}
    {c : Cursor} (h : r (.start bytes) = (.error e, c)) (config : Config) (content : Content) :
    decodeBuffer config content r bytes = (.error e, c.notices) := by
  unfold decodeBuffer
  simp only [Attempt.bind_of_error _ h]

/-- A buffer is read if it begins with a derivation, behind which nothing is left if bytes left
    over are refused. This is where a theorem about a reader becomes one about a call: the front
    is the content, the back is what the configuration decides about. -/
theorem decodeBuffer_eq_ok_iff {α : Type} {r : Reader α} {G : Grammar α}
    (h : r.Accepts 0 G) (config : Config) (content : Content) (bytes : List UInt8) (a : α) :
    (decodeBuffer config content r bytes).1 = .ok a ↔
      ∃ front back, bytes = front ++ back ∧ G front a ∧
        (config.rejectTrailing = true → back = []) := by
  constructor
  · intro hok
    rcases hx : r (.start bytes) with ⟨e | b, c⟩
    · simp [decodeBuffer_of_error hx] at hok
    · obtain ⟨front, back, hb, hg, rfl⟩ := (h (.start bytes) rfl b c).1 hx
      -- Bytes behind the derivation are let pass, unless they are refused.
      rw [decodeBuffer_of_ok hx] at hok
      cases back with
      | nil =>
        obtain rfl : b = a := by simpa using hok
        exact ⟨front, [], hb, hg, fun _ => rfl⟩
      | cons head tail =>
        cases hreject : config.rejectTrailing with
        | true => simp [hreject] at hok
        | false =>
          obtain rfl : b = a := by simpa [hreject] using hok
          exact ⟨front, head :: tail, hb, hg, by simp⟩
  · rintro ⟨front, back, hb, hg, ht⟩
    -- The content is read, and what stands behind it is either nothing or let pass.
    rw [decodeBuffer_of_ok (h.run (c := .start bytes) rfl hb hg)]
    cases back with
    | nil => simp
    | cons head tail => cases hreject : config.rejectTrailing <;> simp_all

/-- If bytes left over are refused, the buffers that are read are the derivations. -/
theorem decodeBuffer_eq_ok_iff_of_reject {α : Type} {r : Reader α} {G : Grammar α}
    (h : r.Accepts 0 G) {config : Config} (hreject : config.rejectTrailing = true)
    (content : Content) (bytes : List UInt8) (a : α) :
    (decodeBuffer config content r bytes).1 = .ok a ↔ G bytes a := by
  rw [decodeBuffer_eq_ok_iff h]
  constructor
  · rintro ⟨front, back, rfl, hg, hback⟩
    rwa [hback hreject, List.append_nil]
  · intro hg
    exact ⟨bytes, [], (List.append_nil bytes).symm, hg, fun _ => rfl⟩

/-- A buffer that is a derivation from end to end is read whatever the configuration, and
    nothing is noticed about it. -/
theorem decodeBuffer_of_derivation {α : Type} {r : Reader α} {G : Grammar α}
    (h : r.Accepts 0 G) (config : Config) (content : Content) {bytes : List UInt8} {a : α}
    (hg : G bytes a) : decodeBuffer config content r bytes = (.ok a, []) := by
  have hrun := h.run (c := .start bytes) rfl (List.append_nil bytes).symm hg
  rw [decodeBuffer_of_ok hrun]
  rfl

end ChainGuest.Wire
