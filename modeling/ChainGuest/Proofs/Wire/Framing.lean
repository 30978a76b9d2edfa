import Mathlib
import ChainGuest.Proofs.Wire.Tokens

/-! # Readers and bytes that are still to come

    A reader is framed if it never looks behind the bytes it consumes. If it succeeds, it
    does the same when more bytes follow. If it fails, then either the bytes ended before the
    token did, and the error says where they ended, or it fails in the same way whatever
    follows.

    Every reader is framed that is built in the ways that readers are built here, one lemma
    for each way. Only looking for a nil takes care: where no byte is left, a nil may still
    come.
-/

namespace ChainGuest.Wire

/-! ## Section 1: More bytes -/

namespace Cursor

/-- The cursor with more bytes behind those that are left. -/
def extend (c : Cursor) (more : List UInt8) : Cursor := { c with rest := c.rest ++ more }

@[simp] theorem extend_rest (c : Cursor) (more : List UInt8) :
    (c.extend more).rest = c.rest ++ more := rfl

@[simp] theorem extend_depth (c : Cursor) (more : List UInt8) :
    (c.extend more).depth = c.depth := rfl

@[simp] theorem extend_position (c : Cursor) (more : List UInt8) :
    (c.extend more).position = c.position := rfl

theorem start_extend (bytes more : List UInt8) :
    (start bytes).extend more = start (bytes ++ more) := rfl

/-- The offset behind the last byte. -/
def stop (c : Cursor) : Nat := c.position + c.rest.length

/-- From `c` to `c'` bytes were read, and nothing else happened. -/
def Forward (c c' : Cursor) : Prop :=
  ∃ front, c.rest = front ++ c'.rest ∧ c' = c.advance front.length c'.rest

namespace Forward

protected theorem refl (c : Cursor) : Forward c c := ⟨[], rfl, c.advance_zero.symm⟩

protected theorem trans {c c' c'' : Cursor} (h : Forward c c') (h' : Forward c' c'') :
    Forward c c'' := by
  obtain ⟨front, hc, hc'⟩ := h
  obtain ⟨front', hd, hd'⟩ := h'
  refine ⟨front ++ front', ?_, ?_⟩
  · rw [hc, hd, List.append_assoc]
  · rw [hd', hc', advance_advance, List.length_append]
    rfl

/-- Reading does not move the end of the bytes. -/
theorem stop_eq {c c' : Cursor} (h : Forward c c') : c'.stop = c.stop := by
  obtain ⟨front, hc, hc'⟩ := h
  have hposition : c'.position = c.position + front.length := congrArg position hc'
  have hlength : c.rest.length = front.length + c'.rest.length := by
    rw [hc, List.length_append]
  unfold stop
  omega

end Forward

end Cursor

/-- The bytes end at `stop`, before the token does. -/
def DecodeError.EndsAt (stop : Nat) : DecodeError → Prop
  | .unexpectedEof position needed remaining => position + remaining = stop ∧ remaining < needed
  | _ => False

theorem DecodeError.EndsAt.exists_eq {e : DecodeError} {stop : Nat} (h : e.EndsAt stop) :
    ∃ position needed remaining, e = .unexpectedEof position needed remaining ∧
      position + remaining = stop ∧ remaining < needed := by
  cases e with
  | unexpectedEof position needed remaining => exact ⟨position, needed, remaining, rfl, h⟩
  | _ => exact h.elim

/-! ## Section 2: Framed readers -/

namespace Reader

/-- The reader never looks behind the bytes it consumes. If it succeeds, more bytes change nothing
    but what is left over; if it fails, either the bytes ended, and the error says where, or more
    bytes change nothing at all. -/
structure Framed {α : Type} (r : Reader α) : Prop where
  ok : ∀ {c a c'}, r c = (.ok a, c') →
    c.Forward c' ∧ ∀ more, r (c.extend more) = (.ok a, c'.extend more)
  error : ∀ {c e c'}, r c = (.error e, c') →
    e.EndsAt c.stop ∨ ∀ more, r (c.extend more) = (.error e, c'.extend more)

namespace Framed

variable {α β : Type}

/-- A reader that accepts a grammar does not notice what follows a derivation; so only its
    failures have to be looked at. This halves the work below: success is settled by the grammars.
-/
theorem of_accepts {r : Reader α} {G : Grammar α} (h : ∀ depth, Accepts depth r G)
    (herror : ∀ {c e c'}, r c = (.error e, c') →
      e.EndsAt c.stop ∨ ∀ more, r (c.extend more) = (.error e, c'.extend more)) :
    Framed r where
  ok := by
    intro c a c' hrun
    obtain ⟨front, back, hc, hg, rfl⟩ := (h c.depth c rfl a c').1 hrun
    refine ⟨⟨front, hc, rfl⟩, fun more => ?_⟩
    -- What follows the derivation has grown; to a reader that accepts, it is what follows either
    -- way.
    have hrest : (c.extend more).rest = front ++ (back ++ more) := by
      rw [Cursor.extend_rest, hc, List.append_assoc]
    exact (h c.depth).run (c := c.extend more) rfl hrest hg
  error := herror

protected theorem pure (a : α) : Framed (pure a) where
  ok := by
    intro c b c' h
    obtain ⟨rfl, rfl⟩ : a = b ∧ c = c' := by simpa using h
    exact ⟨.refl c, fun _ => rfl⟩
  error h := absurd h (by simp)

protected theorem fail (e : DecodeError) : Framed (Attempt.fail e : Reader α) where
  ok h := absurd h (by simp [Attempt.fail])
  error := by
    intro c e' c' h
    obtain ⟨rfl, rfl⟩ : e = e' ∧ c = c' := by simpa [Attempt.fail] using h
    exact .inr fun _ => rfl

/-- What is decided without reading is decided whatever follows. -/
protected theorem ofExcept (answer : Except DecodeError α) :
    Framed (Attempt.ofExcept answer : Reader α) := by
  cases answer with
  | error e => exact .fail e
  | ok a => exact .pure a

protected theorem bind {r : Reader α} {f : α → Reader β} (hr : Framed r)
    (hf : ∀ a, Framed (f a)) : Framed (r >>= f) where
  ok := by
    intro c b c' h
    rcases hx : r c with ⟨e | a, c₁⟩
    · rw [Attempt.bind_of_error f hx] at h
      exact absurd h (by simp)
    · rw [Attempt.bind_of_ok f hx] at h
      obtain ⟨hforward, hmore⟩ := hr.ok hx
      obtain ⟨hforward', hmore'⟩ := (hf a).ok h
      refine ⟨hforward.trans hforward', fun more => ?_⟩
      rw [Attempt.bind_of_ok f (hmore more), hmore' more]
  error := by
    intro c e c' h
    rcases hx : r c with ⟨e' | a, c₁⟩
    · rw [Attempt.bind_of_error f hx] at h
      obtain ⟨rfl, rfl⟩ : e' = e ∧ c₁ = c' := by simpa using h
      rcases hr.error hx with hends | hmore
      · exact .inl hends
      · exact .inr fun more => Attempt.bind_of_error f (hmore more)
    · rw [Attempt.bind_of_ok f hx] at h
      obtain ⟨hforward, hmore⟩ := hr.ok hx
      -- The second reader starts behind the first, before the same end.
      rcases (hf a).error h with hends | hmore'
      · exact .inl (hforward.stop_eq ▸ hends)
      · refine .inr fun more => ?_
        rw [Attempt.bind_of_ok f (hmore more), hmore' more]

/-- A reader whose answer is passed through `f`. -/
protected theorem map {r : Reader α} (hr : Framed r) (f : α → β) :
    Framed (r >>= fun a => pure (f a)) :=
  hr.bind fun a => .pure (f a)

/-- The offset at which a reader starts does not depend on what follows. -/
theorem position_bind {f : Nat → Reader α} (h : ∀ n, Framed (f n)) :
    Framed (position >>= f) where
  ok := by
    intro c a c' hrun
    exact (h c.position).ok hrun
  error := by
    intro c e c' hrun
    exact (h c.position).error hrun

protected theorem take (count : Nat) : Framed (take count) := by
  refine .of_accepts (fun _ => Accepts.take count) fun {c e c'} h => ?_
  unfold Reader.take at h
  split at h
  · exact absurd h (by simp)
  · next hsplit =>
    obtain ⟨rfl, -⟩ := by simpa using h
    have hlength : c.rest.length < count := splitFront?_eq_none_iff.1 hsplit
    exact .inl ⟨rfl, hlength⟩

/-- A token that is cut short says so; one of another shape does, too, whatever follows. -/
protected theorem token (shape : Shape) (form? : UInt8 → Option (Form α)) :
    Framed (token shape form?) := by
  refine .of_accepts (fun _ => Accepts.token shape form?) fun {c e c'} h => ?_
  unfold Reader.token at h
  -- If the marker is missing or the payload is short, the bytes ended; a marker of another shape
  -- stays one.
  split at h
  · next hrest =>
    obtain ⟨rfl, -⟩ := by simpa using h
    refine .inl ⟨?_, Nat.one_pos⟩
    rw [Cursor.stop, hrest]
    rfl
  · next marker tail hrest =>
    split at h
    · next hform =>
      obtain ⟨rfl, rfl⟩ := by simpa using h
      refine .inr fun more => ?_
      unfold Reader.token
      simp only [Cursor.extend_rest, hrest, List.cons_append, hform, Cursor.extend_position]
    · next form hform =>
      split at h
      · next hsplit =>
        obtain ⟨rfl, -⟩ := by simpa using h
        refine .inl ⟨?_, splitFront?_eq_none_iff.1 hsplit⟩
        rw [Cursor.stop, hrest, List.length_cons]
        omega
      · exact absurd h (by simp)

/-- The range of an integer is looked at when all of its bytes are read. -/
protected theorem integer (kind : IntKind) : Framed (integer kind) := by
  refine .of_accepts (fun _ => Accepts.integer kind) fun {c e c'} h => ?_
  have htoken : Framed (token .integer integerForm?) := .token .integer integerForm?
  unfold Reader.integer at h
  -- The token fails, or its integer is out of range, which more bytes do not change.
  rcases hrun : token .integer integerForm? c with ⟨e' | n, c₁⟩
  · simp only [hrun] at h
    obtain ⟨rfl, rfl⟩ : e' = e ∧ c₁ = c' := by simpa using h
    rcases htoken.error hrun with hends | hmore
    · exact .inl hends
    · refine .inr fun more => ?_
      unfold Reader.integer
      simp only [hmore more]
  · simp only [hrun] at h
    by_cases hholds : kind.Holds n
    · rw [if_pos hholds] at h
      exact absurd h (by simp)
    · rw [if_neg hholds] at h
      obtain ⟨rfl, rfl⟩ := by simpa using h
      refine .inr fun more => ?_
      unfold Reader.integer
      simp only [(htoken.ok hrun).2 more, if_neg hholds, Cursor.extend_position]

/-! ### Levels -/

protected theorem deeper {r : Reader α} (h : Framed r) : Framed r.deeper where
  ok := by
    intro c a c' hrun
    rcases hx : r { c with depth := c.depth + 1 } with ⟨x, c₁⟩
    obtain ⟨rfl, rfl⟩ : x = .ok a ∧ { c₁ with depth := c₁.depth - 1 } = c' := by
      simpa [Reader.deeper, hx] using hrun
    obtain ⟨⟨front, hc, hc₁⟩, hmore⟩ := h.ok hx
    refine ⟨⟨front, hc, ?_⟩, fun more => ?_⟩
    · rw [hc₁]
      rfl
    · have hmore : r { c.extend more with depth := c.depth + 1 } = (.ok a, c₁.extend more) :=
        hmore more
      unfold Reader.deeper
      simp only [Cursor.extend_depth, hmore]
      rfl
  error := by
    intro c e c' hrun
    rcases hx : r { c with depth := c.depth + 1 } with ⟨x, c₁⟩
    obtain ⟨rfl, rfl⟩ : x = .error e ∧ { c₁ with depth := c₁.depth - 1 } = c' := by
      simpa [Reader.deeper, hx] using hrun
    rcases h.error hx with hends | hmore
    · exact .inl hends
    · refine .inr fun more => ?_
      have hmore : r { c.extend more with depth := c.depth + 1 } =
          (.error e, c₁.extend more) := hmore more
      unfold Reader.deeper
      simp only [Cursor.extend_depth, hmore]
      rfl

/-- Whether there is a level left is known beforehand. -/
protected theorem inside {limit : Nat} {inner : Option (Reader α)}
    {container : Reader α → Reader β} (h : ∀ r ∈ inner, Framed (container r)) :
    Framed (inside limit inner container) := by
  cases inner with
  | none => exact .fail _
  | some r => exact (h r rfl).deeper

/-- A reader with a number of levels left, which reads containers with one level less: `level`
    is what one level of it does. -/
theorem of_levels (level : Option (Reader α) → Reader α) {within : (room : Nat) → Reader α}
    (hzero : within 0 = level none)
    (hsucc : ∀ room, within (room + 1) = level (some (within room)))
    (hlevel : ∀ {inner}, (∀ r ∈ inner, Framed r) → Framed (level inner)) (room : Nat) :
    Framed (within room) := by
  induction room with
  | zero =>
    rw [hzero]
    exact hlevel fun r hr => absurd hr (by simp)
  | succ room ih =>
    rw [hsucc]
    refine hlevel fun r hr => ?_
    obtain rfl : within room = r := by simpa using hr
    exact ih

/-- The levels that are left are counted from the cursor, and bytes behind it are no level. -/
theorem of_room (limit : Nat) {within : (room : Nat) → Reader α}
    (h : ∀ room, Framed (within room)) :
    Framed fun c => within (limit - c.depth) c where
  ok {c _ _} hrun := (h (limit - c.depth)).ok hrun
  error {c _ _} hrun := (h (limit - c.depth)).error hrun

/-! ### Runs -/

protected theorem times {r : Reader α} (h : Framed r) (count : Nat) :
    Framed (times count r) := by
  induction count with
  | zero =>
    rw [times_zero]
    exact .pure []
  | succ count ih =>
    rw [times_succ]
    exact h.bind fun a => ih.map (a :: ·)

protected theorem arrayLength : Framed arrayLength := .token .array arrayForm?

protected theorem mapLength : Framed mapLength := .token .map mapForm?

protected theorem array {r : Reader α} (h : Framed r) : Framed (array r) :=
  Framed.arrayLength.bind fun count => h.times count

/-! ### Scalars, strings and bytes -/

protected theorem u8 : Framed u8 := (Framed.integer .u8).map _

protected theorem u32 : Framed u32 := (Framed.integer .u32).map _

protected theorem u64 : Framed u64 := (Framed.integer .u64).map _

protected theorem i64 : Framed i64 := (Framed.integer .i64).map _

protected theorem bool : Framed bool := .token .bool boolForm?

protected theorem float : Framed float := .token .float floatForm?

protected theorem text : Framed text := by
  refine (Framed.token .string stringForm?).bind fun length =>
    position_bind fun start => (Framed.take length).bind fun payload => ?_
  -- The payload is read already; it is a text or it is not.
  cases Utf8.decode? payload with
  | some s => exact .pure s
  | none => exact .fail _

protected theorem binary : Framed binary :=
  (Framed.token .binary binaryForm?).bind fun length => .take length

protected theorem byteList : Framed byteList := Framed.u8.array

protected theorem valueTag : Framed valueTag := by
  refine position_bind fun start => Framed.mapLength.bind fun length => ?_
  by_cases hlength : length = 1
  · rw [if_pos hlength]
    exact .text
  · rw [if_neg hlength]
    exact .fail _

/-! ### Nil or not -/

/-- The first byte tells nil from something. If there is no byte, then the reader of something
    has to say that there is none, since a nil may follow. -/
protected theorem optional {r : Reader α} (h : Framed r)
    (hempty : ∀ c : Cursor, c.rest = [] → ∃ e, (r c).1 = .error e ∧ e.EndsAt c.stop) :
    Framed (optional r) where
  ok := by
    intro c answer c' hrun
    by_cases hnil : c.rest.head? = some 0xc0
    · obtain ⟨tail, hrest⟩ : ∃ tail, c.rest = 0xc0 :: tail := List.head?_eq_some_iff.1 hnil
      rw [optional_of_nil r hrest] at hrun
      obtain ⟨rfl, rfl⟩ : none = answer ∧ c.advance 1 tail = c' := by simpa using hrun
      refine ⟨⟨[0xc0], hrest, rfl⟩, fun more => ?_⟩
      have hextended : (c.extend more).rest = 0xc0 :: (tail ++ more) := by
        rw [Cursor.extend_rest, hrest, List.cons_append]
      exact optional_of_nil r hextended
    · rw [optional_of_ne r hnil] at hrun
      -- Something was read, so there is a first byte, and it stays the first one.
      have hne : c.rest ≠ [] := by
        intro hrest
        obtain ⟨e, he, -⟩ := hempty c hrest
        rcases hx : r c with ⟨x, c₁⟩
        rw [hx] at he
        obtain rfl : x = .error e := he
        rw [Attempt.bind_of_error _ hx] at hrun
        exact absurd hrun (by simp)
      obtain ⟨hforward, hmore⟩ := (h.map some).ok hrun
      refine ⟨hforward, fun more => ?_⟩
      have hextended : (c.extend more).rest.head? ≠ some 0xc0 := by
        rwa [Cursor.extend_rest, List.head?_append_of_ne_nil _ hne]
      rw [optional_of_ne r hextended, hmore more]
  error := by
    intro c e c' hrun
    by_cases hnil : c.rest.head? = some 0xc0
    · obtain ⟨tail, hrest⟩ : ∃ tail, c.rest = 0xc0 :: tail := List.head?_eq_some_iff.1 hnil
      rw [optional_of_nil r hrest] at hrun
      exact absurd hrun (by simp)
    · rw [optional_of_ne r hnil] at hrun
      by_cases hrest : c.rest = []
      · obtain ⟨e', he', hends⟩ := hempty c hrest
        rcases hx : r c with ⟨x, c₁⟩
        rw [hx] at he'
        obtain rfl : x = .error e' := he'
        rw [Attempt.bind_of_error _ hx] at hrun
        obtain ⟨rfl, -⟩ : e' = e ∧ c₁ = c' := by simpa using hrun
        exact .inl hends
      · rcases (h.map some).error hrun with hends | hmore
        · exact .inl hends
        · refine .inr fun more => ?_
          have hextended : (c.extend more).rest.head? ≠ some 0xc0 := by
            rwa [Cursor.extend_rest, List.head?_append_of_ne_nil _ hrest]
          rw [optional_of_ne r hextended, hmore more]

end Framed

/-- Where no byte is left there is no text. -/
theorem text_of_empty {c : Cursor} (h : c.rest = []) :
    ∃ e, (text c).1 = .error e ∧ e.EndsAt c.stop := by
  have htoken : token .string stringForm? c = (.error (.unexpectedEof c.position 1 0), c) := by
    unfold token
    rw [h]
  refine ⟨.unexpectedEof c.position 1 0, ?_, ?_, Nat.one_pos⟩
  · unfold text
    rw [Attempt.bind_of_error _ htoken]
  · rw [Cursor.stop, h]
    rfl

end Reader

end ChainGuest.Wire
