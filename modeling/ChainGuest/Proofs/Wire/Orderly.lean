import Mathlib
import ChainGuest.Proofs.Wire.Framing

/-! # What readers may do to a cursor

    A reader is orderly if, whatever it answers, it leaves the cursor in the same buffer, not
    before the place where it was, and on the same level; and if what it says about offsets
    in an error is true: they lie between the place where it started and the end of the
    bytes, and where bytes are missing, there are fewer than were needed.

    Every reader is orderly that is built in the ways that readers are built here, one lemma
    for each way. Unlike what a reader accepts and where it stops looking, this has to be
    known of failures above all: a reader that fails half way has moved, maybe several
    levels down.
-/

namespace ChainGuest.Wire

/-! ## Section 1: Cursors and errors -/

namespace Cursor

/-- From `c` to `c'` some bytes were read, and as many levels are entered as before. -/
structure Onward (c c' : Cursor) : Prop where
  bytes : ∃ front, c.rest = front ++ c'.rest ∧ c'.position = c.position + front.length
  depth : c'.depth = c.depth

namespace Onward

protected theorem refl (c : Cursor) : Onward c c := ⟨⟨[], rfl, rfl⟩, rfl⟩

protected theorem trans {c c' c'' : Cursor} (h : Onward c c') (h' : Onward c' c'') :
    Onward c c'' := by
  obtain ⟨⟨front, hrest, hposition⟩, hdepth⟩ := h
  obtain ⟨⟨front', hrest', hposition'⟩, hdepth'⟩ := h'
  refine ⟨⟨front ++ front', ?_, ?_⟩, hdepth'.trans hdepth⟩
  · rw [hrest, hrest', List.append_assoc]
  · rw [hposition', hposition, List.length_append, Nat.add_assoc]

theorem of_forward {c c' : Cursor} (h : c.Forward c') : Onward c c' := by
  obtain ⟨front, hrest, hc'⟩ := h
  have hposition : c'.position = (c.advance front.length c'.rest).position :=
    congrArg Cursor.position hc'
  have hdepth : c'.depth = (c.advance front.length c'.rest).depth := congrArg Cursor.depth hc'
  exact ⟨⟨front, hrest, hposition⟩, hdepth⟩

theorem position_le {c c' : Cursor} (h : Onward c c') : c.position ≤ c'.position := by
  obtain ⟨front, -, hposition⟩ := h.bytes
  omega

/-- The end of the bytes stays where it is. -/
theorem stop_eq {c c' : Cursor} (h : Onward c c') : c'.stop = c.stop := by
  obtain ⟨front, hrest, hposition⟩ := h.bytes
  have hlength : c.rest.length = front.length + c'.rest.length := by
    rw [hrest, List.length_append]
  unfold stop
  omega

end Onward

theorem position_le_stop (c : Cursor) : c.position ≤ c.stop := by
  unfold stop
  omega

end Cursor

namespace DecodeError

/-- The offset that an error names, if it names one. -/
def position? : DecodeError → Option Nat
  | .unexpectedEof position _ _ => some position
  | .unexpectedMarker position _ _ => some position
  | .integerOutOfRange position _ => some position
  | .invalidUtf8 position => some position
  | .invalidTagMap position _ => some position
  | .invalidStructArity position _ => some position
  | .trailingBytes position _ => some position
  | .invalidHex _ => none
  | .unknownValueTag _ => none
  | .depthLimitExceeded _ => none

/-- What an error says about offsets is true of the bytes from `low` to `high`. -/
structure Within (low high : Nat) (e : DecodeError) : Prop where
  position : ∀ p, e.position? = some p → low ≤ p ∧ p ≤ high
  missing : ∀ position needed remaining, e = .unexpectedEof position needed remaining →
    remaining < needed ∧ position + remaining = high

theorem Within.mono {low low' high : Nat} {e : DecodeError} (h : e.Within low high)
    (hle : low' ≤ low) : e.Within low' high where
  position := by
    intro p hp
    obtain ⟨hlow, hhigh⟩ := h.position p hp
    exact ⟨hle.trans hlow, hhigh⟩
  missing := h.missing

/-- An error that does not say that bytes are missing, and that names no offset or the one
    where the reader was started. -/
theorem within_of_start {low : Nat} {c : Cursor} {e : DecodeError} (hlow : low ≤ c.position)
    (hmissing : ∀ position needed remaining, e ≠ .unexpectedEof position needed remaining)
    (hposition : ∀ p, e.position? = some p → p = low) : e.Within low c.stop where
  position := by
    intro p hp
    have hstop : c.position ≤ c.stop := c.position_le_stop
    have hstart : p = low := hposition p hp
    omega
  missing := by
    intro position needed remaining he
    exact absurd he (hmissing position needed remaining)

/-- Bytes are missing from an offset on, behind which what remains is too short. -/
theorem within_of_missing {low high position needed remaining : Nat} (hlow : low ≤ position)
    (hhigh : position + remaining = high) (hlt : remaining < needed) :
    (unexpectedEof position needed remaining).Within low high where
  position := by
    intro p hp
    obtain rfl : position = p := by simpa [position?] using hp
    omega
  missing := by
    intro position' needed' remaining' he
    obtain ⟨rfl, rfl, rfl⟩ := by simpa using he
    exact ⟨hlt, hhigh⟩

end DecodeError

/-! ## Section 2: Orderly readers -/

namespace Reader

/-- Started at `low` or behind it, the reader moves onward whatever it answers, and its errors
    name offsets from `low` on. The bound is not the cursor that the reader starts from: a reader
    may blame a failure on the place where the reader around it was started. -/
structure Orderly {α : Type} (low : Nat) (r : Reader α) : Prop where
  onward : ∀ c : Cursor, c.Onward (r c).2
  within : ∀ {c : Cursor} {e}, low ≤ c.position → (r c).1 = .error e → e.Within low c.stop

/-- A failure leaves the cursor where it was. -/
def Still {α : Type} (r : Reader α) : Prop := ∀ c e c', r c = (.error e, c') → c' = c

variable {α β : Type} {low : Nat}

protected theorem Still.map {r : Reader α} (h : Still r) (f : α → β) :
    Still (r >>= fun a => pure (f a)) := by
  intro c e c' hrun
  rcases hx : r c with ⟨e' | a, c₁⟩
  · rw [Attempt.bind_of_error _ hx] at hrun
    obtain ⟨rfl, rfl⟩ : e' = e ∧ c₁ = c' := by simpa using hrun
    exact h c e' c₁ hx
  · rw [Attempt.bind_of_ok _ hx] at hrun
    exact absurd hrun (by simp)

/-- A token that is not read is not begun. -/
protected theorem Still.token (shape : Shape) (form? : UInt8 → Option (Form α)) :
    Still (token shape form?) := by
  intro c e c' hrun
  unfold Reader.token at hrun
  split at hrun
  · exact (Prod.mk.inj hrun).2.symm
  · split at hrun
    · exact (Prod.mk.inj hrun).2.symm
    · split at hrun
      · exact (Prod.mk.inj hrun).2.symm
      · exact absurd hrun (by simp)

protected theorem Still.integer (kind : IntKind) : Still (integer kind) := by
  intro c e c' hrun
  unfold Reader.integer at hrun
  rcases hx : token .integer integerForm? c with ⟨e' | n, c₁⟩
  · rw [hx] at hrun
    obtain ⟨rfl, rfl⟩ : e' = e ∧ c₁ = c' := by simpa using hrun
    exact Still.token .integer integerForm? c e' c₁ hx
  · simp only [hx] at hrun
    by_cases hholds : kind.Holds n
    · rw [if_pos hholds] at hrun
      exact absurd hrun (by simp)
    · rw [if_neg hholds] at hrun
      exact (Prod.mk.inj hrun).2.symm

namespace Orderly

/-- A framed reader that does not move when it fails has only its errors to be looked at. -/
theorem of_still {r : Reader α} (hframed : Framed r) (hstill : Still r)
    (hwithin : ∀ {c : Cursor} {e}, (r c).1 = .error e → e.Within c.position c.stop) :
    Orderly low r where
  onward := by
    intro c
    -- If it fails, it has not moved; if not, it is framed, so it has moved onward.
    rcases hrun : r c with ⟨e | a, c'⟩
    · rw [hstill c e c' hrun]
      exact .refl c
    · exact .of_forward (hframed.ok hrun).1
  within := by
    intro c e hlow herror
    exact (hwithin herror).mono hlow

protected theorem pure (a : α) : Orderly low (pure a) where
  onward := .refl
  within := by
    intro c e _ herror
    exact absurd herror (by simp)

/-- An error that names no offset, or the one where the reader was started. -/
theorem fail {e : DecodeError}
    (hmissing : ∀ position needed remaining, e ≠ .unexpectedEof position needed remaining)
    (hposition : ∀ p, e.position? = some p → p = low) :
    Orderly low (Attempt.fail e : Reader α) where
  onward := .refl
  within := by
    intro c e' hlow herror
    obtain rfl : e = e' := by simpa [Attempt.fail] using herror
    exact DecodeError.within_of_start hlow hmissing hposition

/-- What is decided without reading, with errors that name no offset. -/
theorem ofExcept {answer : Except DecodeError α}
    (h : ∀ e, answer = .error e → e.position? = none) :
    Orderly low (Attempt.ofExcept answer : Reader α) := by
  cases answer with
  | ok a => exact .pure a
  | error e =>
    have hnone : e.position? = none := h e rfl
    apply fail
    · intro position needed remaining he
      rw [he] at hnone
      exact absurd hnone (by simp [DecodeError.position?])
    · intro p hp
      rw [hnone] at hp
      exact absurd hp (by simp)

protected theorem bind {r : Reader α} {f : α → Reader β} (hr : Orderly low r)
    (hf : ∀ a, Orderly low (f a)) : Orderly low (r >>= f) where
  onward := by
    intro c
    -- Whether the second reader runs or not, the first has moved onward.
    have hfirst := hr.onward c
    rcases hx : r c with ⟨e | a, c₁⟩
    · rw [hx] at hfirst
      rw [Attempt.bind_of_error f hx]
      exact hfirst
    · rw [hx] at hfirst
      rw [Attempt.bind_of_ok f hx]
      exact hfirst.trans ((hf a).onward c₁)
  within := by
    intro c e hlow herror
    have hfirst := hr.onward c
    rcases hx : r c with ⟨e' | a, c₁⟩
    · rw [Attempt.bind_of_error f hx] at herror
      obtain rfl : e' = e := by simpa using herror
      exact hr.within hlow (by rw [hx])
    · rw [hx] at hfirst
      rw [Attempt.bind_of_ok f hx] at herror
      -- The second reader starts behind the first, before the same end.
      have hlow₁ : low ≤ c₁.position := hlow.trans hfirst.position_le
      have hsecond : e.Within low c₁.stop := (hf a).within hlow₁ herror
      rwa [hfirst.stop_eq] at hsecond

/-- A reader whose answer is passed through `f`. -/
protected theorem map {r : Reader α} (hr : Orderly low r) (f : α → β) :
    Orderly low (r >>= fun a => pure (f a)) := by
  apply hr.bind
  intro a
  exact .pure (f a)

/-- A reader that looks where it stands may blame what follows on that place. -/
theorem position_bind {f : Nat → Reader α} (h : ∀ n, Orderly n (f n)) :
    Orderly low (position >>= f) where
  onward := by
    intro c
    exact (h c.position).onward c
  within := by
    intro c e hlow herror
    have hfrom : e.Within c.position c.stop := (h c.position).within (Nat.le_refl _) herror
    exact hfrom.mono hlow

protected theorem take (count : Nat) : Orderly low (take count) where
  onward := by
    intro c
    unfold Reader.take
    split
    · next front back hsplit =>
      obtain ⟨hrest, hlength⟩ := splitFront?_eq_some_iff.1 hsplit
      exact ⟨⟨front, hrest, by rw [hlength]; rfl⟩, rfl⟩
    · exact .refl c
  within := by
    intro c e hlow herror
    unfold Reader.take at herror
    split at herror
    · exact absurd herror (by simp)
    · next hsplit =>
      obtain rfl := by simpa using herror
      have hlength : c.rest.length < count := splitFront?_eq_none_iff.1 hsplit
      exact DecodeError.within_of_missing hlow rfl hlength

protected theorem token (shape : Shape) (form? : UInt8 → Option (Form α)) :
    Orderly low (token shape form?) := by
  apply of_still (.token shape form?) (Still.token shape form?)
  intro c e herror
  unfold Reader.token at herror
  -- The three ways to fail: no byte is left, or no row fits the marker, or the payload is short.
  split at herror
  · next hrest =>
    obtain rfl := by simpa using herror
    have hstop : c.position + 0 = c.stop := by
      rw [Cursor.stop, hrest, List.length_nil]
    exact DecodeError.within_of_missing (Nat.le_refl _) hstop Nat.one_pos
  · next marker tail hrest =>
    have hstop : c.stop = c.position + 1 + tail.length := by
      rw [Cursor.stop, hrest, List.length_cons]
      omega
    split at herror
    · obtain rfl := by simpa using herror
      apply DecodeError.within_of_start (Nat.le_refl _)
      · simp
      · simp [DecodeError.position?, eq_comm]
    · next form _ =>
      split at herror
      · next hsplit =>
        obtain rfl := by simpa using herror
        have hlength : tail.length < form.width := splitFront?_eq_none_iff.1 hsplit
        exact DecodeError.within_of_missing (by omega) hstop.symm hlength
      · exact absurd herror (by simp)

/-- An integer out of range is blamed on its marker. -/
protected theorem integer (kind : IntKind) : Orderly low (integer kind) := by
  apply of_still (.integer kind) (Still.integer kind)
  intro c e herror
  unfold Reader.integer at herror
  rcases hx : token .integer integerForm? c with ⟨e' | n, c₁⟩
  · simp only [hx] at herror
    obtain rfl : e' = e := by simpa using herror
    exact (Orderly.token .integer integerForm?).within (Nat.le_refl _) (by rw [hx])
  · simp only [hx] at herror
    by_cases hholds : kind.Holds n
    · rw [if_pos hholds] at herror
      exact absurd herror (by simp)
    · rw [if_neg hholds] at herror
      obtain rfl := by simpa using herror
      apply DecodeError.within_of_start (Nat.le_refl _)
      · simp
      · simp [DecodeError.position?, eq_comm]

/-! ### Levels -/

/-- The level that was entered is left whether or not what was read there failed. -/
protected theorem deeper {r : Reader α} (h : Orderly low r) : Orderly low r.deeper where
  onward := by
    intro c
    obtain ⟨hbytes, hdepth⟩ := h.onward { c with depth := c.depth + 1 }
    -- The level that is taken off at the end is the one that was put on.
    have hlevel : (r { c with depth := c.depth + 1 }).2.depth - 1 = c.depth := by
      rw [hdepth]
      rfl
    exact ⟨hbytes, hlevel⟩
  within := by
    intro c e hlow herror
    exact h.within (c := { c with depth := c.depth + 1 }) hlow herror

/-- Without a level left nothing is read. -/
theorem depthLimit (limit : Nat) :
    Orderly low (Attempt.fail (.depthLimitExceeded limit) : Reader α) := by
  apply fail
  · simp
  · simp [DecodeError.position?]

protected theorem nested {r : Reader α} (limit : Nat) (h : Orderly low r) :
    Orderly low (nested limit r) where
  onward := by
    intro c
    unfold Reader.nested
    by_cases hroom : c.depth < limit
    · rw [if_pos hroom]
      exact h.deeper.onward c
    · rw [if_neg hroom]
      exact .refl c
  within := by
    intro c e hlow herror
    unfold Reader.nested at herror
    by_cases hroom : c.depth < limit
    · rw [if_pos hroom] at herror
      exact h.deeper.within hlow herror
    · rw [if_neg hroom] at herror
      exact (depthLimit (α := α) limit).within hlow herror

protected theorem inside {limit : Nat} {inner : Option (Reader α)}
    {container : Reader α → Reader β} (h : ∀ r ∈ inner, Orderly low (container r)) :
    Orderly low (inside limit inner container) := by
  cases inner with
  | none => exact depthLimit limit
  | some r => exact (h r rfl).deeper

/-- A reader with a number of levels left, which reads containers with one level less: `level` is
    what one level of it does. What is to be shown is shown of one level, given that it holds of
    what stands inside. -/
theorem of_levels (level : Option (Reader α) → Reader α) {within : (room : Nat) → Reader α}
    (hzero : within 0 = level none)
    (hsucc : ∀ room, within (room + 1) = level (some (within room)))
    (hlevel : ∀ {inner}, (∀ r ∈ inner, ∀ low, Orderly low r) → ∀ low, Orderly low (level inner))
    (room low : Nat) : Orderly low (within room) := by
  -- On the levels that are left; what is inside may start anywhere, so its bound varies.
  induction room generalizing low with
  | zero =>
    rw [hzero]
    apply hlevel
    simp
  | succ room ih =>
    rw [hsucc]
    apply hlevel
    intro r hr
    obtain rfl : within room = r := by simpa using hr
    exact ih

/-- A reader that looks first how many levels are left. -/
theorem of_room (limit : Nat) {within : (room : Nat) → Reader α}
    (h : ∀ room, Orderly low (within room)) :
    Orderly low (fun c => within (limit - c.depth) c) where
  onward := by
    intro c
    exact (h (limit - c.depth)).onward c
  within := by
    intro c e hlow herror
    exact (h (limit - c.depth)).within hlow herror

/-! ### Runs -/

protected theorem times {r : Reader α} (h : Orderly low r) (count : Nat) :
    Orderly low (times count r) := by
  induction count with
  | zero =>
    rw [times_zero]
    exact .pure []
  | succ count ih =>
    rw [times_succ]
    apply h.bind
    intro a
    exact ih.map (a :: ·)

protected theorem array {r : Reader α} (h : Orderly low r) : Orderly low (array r) := by
  apply (Orderly.token .array arrayForm?).bind
  intro count
  exact h.times count

/-! ### Strings, bytes and tags -/

/-- A payload that is no text is blamed on its first byte. -/
protected theorem text : Orderly low text := by
  apply (Orderly.token .string stringForm?).bind
  intro length
  apply position_bind
  intro start
  apply (Orderly.take length).bind
  intro payload
  cases Utf8.decode? payload with
  | some s => exact .pure s
  | none =>
    apply fail
    · simp
    · simp [DecodeError.position?, eq_comm]

protected theorem binary : Orderly low binary := by
  apply (Orderly.token .binary binaryForm?).bind
  intro length
  exact .take length

protected theorem byteList : Orderly low byteList := ((Orderly.integer .u8).map _).array

/-- A map that is no tag is blamed on its header. -/
protected theorem valueTag : Orderly low valueTag := by
  apply position_bind
  intro start
  apply (Orderly.token .map mapForm?).bind
  intro length
  by_cases hlength : length = 1
  · rw [if_pos hlength]
    exact .text
  · rw [if_neg hlength]
    apply fail
    · simp
    · simp [DecodeError.position?, eq_comm]

/-! ### Nil or not -/

protected theorem peekNil : Orderly low peekNil where
  onward := .refl
  within := by
    intro c e _ herror
    exact absurd herror (by simp [Reader.peekNil])

protected theorem isEmpty : Orderly low isEmpty where
  onward := .refl
  within := by
    intro c e _ herror
    exact absurd herror (by simp [Reader.isEmpty])

protected theorem tryNil : Orderly low tryNil := by
  apply Orderly.peekNil.bind
  intro isNil
  cases isNil with
  | false => exact .pure false
  | true => exact (Orderly.token .nil nilForm?).map fun _ => true

protected theorem optional {r : Reader α} (h : Orderly low r) : Orderly low (optional r) := by
  apply Orderly.tryNil.bind
  intro isNil
  cases isNil with
  | false => exact h.map some
  | true => exact .pure none

/-! ### The end of a buffer -/

protected theorem finish : Orderly low finish where
  onward := by
    intro c
    unfold Reader.finish
    split_ifs <;> exact .refl c
  within := by
    intro c e hlow herror
    unfold Reader.finish at herror
    split_ifs at herror
    obtain rfl := by simpa using herror
    have hhere : (DecodeError.trailingBytes c.position c.remaining).Within c.position c.stop := by
      apply DecodeError.within_of_start (Nat.le_refl _)
      · simp
      · simp [DecodeError.position?, eq_comm]
    exact hhere.mono hlow

/-- A notice is no movement. -/
protected theorem checkTrailing (reject : Bool) (content : Content) :
    Orderly low (checkTrailing reject content) where
  onward := by
    intro c
    have hfinish : Orderly c.position finish := .finish
    unfold Reader.checkTrailing
    split_ifs
    · exact .refl c
    · exact hfinish.onward c
    · exact ⟨⟨[], rfl, rfl⟩, rfl⟩
  within := by
    intro c e hlow herror
    unfold Reader.checkTrailing at herror
    split_ifs at herror
    exact Orderly.finish.within hlow herror

end Orderly

end Reader

end ChainGuest.Wire
