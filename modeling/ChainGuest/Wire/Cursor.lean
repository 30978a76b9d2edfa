import ChainGuest.Attempt
import ChainGuest.Wire.Error

/-! # Cursors and readers

    A cursor stands in a buffer: the bytes before it are counted, the bytes after
    it are still to be read. It only moves forward. A reader is an attempt over a
    cursor, so a reader that fails leaves the cursor where it stopped.
-/

namespace ChainGuest.Wire

/-! ## Cursors -/

/-- What a buffer holds, for the notice about bytes left after it. -/
inductive Content where
  | collection
  | value
  | values
  deriving DecidableEq

/-- The content's name in notices. -/
def Content.name : Content → String
  | .collection => "collection"
  | .value => "value"
  | .values => "values"

/-- A notice that `remaining` bytes were left unread after a buffer's content. -/
structure Leftover where
  content : Content
  position : Nat
  remaining : Nat
  deriving DecidableEq

/-- A place in a buffer. -/
structure Cursor where
  /-- Bytes read so far. -/
  position : Nat
  /-- Bytes still to be read. -/
  rest : List UInt8
  /-- Containers of values entered and not left. -/
  depth : Nat
  /-- Notices given so far, in order. -/
  notices : List Leftover
  deriving DecidableEq

namespace Cursor

/-- The start of a buffer. -/
def start (bytes : List UInt8) : Cursor := ⟨0, bytes, 0, []⟩

/-- The number of bytes still to be read. -/
def remaining (c : Cursor) : Nat := c.rest.length

/-- Stand `count` bytes further on, before `rest`. -/
def advance (c : Cursor) (count : Nat) (rest : List UInt8) : Cursor :=
  { c with position := c.position + count, rest := rest }

end Cursor

/-- The first `count` elements and what follows them, if there are so many. -/
def splitFront? {α : Type} (count : Nat) (xs : List α) : Option (List α × List α) :=
  let front := xs.take count
  if front.length = count then some (front, xs.drop count) else none

theorem splitFront?_eq_some_iff {α : Type} {count : Nat} {xs front back : List α} :
    splitFront? count xs = some (front, back) ↔ xs = front ++ back ∧ front.length = count := by
  simp only [splitFront?, List.length_take]
  constructor
  · intro h
    split at h
    · next hlen =>
      obtain ⟨rfl, rfl⟩ := by simpa using h
      exact ⟨(List.take_append_drop count xs).symm, by rw [List.length_take, hlen]⟩
    · simp at h
  · rintro ⟨rfl, rfl⟩
    simp

theorem splitFront?_eq_none_iff {α : Type} {count : Nat} {xs : List α} :
    splitFront? count xs = none ↔ xs.length < count := by
  simp only [splitFront?, List.length_take]
  constructor
  · intro h
    split at h
    · simp at h
    · omega
  · intro h
    rw [if_neg (by omega)]

/-! ## Readers -/

/-- A reader of bytes. -/
abbrev Reader (α : Type) : Type := Attempt Cursor DecodeError α

namespace Reader

/-- The offset of the next byte. -/
def position : Reader Nat := fun c => (.ok c.position, c)

/-- Whether no byte is left. -/
def isEmpty : Reader Bool := fun c => (.ok c.rest.isEmpty, c)

/-- The next `count` bytes. -/
def take (count : Nat) : Reader (List UInt8) := fun c =>
  match splitFront? count c.rest with
  | some (front, back) => (.ok front, c.advance count back)
  | none => (.error (.unexpectedEof c.position count c.remaining), c)

/-- Fail if a byte is left. -/
def finish : Reader Unit := fun c =>
  if c.rest.isEmpty then (.ok (), c)
  else (.error (.trailingBytes c.position c.remaining), c)

/-- Bytes left after `content` are refused if `reject`, and noticed if not. -/
def checkTrailing (reject : Bool) (content : Content) : Reader Unit := fun c =>
  if c.rest.isEmpty then (.ok (), c)
  else if reject then finish c
  else (.ok (), { c with notices := c.notices ++ [⟨content, c.position, c.remaining⟩] })

/-- Run `r` one level deeper, and come back up whether it succeeds or fails. -/
def deeper {α : Type} (r : Reader α) : Reader α := fun c =>
  let (a, c') := r { c with depth := c.depth + 1 }
  (a, { c' with depth := c'.depth - 1 })

/-- Run `r` one level deeper, unless `limit` levels are entered already. -/
def nested {α : Type} (limit : Nat) (r : Reader α) : Reader α := fun c =>
  if c.depth < limit then r.deeper c else (.error (.depthLimitExceeded limit), c)

/-- Run `container` one level deeper, on the reader for what stands inside it. With
    no level left there is no such reader. -/
def inside {α β : Type} (limit : Nat) (inner : Option (Reader α))
    (container : Reader α → Reader β) : Reader β :=
  match inner with
  | some r => (container r).deeper
  | none => Attempt.fail (.depthLimitExceeded limit)

/-- Run `r` `count` times; the answers so far are in `done`, last first. -/
def timesAfter {α : Type} (r : Reader α) : Nat → List α → Reader (List α)
  | 0, done => fun c => (.ok done.reverse, c)
  | count + 1, done => fun c =>
    match r c with
    | (.ok a, c') => timesAfter r count (a :: done) c'
    | (.error e, c') => (.error e, c')

/-- Run `r` `count` times. -/
def times {α : Type} (count : Nat) (r : Reader α) : Reader (List α) := timesAfter r count []

theorem timesAfter_apply {α : Type} (r : Reader α) (count : Nat) (done : List α) (c : Cursor) :
    timesAfter r count done c =
      ((times count r c).1.map (done.reverse ++ ·), (times count r c).2) := by
  induction count generalizing done c with
  | zero => simp [times, timesAfter, Except.map]
  | succ count ih =>
    simp only [times, timesAfter]
    rcases r c with ⟨a | a, c'⟩
    · rfl
    · simp only [ih (a :: done), ih [a], Except.map]
      cases (times count r c').1 <;> simp

@[simp] theorem times_zero {α : Type} (r : Reader α) : times 0 r = pure [] := rfl

/-- Running `r` once more is running it first. -/
theorem times_succ {α : Type} (count : Nat) (r : Reader α) :
    times (count + 1) r =
      r >>= fun a => times count r >>= fun rest => pure (a :: rest) := by
  funext c
  simp only [Attempt.bind_apply, times, timesAfter]
  rcases r c with ⟨a | a, c'⟩
  · rfl
  · simp only [timesAfter_apply r count [a], times]
    rcases timesAfter r count [] c' with ⟨b | b, c''⟩ <;> simp [Except.map]

end Reader

end ChainGuest.Wire
