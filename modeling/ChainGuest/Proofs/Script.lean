import Mathlib
import ChainGuest.Proofs.Wire.Orderly
import ChainGuest.Script

/-! # What scripts may do to a cursor

    A script may name any readers, nest them to any depth, and go on after those that fail.
    Whatever it does, the cursor stays in its buffer, moves forward only, and is on the level
    where it was when the step is over; and the errors tell true offsets
    (`run_keeps_cursor`).

    One step is orderly because its reader is, by induction along the step: there is one case
    for each constructor, and the steps inside a step are those of the induction. What holds
    of one step is carried through a run by induction on the steps before it.
-/

namespace ChainGuest

open Wire

/-! ## Section 1: Records and values -/

theorem FieldType.read_orderly {low : Nat} (t : FieldType) : Reader.Orderly low t.read := by
  cases t with
  | u64 => exact (Reader.Orderly.integer .u64).map _
  | u32 => exact (Reader.Orderly.integer .u32).map _
  | u8 => exact (Reader.Orderly.integer .u8).map _
  | i64 => exact (Reader.Orderly.integer .i64).map _
  | float => exact .token .float floatForm?
  | text => exact .text
  | optText => exact .optional .text
  | binary => exact .binary
  | byteList => exact .byteList

theorem Row.read_orderly {low : Nat} (schema : Schema) :
    Reader.Orderly low (Row.read schema) := by
  -- On the fields: a row is its first field and the row of the others.
  induction schema with
  | nil => exact .pure ()
  | cons field schema ih =>
    apply (FieldType.read_orderly field.2).bind
    intro value
    exact ih.map (value, ·)

namespace Value

theorem readStruct_orderly {inner : Reader Value} (h : ∀ low, inner.Orderly low) (low : Nat) :
    (readStruct inner).Orderly low := by
  apply Reader.Orderly.position_bind
  intro start
  have hfield : (readField inner).Orderly start := by
    apply Reader.Orderly.text.bind
    intro name
    exact (h start).map (name, ·)
  apply (Reader.Orderly.token .array arrayForm?).bind
  intro length
  -- A wrong length is blamed on the header, which is where the struct was started.
  by_cases hlength : length = 2
  · rw [if_neg (not_not.2 hlength)]
    apply Reader.Orderly.text.bind
    intro typeName
    apply (Reader.Orderly.token .map mapForm?).bind
    intro count
    exact (hfield.times count).map (Value.struct typeName)
  · rw [if_pos hlength]
    apply Reader.Orderly.fail
    · simp
    · simp [DecodeError.position?, eq_comm]

theorem readLevel_orderly {limit : Nat} {inner : Option (Reader Value)}
    (h : ∀ r ∈ inner, ∀ low, r.Orderly low) (low : Nat) :
    (readLevel limit inner).Orderly low := by
  apply Reader.Orderly.valueTag.bind
  intro tag
  cases Variant.ofTag? tag with
  | none =>
    apply Reader.Orderly.fail
    · simp
    · simp [DecodeError.position?]
  | some variant =>
    cases variant with
    | bool => exact (Reader.Orderly.token .bool boolForm?).map Value.bool
    | u64 => exact ((Reader.Orderly.integer .u64).map _).map Value.u64
    | text => exact Reader.Orderly.text.map Value.text
    | list => exact (Reader.Orderly.inside fun r hr => (h r hr low).array).map Value.list
    | struct => exact .inside fun r hr => readStruct_orderly (h r hr) low

theorem readWithin_orderly (limit room low : Nat) : (readWithin limit room).Orderly low :=
  .of_levels (readLevel limit) rfl (fun _ => rfl) readLevel_orderly room low

theorem read_orderly (limit low : Nat) : (read limit).Orderly low :=
  .of_room limit fun room => readWithin_orderly limit room low

end Value

namespace Evm.Value

/-- A text that is no word is quoted, and no offset is named. -/
theorem ofHex_position? {s : String} {e : DecodeError} (h : U256.ofHex s = .error e) :
    e.position? = none := by
  unfold U256.ofHex at h
  dsimp only at h
  split at h
  · obtain rfl := by simpa using h
    rfl
  · split at h
    · exact absurd h (by simp)
    · obtain rfl := by simpa using h
      rfl

theorem readLevel_orderly {limit : Nat} {inner : Option (Reader Value)}
    (h : ∀ r ∈ inner, ∀ low, r.Orderly low) (low : Nat) :
    (readLevel limit inner).Orderly low := by
  have hword {α : Type} (ofHex : String → Except DecodeError α) (f : α → Value)
      (hposition : ∀ s e, ofHex s = .error e → e.position? = none) :
      (do return f (← Attempt.ofExcept (ofHex (← Reader.text))) : Reader Value).Orderly low := by
    apply Reader.Orderly.text.bind
    intro s
    exact (Reader.Orderly.ofExcept (hposition s)).map f
  have hsigned : ∀ s e, I256.ofHex s = .error e → e.position? = none := by
    intro s e herror
    unfold I256.ofHex at herror
    cases hs : U256.ofHex s with
    | ok u =>
      rw [hs] at herror
      exact absurd herror (by simp [Except.map])
    | error e' =>
      rw [hs] at herror
      obtain rfl : e' = e := by simpa [Except.map] using herror
      exact ofHex_position? hs
  have hchildren : (readChildren limit inner).Orderly low :=
    .inside fun r hr => (h r hr low).array
  apply Reader.Orderly.valueTag.bind
  intro tag
  cases Variant.ofTag? tag with
  | none =>
    apply Reader.Orderly.fail
    · simp
    · simp [DecodeError.position?]
  | some variant =>
    cases variant with
    | bool => exact (Reader.Orderly.token .bool boolForm?).map Value.bool
    | uint => exact hword U256.ofHex Value.uint fun _ _ => ofHex_position?
    | int => exact hword I256.ofHex Value.int hsigned
    | text => exact Reader.Orderly.text.map Value.text
    | address => exact Reader.Orderly.text.map Value.address
    | bytes => exact Reader.Orderly.byteList.map Value.bytes
    | fixedBytes => exact Reader.Orderly.byteList.map Value.fixedBytes
    | array => exact hchildren.map Value.array
    | fixedArray => exact hchildren.map Value.fixedArray
    | tuple => exact hchildren.map Value.tuple

theorem readWithin_orderly (limit room low : Nat) : (readWithin limit room).Orderly low :=
  .of_levels (readLevel limit) rfl (fun _ => rfl) readLevel_orderly room low

theorem read_orderly (limit low : Nat) : (read limit).Orderly low :=
  .of_room limit fun room => readWithin_orderly limit room low

end Evm.Value

/-! ## Section 2: One step -/

/-- A failure that is an answer blames nothing. -/
theorem Wire.Reader.Orderly.attempt {α : Type} {low : Nat} {r : Reader α}
    (h : Reader.Orderly low r) : Reader.Orderly low r.attempt where
  onward := by
    intro c
    have hr := h.onward c
    unfold Reader.attempt
    rcases hx : r c with ⟨e | a, c'⟩
    · rw [hx] at hr
      exact hr
    · rw [hx] at hr
      exact hr
  within := by
    intro c e _ herror
    unfold Reader.attempt at herror
    rcases hx : r c with ⟨e' | a, c'⟩
    · rw [hx] at herror
      exact absurd herror (by simp)
    · rw [hx] at herror
      exact absurd herror (by simp)

namespace ReadStep

variable {config : Config}

mutual

/-- Every step is orderly. -/
theorem reader_orderly (config : Config) (low : Nat) :
    (step : ReadStep) → (reader config step).Orderly low
  | .integer kind => (Reader.Orderly.integer kind).map _
  | .float => (Reader.Orderly.token .float floatForm?).map _
  | .bool => (Reader.Orderly.token .bool boolForm?).map _
  | .nil => (Reader.Orderly.token .nil nilForm?).map _
  | .tryNil => Reader.Orderly.tryNil.map _
  | .peekNil => Reader.Orderly.peekNil.map _
  | .isEmpty => Reader.Orderly.isEmpty.map _
  | .text => Reader.Orderly.text.map _
  | .binary => Reader.Orderly.binary.map _
  | .byteList => Reader.Orderly.byteList.map _
  | .arrayLength => (Reader.Orderly.token .array arrayForm?).map _
  | .mapLength => (Reader.Orderly.token .map mapForm?).map _
  | .tag => Reader.Orderly.valueTag.map _
  | .value => (Value.read_orderly config.maxValueDepth low).map _
  | .evmValue => (Evm.Value.read_orderly config.maxValueDepth low).map _
  | .record kind => ((Row.read_orderly (Entity.schema kind.Carrier)).map Entity.ofRow).map _
  | .finish => Reader.Orderly.finish.map _
  | .checkTrailing => (Reader.Orderly.checkTrailing config.rejectTrailing .value).map _
  | .optional step => (reader_orderly config low step).optional.map _
  | .array step => (reader_orderly config low step).array.map _
  | .nested steps => ((readers_orderly config low steps).nested config.maxValueDepth).map _
  | .all steps => (readers_orderly config low steps).map _
  | .attempt step => (reader_orderly config low step).attempt.map _

theorem readers_orderly (config : Config) (low : Nat) :
    (steps : List ReadStep) → (readers config steps).Orderly low
  | [] => .pure []
  | step :: steps =>
    (reader_orderly config low step).bind fun answer =>
      (readers_orderly config low steps).map (answer :: ·)

end

/-- A step that reads one token. -/
def readsToken : ReadStep → Bool
  | .integer _ | .float | .bool | .nil | .arrayLength | .mapLength => true
  | _ => false

/-- A step that only looks. -/
def looks : ReadStep → Bool
  | .peekNil | .isEmpty | .finish | .checkTrailing => true
  | _ => false

/-- A token that is not read is not begun. -/
theorem still_of_readsToken {step : ReadStep} (h : step.readsToken = true) :
    (reader config step).Still := by
  cases step with
  | integer kind => exact (Reader.Still.integer kind).map _
  | float => exact (Reader.Still.token .float floatForm?).map _
  | bool => exact (Reader.Still.token .bool boolForm?).map _
  | nil => exact (Reader.Still.token .nil nilForm?).map _
  | arrayLength => exact (Reader.Still.token .array arrayForm?).map _
  | mapLength => exact (Reader.Still.token .map mapForm?).map _
  -- The other steps read more than one token, and may have moved when they fail.
  | _ => exact absurd h (by simp [readsToken])

/-- A step that only looks leaves the cursor where it is, whatever it sees. -/
theorem position_of_looks {step : ReadStep} (h : step.looks = true) (c : Cursor) :
    (reader config step c).2.position = c.position := by
  have hfinish : (Reader.finish c).2 = c := by
    unfold Reader.finish
    split_ifs <;> rfl
  have htrailing : (Reader.checkTrailing config.rejectTrailing .value c).2.position =
      c.position := by
    unfold Reader.checkTrailing
    split_ifs
    · rfl
    · rw [hfinish]
    · rfl
  cases step with
  | peekNil => rfl
  | isEmpty => rfl
  | finish =>
    have hmap : (reader config .finish c).2 = (Reader.finish c).2 :=
      congrArg Prod.snd (Attempt.map_apply _ _ c)
    rw [hmap, hfinish]
  | checkTrailing =>
    have hmap : (reader config .checkTrailing c).2 =
        (Reader.checkTrailing config.rejectTrailing .value c).2 :=
      congrArg Prod.snd (Attempt.map_apply _ _ c)
    rw [hmap, htrailing]
  | _ => exact absurd h (by simp [looks])

/-- Where there is no nil, none is read. -/
theorem position_of_tryNil_false {c c' : Cursor}
    (h : reader config .tryNil c = (.ok (.bool false), c')) : c'.position = c.position := by
  have hmap : reader config .tryNil c = ((Reader.tryNil c).1.map .bool, (Reader.tryNil c).2) :=
    Attempt.map_apply _ _ c
  by_cases hnil : c.rest.head? = some 0xc0
  · obtain ⟨tail, hrest⟩ : ∃ tail, c.rest = 0xc0 :: tail := List.head?_eq_some_iff.1 hnil
    rw [hmap, Reader.tryNil_of_nil hrest] at h
    exact absurd h (by simp [Except.map])
  · rw [hmap, Reader.tryNil_of_ne hnil] at h
    rw [← (Prod.mk.inj h).2]

/-! ## Section 3: Runs -/

/-- Where steps leave the cursor. -/
def after (config : Config) : List ReadStep → Cursor → Cursor
  | [], c => c
  | step :: steps, c => after config steps (reader config step c).2

/-- What a step of a script, in a buffer of `length` bytes, does to the cursor: it took it
    from `c` to `c'` and gave this answer. -/
structure KeepsCursor (length : Nat) (step : ReadStep) (c : Cursor)
    (answer : Except DecodeError ReadAnswer) (c' : Cursor) : Prop where
  /-- The cursor counts what it has read, up to the end of the buffer. -/
  balance : c'.position + c'.remaining = length
  forward : c.position ≤ c'.position
  /-- Every level that was entered was left, also by failures. -/
  level : c'.depth = c.depth
  /-- A token that is not read is not begun. -/
  still_of_error : step.readsToken = true → ∀ e, answer = .error e → c'.position = c.position
  still_of_looks : step.looks = true → c'.position = c.position
  still_of_false : step = .tryNil → answer = .ok (.bool false) → c'.position = c.position
  /-- An error names no offset but those from the start of the step to the end. -/
  offset : ∀ e, answer = .error e → ∀ p, e.position? = some p → c.position ≤ p ∧ p ≤ length
  /-- Where bytes are missing, there are fewer than were needed. -/
  missing : ∀ position needed remaining,
    answer = .error (.unexpectedEof position needed remaining) →
      remaining < needed ∧ position + remaining = length

/-- From any cursor, one step keeps it in order: the step lemma from which runs are assembled. The
    buffer ends where the cursor's bytes end, whatever was read before. -/
theorem reader_keepsCursor (config : Config) (step : ReadStep) (c : Cursor) :
    KeepsCursor c.stop step c (reader config step c).1 (reader config step c).2 := by
  have horderly : (reader config step).Orderly c.position := reader_orderly config _ step
  have honward : c.Onward (reader config step c).2 := horderly.onward c
  have hwithin : ∀ e, (reader config step c).1 = .error e → e.Within c.position c.stop :=
    fun e he => horderly.within (Nat.le_refl _) he
  -- All but the three kinds of standing still is what it means to be orderly.
  refine {
    balance := honward.stop_eq
    forward := honward.position_le
    level := honward.depth
    still_of_error := ?_
    still_of_looks := fun h => position_of_looks h c
    still_of_false := ?_
    offset := fun e he => (hwithin e he).position
    missing := fun position needed remaining he =>
      (hwithin _ he).missing position needed remaining rfl }
  · intro htoken e he
    have hstill : (reader config step).Still := still_of_readsToken htoken
    exact congrArg Cursor.position (hstill c e _ (Prod.ext he rfl))
  · intro htryNil hanswer
    subst htryNil
    exact position_of_tryNil_false (Prod.ext hanswer rfl)

/-- The steps before it only decide where a step begins. -/
theorem run_append (config : Config) (earlier later : List ReadStep) (c : Cursor) :
    run config (earlier ++ later) c =
      run config earlier c ++ run config later (after config earlier c) := by
  -- Each step leaves a cursor to the rest of the script, so the cursor varies.
  induction earlier generalizing c with
  | nil => rfl
  | cons step earlier ih =>
    simp only [List.cons_append, run, after]
    rw [ih]

theorem after_onward (config : Config) (steps : List ReadStep) (c : Cursor) :
    c.Onward (after config steps c) := by
  -- Being onward is transitive, so what each step does adds up.
  induction steps generalizing c with
  | nil => exact .refl c
  | cons step steps ih =>
    have hstep : c.Onward (reader config step c).2 :=
      (reader_orderly config c.position step).onward c
    exact hstep.trans (ih (reader config step c).2)

/-- Whatever stands before and behind it in a script, and whatever came of that, a step keeps
    the cursor in order.

    The cursor may start anywhere in the buffer and on any level, with any notices given: so
    this is also what happens to each step inside another step, which starts where that one
    has come to. -/
theorem run_keeps_cursor (config : Config) (front back : List UInt8) (depth : Nat)
    (notices : List Leftover) (earlier later : List ReadStep) (step : ReadStep) :
    let start : Cursor := { position := front.length, rest := back, depth, notices }
    let c := after config earlier start
    let (answer, c') := reader config step c
    run config (earlier ++ step :: later) start =
        run config earlier start ++ (answer, c') :: run config later c' ∧
      KeepsCursor (front ++ back).length step c answer c' := by
  intro start c
  constructor
  · exact run_append config earlier (step :: later) start
  · have hstop : c.stop = (front ++ back).length := by
      rw [(after_onward config earlier start).stop_eq, List.length_append]
      rfl
    rw [← hstop]
    exact reader_keepsCursor config step c

end ReadStep

end ChainGuest
