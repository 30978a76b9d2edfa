import Mathlib
import ChainGuest.Proofs.Evm.Grammar
import ChainGuest.Proofs.Value.Grammar

/-! # Smaller limits

    How deep values may nest is a matter of configuration, and a smaller limit only cuts:
    a buffer is decoded as it is under a larger limit, with the same value or the same
    error, or the limit itself is what is reported (`depth_limit_only_cuts`).

    The two runs are compared reader by reader. They stand at the same cursor until one of
    them has no level left, and the one with the smaller limit is the first of which that
    is true. What is decoded under a limit is known from the grammar: the values that nest
    so deep.
-/

namespace ChainGuest

open Wire

/-! ## Section 1: Readers -/

namespace Wire.Reader

/-- `r` does what `r'` does, unless it stops because `limit` levels are not enough. -/
def CutFrom {α : Type} (limit : Nat) (r r' : Reader α) : Prop :=
  ∀ c, r c = r' c ∨ ∃ c', r c = (.error (.depthLimitExceeded limit), c')

namespace CutFrom

variable {α β : Type} {limit : Nat}

protected theorem refl (r : Reader α) : CutFrom limit r r := by
  intro c
  exact .inl rfl

/-- A reader without a level left is cut from whatever would be read there. -/
theorem of_fail (r : Reader α) :
    CutFrom limit (Attempt.fail (.depthLimitExceeded limit)) r := by
  intro c
  exact .inr ⟨c, rfl⟩

protected theorem bind {r r' : Reader α} {f f' : α → Reader β} (hr : CutFrom limit r r')
    (hf : ∀ a, CutFrom limit (f a) (f' a)) : CutFrom limit (r >>= f) (r' >>= f') := by
  intro c
  -- While the first readers do the same, the second ones start at the same cursor.
  rcases hr c with hsame | ⟨c', hcut⟩
  · rcases hx : r' c with ⟨e | a, c₁⟩
    · left
      rw [Attempt.bind_of_error f (hsame.trans hx), Attempt.bind_of_error f' hx]
    · rw [Attempt.bind_of_ok f (hsame.trans hx), Attempt.bind_of_ok f' hx]
      exact hf a c₁
  · right
    exact ⟨c', Attempt.bind_of_error f hcut⟩

/-- Readers whose answers are passed through `f`. -/
protected theorem map {r r' : Reader α} (hr : CutFrom limit r r') (f : α → β) :
    CutFrom limit (r >>= fun a => pure (f a)) (r' >>= fun a => pure (f a)) := by
  apply hr.bind
  intro a
  exact .refl _

protected theorem deeper {r r' : Reader α} (hr : CutFrom limit r r') :
    CutFrom limit r.deeper r'.deeper := by
  intro c
  unfold Reader.deeper
  rcases hr { c with depth := c.depth + 1 } with hsame | ⟨c', hcut⟩
  · left
    rw [hsame]
  · right
    exact ⟨{ c' with depth := c'.depth - 1 }, by rw [hcut]⟩

protected theorem times {r r' : Reader α} (hr : CutFrom limit r r') (count : Nat) :
    CutFrom limit (times count r) (times count r') := by
  induction count with
  | zero => exact .refl _
  | succ count ih =>
    rw [times_succ, times_succ]
    apply hr.bind
    intro a
    exact ih.map (a :: ·)

protected theorem array {r r' : Reader α} (hr : CutFrom limit r r') :
    CutFrom limit (array r) (array r') := by
  apply (CutFrom.refl arrayLength).bind
  intro count
  exact hr.times count

end CutFrom

/-- What is read inside a container under two limits: nothing under the smaller one, which
    has no level left, or two readers of which the first is cut from the second. -/
inductive InnerCut {α : Type} (limit : Nat) : Option (Reader α) → Option (Reader α) → Prop where
  | spent (inner : Option (Reader α)) : InnerCut limit none inner
  | both {r r' : Reader α} (h : CutFrom limit r r') : InnerCut limit (some r) (some r')

theorem InnerCut.inside {α β : Type} {low high : Nat} {inner inner' : Option (Reader α)}
    {container : Reader α → Reader β} (h : InnerCut low inner inner')
    (hcontainer : ∀ {r r'}, CutFrom low r r' → CutFrom low (container r) (container r')) :
    CutFrom low (inside low inner container) (inside high inner' container) := by
  cases h with
  | spent inner' => exact .of_fail _
  | both hr => exact (hcontainer hr).deeper

/-- Readers with a number of levels left, each of which reads containers with one level less:
    `level` is what one level of them does. The levels that are left decide, and the limit is
    only what is reported. -/
theorem CutFrom.of_levels {α : Type} {within : (limit room : Nat) → Reader α}
    {level : (limit : Nat) → Option (Reader α) → Reader α} {low high : Nat}
    (hzero : ∀ limit, within limit 0 = level limit none)
    (hsucc : ∀ limit room, within limit (room + 1) = level limit (some (within limit room)))
    (hlevel : ∀ {inner inner'}, InnerCut low inner inner' →
      CutFrom low (level low inner) (level high inner'))
    {room room' : Nat} (hle : room ≤ room') :
    CutFrom low (within low room) (within high room') := by
  -- The induction is on the levels left under the smaller limit: a container takes one from
  -- both.
  induction room generalizing room' with
  | zero =>
    rw [hzero]
    cases room' with
    | zero =>
      rw [hzero]
      exact hlevel (.spent none)
    | succ room' =>
      rw [hsucc]
      exact hlevel (.spent _)
  | succ room ih =>
    -- A level that is left under the smaller limit is left under the larger one.
    obtain ⟨more, rfl⟩ : ∃ more, room' = more + 1 := ⟨room' - 1, by omega⟩
    have hinner : CutFrom low (within low room) (within high more) := ih (by omega)
    rw [hsucc, hsucc]
    exact hlevel (.both hinner)

/-- Readers that look first how many levels are left. A smaller limit leaves fewer. -/
theorem CutFrom.of_room {α : Type} {within : (limit room : Nat) → Reader α} {low high : Nat}
    (hle : low ≤ high)
    (h : ∀ {room room'}, room ≤ room' → CutFrom low (within low room) (within high room')) :
    CutFrom low (fun c => within low (low - c.depth) c)
      (fun c => within high (high - c.depth) c) := by
  intro c
  exact h (Nat.sub_le_sub_right hle c.depth) c

end Wire.Reader

/-! ## Section 2: Values -/

namespace Value

variable {low high : Nat}

theorem readStruct_cutFrom {r r' : Reader Value} (h : Reader.CutFrom low r r') :
    Reader.CutFrom low (readStruct r) (readStruct r') := by
  have hfield : Reader.CutFrom low (readField r) (readField r') := by
    apply (Reader.CutFrom.refl Reader.text).bind
    intro name
    exact h.map (name, ·)
  apply (Reader.CutFrom.refl Reader.position).bind
  intro start
  apply (Reader.CutFrom.refl Reader.arrayLength).bind
  intro length
  by_cases hlength : length = 2
  · rw [if_neg (not_not.2 hlength), if_neg (not_not.2 hlength)]
    apply (Reader.CutFrom.refl Reader.text).bind
    intro typeName
    apply (Reader.CutFrom.refl Reader.mapLength).bind
    intro count
    exact (hfield.times count).map (Value.struct typeName)
  · rw [if_pos hlength, if_pos hlength]
    exact .refl _

theorem readLevel_cutFrom {inner inner' : Option (Reader Value)}
    (h : Reader.InnerCut low inner inner') :
    Reader.CutFrom low (readLevel low inner) (readLevel high inner') := by
  apply (Reader.CutFrom.refl Reader.valueTag).bind
  intro tag
  cases Variant.ofTag? tag with
  | none => exact .refl _
  | some variant =>
    cases variant with
    | bool | u64 | text => exact .refl _
    | list => exact (h.inside Reader.CutFrom.array).map Value.list
    | struct => exact h.inside readStruct_cutFrom

theorem read_cutFrom (hle : low ≤ high) : Reader.CutFrom low (read low) (read high) := by
  refine .of_room hle fun hroom => ?_
  exact .of_levels (fun _ => rfl) (fun _ _ => rfl) readLevel_cutFrom hroom

end Value

namespace Evm.Value

variable {low high : Nat}

theorem readLevel_cutFrom {inner inner' : Option (Reader Value)}
    (h : Reader.InnerCut low inner inner') :
    Reader.CutFrom low (readLevel low inner) (readLevel high inner') := by
  have hchildren : Reader.CutFrom low (readChildren low inner) (readChildren high inner') :=
    h.inside Reader.CutFrom.array
  apply (Reader.CutFrom.refl Reader.valueTag).bind
  intro tag
  cases Variant.ofTag? tag with
  | none => exact .refl _
  | some variant =>
    cases variant with
    | bool | uint | int | text | address | bytes | fixedBytes => exact .refl _
    | array => exact hchildren.map Value.array
    | fixedArray => exact hchildren.map Value.fixedArray
    | tuple => exact hchildren.map Value.tuple

theorem read_cutFrom (hle : low ≤ high) : Reader.CutFrom low (read low) (read high) := by
  refine .of_room hle fun hroom => ?_
  exact .of_levels (fun _ => rfl) (fun _ _ => rfl) readLevel_cutFrom hroom

end Evm.Value

/-! ## Section 3: Buffers -/

/-- A smaller limit only cuts. Under a limit, `decode` is what becomes of a buffer, and
    `nesting` says how many levels an answer takes. -/
structure OnlyCuts {α : Type}
    (decode : (limit : Nat) → List UInt8 → Except DecodeError α × List Leftover)
    (nesting : α → Nat) : Prop where
  /-- What happens under a limit happens under a larger one too, value or error and notices
      alike; or the limit is what is wrong. -/
  same_or_cut : ∀ bytes low high, low ≤ high →
    decode low bytes = decode high bytes ∨
      (decode low bytes).1 = .error (.depthLimitExceeded low)
  /-- The answers under a limit are those under a larger one that nest so deep. -/
  ok_iff : ∀ bytes low high, low ≤ high → ∀ a,
    (decode low bytes).1 = .ok a ↔ (decode high bytes).1 = .ok a ∧ nesting a ≤ low

/-- Readers of which each is cut from those with larger limits, and which accept what nests
    so deep, decode buffers so. -/
theorem OnlyCuts.of_reader {α : Type} {r : (limit : Nat) → Reader α} {nesting : α → Nat}
    {G : Grammar α} (hcut : ∀ {low high}, low ≤ high → Reader.CutFrom low (r low) (r high))
    (haccepts : ∀ limit, (r limit).Accepts 0 fun bytes a => G bytes a ∧ nesting a ≤ limit)
    (content : Content) (reject : Bool) :
    OnlyCuts (fun limit => decodeBuffer ⟨limit, reject⟩ content (r limit)) nesting where
  same_or_cut := by
    intro bytes low high hle
    -- The two runs go alike, or the one under the smaller limit is cut.
    rcases hcut hle (.start bytes) with hsame | ⟨c, herror⟩
    · left
      unfold decodeBuffer
      simp only [Attempt.bind_apply, hsame]
    · right
      rw [decodeBuffer_of_error herror]
  ok_iff := by
    intro bytes low high hle a
    -- What is answered is known from the grammar, where the limit is a condition on the nesting.
    rw [decodeBuffer_eq_ok_iff (haccepts low), decodeBuffer_eq_ok_iff (haccepts high)]
    constructor
    · intro h
      obtain ⟨front, back, hbytes, ⟨hg, hnesting⟩, hback⟩ := h
      exact ⟨⟨front, back, hbytes, ⟨hg, hnesting.trans hle⟩, hback⟩, hnesting⟩
    · intro h
      obtain ⟨⟨front, back, hbytes, ⟨hg, -⟩, hback⟩, hnesting⟩ := h
      exact ⟨front, back, hbytes, ⟨hg, hnesting⟩, hback⟩

/-- Generic values and lists of values of contract calls: a smaller limit takes no answer but
    those that nest deeper, and changes no other and no error. Values beside one another share no
    levels, as the nesting of several values is the greatest among theirs.

    The first half of `OnlyCuts` compares two runs, so it is about errors and notices as well; the
    second says which answers go, and follows from what each reader accepts. -/
theorem depth_limit_only_cuts (reject : Bool) :
    OnlyCuts (fun limit => Value.ofBytes ⟨limit, reject⟩) Value.nesting ∧
      OnlyCuts (fun limit => Evm.Value.listOfBytes ⟨limit, reject⟩) Evm.Value.itemNesting := by
  constructor
  · exact OnlyCuts.of_reader Value.read_cutFrom Value.read_accepts .value reject
  · have hcut : ∀ {low high}, low ≤ high → Reader.CutFrom low
        (Reader.array (Evm.Value.read low)) (Reader.array (Evm.Value.read high)) := by
      intro low high hle
      exact (Evm.Value.read_cutFrom hle).array
    have haccepts : ∀ limit, (Reader.array (Evm.Value.read limit)).Accepts 0 fun bytes vs =>
        ArrayForm Evm.Value.Form bytes vs ∧ Evm.Value.itemNesting vs ≤ limit := by
      intro limit
      apply (Evm.Value.read_accepts limit).array.congr
      intro bytes vs
      rw [arrayForm_and, ← Evm.Value.itemNesting_le_iff]
      rfl
    exact OnlyCuts.of_reader hcut haccepts .values reject

end ChainGuest
