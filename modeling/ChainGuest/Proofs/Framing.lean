import Mathlib
import ChainGuest.Evm.Value
import ChainGuest.Proofs.Wire.Framing
import ChainGuest.Record.Kind

/-! # Where the content of a buffer ends

    A host's buffer holds a collection of records, a value, or the values of a contract call.
    Whatever it holds, its content ends where its own bytes say, and nobody looks further:
    bytes behind it do not change the answer, and a buffer that was cut short inside it is
    told from a buffer that is wrong (`BufferKind.framing`).

    The readers of records and of values are framed because the readers that they are built
    from are. For values the induction is on the levels that are left, as their recursion is.
-/

namespace ChainGuest

open Wire

/-! ## Section 1: Records -/

theorem FieldType.read_framed (t : FieldType) : t.read.Framed := by
  cases t with
  | u64 => exact .u64
  | u32 => exact .u32
  | u8 => exact .u8
  | i64 => exact .i64
  | float => exact .float
  | text => exact .text
  | optText => exact Reader.Framed.text.optional fun _ => Reader.text_of_empty
  | binary => exact .binary
  | byteList => exact .byteList

theorem Row.read_framed (schema : Schema) : (Row.read schema).Framed := by
  induction schema with
  | nil => exact .pure ()
  | cons field schema ih =>
    exact (FieldType.read_framed field.2).bind fun value => ih.map (value, ·)

theorem Entity.readAll_framed (α : Type) [Entity α] :
    (Entity.readAll : Reader (List α)).Framed := by
  have hread : (Entity.read : Reader α).Framed := (Row.read_framed _).map Entity.ofRow
  exact (Reader.Framed.arrayLength.bind fun _ => hread).array

/-! ## Section 2: Values -/

namespace Value

theorem readStruct_framed {inner : Reader Value} (h : inner.Framed) :
    (readStruct inner).Framed := by
  have hfield : (readField inner).Framed :=
    Reader.Framed.text.bind fun name => h.map (name, ·)
  refine Reader.Framed.position_bind fun start => Reader.Framed.arrayLength.bind fun length => ?_
  by_cases hlength : length = 2
  · rw [if_neg (not_not.2 hlength)]
    exact Reader.Framed.text.bind fun typeName => Reader.Framed.mapLength.bind fun count =>
      (hfield.times count).map (Value.struct typeName)
  · rw [if_pos hlength]
    exact .fail _

theorem readLevel_framed {limit : Nat} {inner : Option (Reader Value)}
    (h : ∀ r ∈ inner, r.Framed) : (readLevel limit inner).Framed := by
  refine Reader.Framed.valueTag.bind fun tag => ?_
  cases Variant.ofTag? tag with
  | none => exact .fail _
  | some variant =>
    cases variant with
    | bool => exact Reader.Framed.bool.map Value.bool
    | u64 => exact Reader.Framed.u64.map Value.u64
    | text => exact Reader.Framed.text.map Value.text
    | list => exact (Reader.Framed.inside fun r hr => (h r hr).array).map Value.list
    | struct => exact .inside fun r hr => readStruct_framed (h r hr)

theorem readWithin_framed (limit room : Nat) : (readWithin limit room).Framed :=
  .of_levels (readLevel limit) rfl (fun _ => rfl) readLevel_framed room

theorem read_framed (limit : Nat) : (read limit).Framed :=
  .of_room limit fun room => readWithin_framed limit room

end Value

namespace Evm.Value

theorem readLevel_framed {limit : Nat} {inner : Option (Reader Value)}
    (h : ∀ r ∈ inner, r.Framed) : (readLevel limit inner).Framed := by
  have hword {α : Type} (ofHex : String → Except DecodeError α) (f : α → Value) :
      (do return f (← Attempt.ofExcept (ofHex (← Reader.text))) : Reader Value).Framed :=
    Reader.Framed.text.bind fun s => (Reader.Framed.ofExcept (ofHex s)).map f
  have hchildren : (readChildren limit inner).Framed := .inside fun r hr => (h r hr).array
  refine Reader.Framed.valueTag.bind fun tag => ?_
  cases Variant.ofTag? tag with
  | none => exact .fail _
  | some variant =>
    cases variant with
    | bool => exact Reader.Framed.bool.map Value.bool
    | uint => exact hword U256.ofHex Value.uint
    | int => exact hword I256.ofHex Value.int
    | text => exact Reader.Framed.text.map Value.text
    | address => exact Reader.Framed.text.map Value.address
    | bytes => exact Reader.Framed.byteList.map Value.bytes
    | fixedBytes => exact Reader.Framed.byteList.map Value.fixedBytes
    | array => exact hchildren.map Value.array
    | fixedArray => exact hchildren.map Value.fixedArray
    | tuple => exact hchildren.map Value.tuple

theorem readWithin_framed (limit room : Nat) : (readWithin limit room).Framed :=
  .of_levels (readLevel limit) rfl (fun _ => rfl) readLevel_framed room

theorem read_framed (limit : Nat) : (read limit).Framed :=
  .of_room limit fun room => readWithin_framed limit room

end Evm.Value

/-! ## Section 3: Buffers -/

/-- What a buffer from the host may hold. -/
inductive BufferKind where
  | collection (k : RecordKind)
  | value
  /-- The values of a contract call. -/
  | evmValues

namespace BufferKind

/-- What a buffer of this kind is decoded to. -/
abbrev Answer : BufferKind → Type
  | .collection k => List k.Carrier
  | .value => Value
  | .evmValues => List Evm.Value

/-- Decode a buffer of this kind. -/
def decode (config : Config) (bytes : List UInt8) :
    (k : BufferKind) → Except DecodeError k.Answer
  | .collection k => (decodeCollection config bytes : Except _ (List k.Carrier) × _).1
  | .value => (Value.ofBytes config bytes).1
  | .evmValues => (Evm.Value.listOfBytes config bytes).1

/-- The reader of a buffer's content. -/
def reader (limit : Nat) : (k : BufferKind) → Reader k.Answer
  | .collection _ => Entity.readAll
  | .value => Value.read limit
  | .evmValues => Reader.array (Evm.Value.read limit)

def content : BufferKind → Content
  | .collection _ => .collection
  | .value => .value
  | .evmValues => .values

theorem decode_eq (k : BufferKind) (config : Config) (bytes : List UInt8) :
    k.decode config bytes =
      (decodeBuffer config k.content (k.reader config.maxValueDepth) bytes).1 := by
  cases k <;> rfl

theorem reader_framed (k : BufferKind) (limit : Nat) : (k.reader limit).Framed := by
  cases k with
  | collection k => exact Entity.readAll_framed k.Carrier
  | value => exact Value.read_framed limit
  | evmValues => exact (Evm.Value.read_framed limit).array

/-- From the start of the buffer, `a` is read off its first `n` bytes. -/
def Consumes (k : BufferKind) (limit : Nat) (bytes : List UInt8) (a : k.Answer) (n : Nat) :
    Prop :=
  ∃ c, k.reader limit (.start bytes) = (.ok a, c) ∧ c.position = n

variable {k : BufferKind} {limit : Nat} {bytes : List UInt8}

/-- An error in the content is the answer, whether or not bytes may be left behind it. -/
theorem decode_of_error {e : DecodeError} {c : Cursor}
    (h : k.reader limit (.start bytes) = (.error e, c)) (reject : Bool) :
    k.decode ⟨limit, reject⟩ bytes = .error e := by
  rw [decode_eq, decodeBuffer_of_error h]

namespace Consumes

variable {a : k.Answer} {n : Nat}

theorem le_length (h : k.Consumes limit bytes a n) : n ≤ bytes.length := by
  obtain ⟨c, hrun, rfl⟩ := h
  have hstop : c.stop = (Cursor.start bytes).stop := ((k.reader_framed limit).ok hrun).1.stop_eq
  simp only [Cursor.stop, Cursor.start] at hstop
  omega

/-- The content is the answer, unless bytes behind it are refused. -/
theorem decode_eq (h : k.Consumes limit bytes a n) (reject : Bool) :
    k.decode ⟨limit, reject⟩ bytes =
      if reject = true ∧ n < bytes.length then .error (.trailingBytes n (bytes.length - n))
      else .ok a := by
  obtain ⟨c, hrun, rfl⟩ := h
  -- Reading has not moved the end of the bytes, so what is left is what was not consumed.
  have hstop : c.stop = (Cursor.start bytes).stop := ((k.reader_framed limit).ok hrun).1.stop_eq
  have hlength : c.rest.length = bytes.length - c.position := by
    simp only [Cursor.stop, Cursor.start] at hstop
    omega
  rw [BufferKind.decode_eq, decodeBuffer_of_ok hrun, Cursor.remaining, hlength]
  by_cases hrest : c.rest = []
  · have hposition : ¬ c.position < bytes.length := by
      rw [hrest, List.length_nil] at hlength
      omega
    simp [hrest, hposition]
  · have hposition : c.position < bytes.length := by
      have := List.length_pos_of_ne_nil hrest
      omega
    cases reject <;> simp [hrest, hposition]

/-- Bytes behind the content are not looked at. -/
theorem append (h : k.Consumes limit bytes a n) (more : List UInt8) :
    k.Consumes limit (bytes ++ more) a n := by
  obtain ⟨c, hrun, hn⟩ := h
  exact ⟨c.extend more, ((k.reader_framed limit).ok hrun).2 more, hn⟩

theorem unique {a' : k.Answer} {n' : Nat} (h : k.Consumes limit bytes a n)
    (h' : k.Consumes limit bytes a' n') : a = a' ∧ n = n' := by
  obtain ⟨c, hrun, rfl⟩ := h
  obtain ⟨c', hrun', rfl⟩ := h'
  obtain ⟨rfl, rfl⟩ : a = a' ∧ c = c' := by simpa using hrun.symm.trans hrun'
  exact ⟨rfl, rfl⟩

/-- A buffer that was cut inside its content ends too early, and the error says where. It cannot
    be read: what is read off its bytes would be read off those of the whole buffer, and would end
    there, behind the cut. -/
theorem cut (h : k.Consumes limit bytes a n) {m : Nat} (hm : m < n) :
    ∃ e c, k.reader limit (.start (bytes.take m)) = (.error e, c) ∧ e.EndsAt m := by
  have hlength : (bytes.take m).length = m := by
    have hle : n ≤ bytes.length := h.le_length
    rw [List.length_take]
    omega
  have hwhole : bytes.take m ++ bytes.drop m = bytes := List.take_append_drop m bytes
  -- The shorter buffer is read or it fails; neither may depend on the bytes that were cut off.
  rcases hrun : k.reader limit (.start (bytes.take m)) with ⟨e | a', c⟩
  · refine ⟨e, c, rfl, ?_⟩
    rcases (k.reader_framed limit).error hrun with hends | hmore
    · simpa [Cursor.stop, Cursor.start, hlength] using hends
    · -- The error would be that of the whole buffer.
      obtain ⟨c', hrun', -⟩ := h
      have herror := hmore (bytes.drop m)
      rw [Cursor.start_extend, hwhole, hrun'] at herror
      exact absurd herror (by simp)
  · -- What is read off `m` bytes is read off as many bytes of the whole buffer.
    have hcut : k.Consumes limit (bytes.take m) a' c.position := ⟨c, hrun, rfl⟩
    have hle : c.position ≤ (bytes.take m).length := hcut.le_length
    have hsame : k.Consumes limit bytes a' c.position := hwhole ▸ hcut.append (bytes.drop m)
    have hn : n = c.position := (h.unique hsame).2
    omega

end Consumes

/-- With bytes left over let pass, a buffer is decoded if its content is read. -/
theorem decode_eq_ok_iff {a : k.Answer} :
    k.decode ⟨limit, false⟩ bytes = .ok a ↔ ∃ n ≤ bytes.length, k.Consumes limit bytes a n := by
  constructor
  · intro hok
    rcases hrun : k.reader limit (.start bytes) with ⟨e | a', c⟩
    · rw [decode_of_error hrun] at hok
      exact absurd hok (by simp)
    · have hconsumes : k.Consumes limit bytes a' c.position := ⟨c, hrun, rfl⟩
      rw [hconsumes.decode_eq] at hok
      obtain rfl : a' = a := by simpa using hok
      exact ⟨c.position, hconsumes.le_length, hconsumes⟩
  · rintro ⟨n, -, hconsumes⟩
    rw [hconsumes.decode_eq]
    simp

/-- With bytes left over refused, a buffer is decoded if it is read to its end. -/
theorem decode_strict_eq_ok_iff {a : k.Answer} :
    k.decode ⟨limit, true⟩ bytes = .ok a ↔ k.Consumes limit bytes a bytes.length := by
  constructor
  · intro hok
    rcases hrun : k.reader limit (.start bytes) with ⟨e | a', c⟩
    · rw [decode_of_error hrun] at hok
      exact absurd hok (by simp)
    · have hconsumes : k.Consumes limit bytes a' c.position := ⟨c, hrun, rfl⟩
      have hle : c.position ≤ bytes.length := hconsumes.le_length
      rw [hconsumes.decode_eq] at hok
      by_cases hlt : c.position < bytes.length
      · simp [hlt] at hok
      · obtain rfl : a' = a := by simpa [hlt] using hok
        have hend : c.position = bytes.length := by omega
        exact hend ▸ hconsumes
  · intro hconsumes
    rw [hconsumes.decode_eq]
    simp

/-- An error is the answer whatever follows, unless it is that the bytes end too early. -/
theorem reader_append_of_error {e : DecodeError} {c : Cursor}
    (h : k.reader limit (.start bytes) = (.error e, c))
    (he : ∀ position needed remaining, e ≠ .unexpectedEof position needed remaining)
    (more : List UInt8) :
    k.reader limit (.start (bytes ++ more)) = (.error e, c.extend more) := by
  rcases (k.reader_framed limit).error h with hends | hmore
  · obtain ⟨position, needed, remaining, heof, -⟩ := hends.exists_eq
    exact absurd heof (he position needed remaining)
  · exact hmore more

theorem decode_append_of_error {e : DecodeError}
    (h : k.decode ⟨limit, false⟩ bytes = .error e)
    (he : ∀ position needed remaining, e ≠ .unexpectedEof position needed remaining)
    (more : List UInt8) : k.decode ⟨limit, false⟩ (bytes ++ more) = .error e := by
  -- Bytes that are let pass make no error, so it is one of the content.
  rcases hrun : k.reader limit (.start bytes) with ⟨e' | a, c⟩
  · rw [decode_of_error hrun] at h
    obtain rfl : e' = e := by simpa using h
    exact decode_of_error (reader_append_of_error hrun he more) false
  · rw [Consumes.decode_eq ⟨c, hrun, rfl⟩] at h
    exact absurd h (by simp)

/-- The law of framing. `decode ⟨limit, false⟩` lets bytes behind the content pass, and
    `decode ⟨limit, true⟩` refuses them. -/
structure Framing (k : BufferKind) (limit : Nat) : Prop where
  /-- What is decoded is read off some bytes at the front. -/
  ok_iff : ∀ bytes a, k.decode ⟨limit, false⟩ bytes = .ok a ↔
    ∃ n ≤ bytes.length, k.Consumes limit bytes a n
  /-- More bytes change no answer. -/
  ok_append : ∀ bytes more a, k.decode ⟨limit, false⟩ bytes = .ok a →
    k.decode ⟨limit, false⟩ (bytes ++ more) = .ok a
  /-- More bytes change no error, unless it is that the bytes end too early. -/
  error_append : ∀ bytes more e, k.decode ⟨limit, false⟩ bytes = .error e →
    (∀ position needed remaining, e ≠ .unexpectedEof position needed remaining) →
    k.decode ⟨limit, false⟩ (bytes ++ more) = .error e
  /-- Content that is cut short ends too early, and the error says where it ends. -/
  cut : ∀ bytes a n, k.Consumes limit bytes a n → ∀ m < n, ∃ position needed remaining,
    k.decode ⟨limit, false⟩ (bytes.take m) = .error (.unexpectedEof position needed remaining) ∧
      position + remaining = m ∧ remaining < needed
  /-- Only bytes that end too early are cured by more bytes. -/
  cured : ∀ bytes more e a, k.decode ⟨limit, false⟩ bytes = .error e →
    k.decode ⟨limit, false⟩ (bytes ++ more) = .ok a →
    ∃ position needed remaining, e = .unexpectedEof position needed remaining
  /-- No buffer that is decoded to its end begins with another. -/
  prefix_free : ∀ bytes bytes' a a', k.decode ⟨limit, true⟩ bytes = .ok a →
    k.decode ⟨limit, true⟩ bytes' = .ok a' → bytes <+: bytes' → bytes = bytes'
  /-- Refusing bytes that are left changes no error. -/
  strict_error : ∀ bytes e, k.decode ⟨limit, false⟩ bytes = .error e →
    k.decode ⟨limit, true⟩ bytes = .error e
  /-- Refusing bytes that are left changes the answers that leave some. -/
  strict_ok : ∀ bytes a n, k.Consumes limit bytes a n →
    k.decode ⟨limit, true⟩ bytes =
      if n < bytes.length then .error (.trailingBytes n (bytes.length - n)) else .ok a

/-- The content of a buffer ends where its own bytes say, whatever the kind of the buffer and
    however deep its values may nest.

    All parts come from one fact about the readers: they never look behind the bytes that they
    consume (`reader_framed`). So a buffer is its content and what is left behind it, a buffer
    that is cut inside its content ends too early, and nothing else can be cured by more bytes. -/
theorem framing (k : BufferKind) (limit : Nat) : k.Framing limit where
  ok_iff bytes a := decode_eq_ok_iff
  ok_append := by
    intro bytes more a h
    obtain ⟨n, -, hconsumes⟩ := decode_eq_ok_iff.1 h
    have happend : k.Consumes limit (bytes ++ more) a n := hconsumes.append more
    exact decode_eq_ok_iff.2 ⟨n, happend.le_length, happend⟩
  error_append := by
    intro bytes more e h he
    exact decode_append_of_error h he more
  cut := by
    intro bytes a n hconsumes m hm
    obtain ⟨e, c, hrun, hends⟩ := hconsumes.cut hm
    obtain ⟨position, needed, remaining, rfl, hm, hlt⟩ := hends.exists_eq
    exact ⟨position, needed, remaining, decode_of_error hrun false, hm, hlt⟩
  cured := by
    intro bytes more e a h hmore
    by_contra hnone
    push Not at hnone
    -- Any other error would have stayed.
    have hstays : k.decode ⟨limit, false⟩ (bytes ++ more) = .error e :=
      decode_append_of_error h hnone more
    rw [hmore] at hstays
    exact absurd hstays (by simp)
  prefix_free := by
    intro bytes bytes' a a' h h' hprefix
    obtain ⟨more, rfl⟩ := hprefix
    -- The longer buffer is read to the end of the shorter one, and to its own end.
    have hshort : k.Consumes limit (bytes ++ more) a bytes.length :=
      (decode_strict_eq_ok_iff.1 h).append more
    have hlong : k.Consumes limit (bytes ++ more) a' (bytes ++ more).length :=
      decode_strict_eq_ok_iff.1 h'
    have hlength : bytes.length = (bytes ++ more).length := (hshort.unique hlong).2
    rw [List.length_append] at hlength
    have hnil : more = [] := List.eq_nil_of_length_eq_zero (by omega)
    rw [hnil, List.append_nil]
  strict_error := by
    intro bytes e h
    rcases hrun : k.reader limit (.start bytes) with ⟨e' | a, c⟩
    · rw [decode_of_error hrun] at h ⊢
      exact h
    · rw [Consumes.decode_eq ⟨c, hrun, rfl⟩] at h
      exact absurd h (by simp)
  strict_ok := by
    intro bytes a n hconsumes
    rw [hconsumes.decode_eq]
    simp

-- A number that is cut off; one that is no boolean whatever follows; and a byte too many.
example : BufferKind.value.decode ⟨0, false⟩ [0x81, 0xa3, 0x75, 0x36, 0x34, 0xcd, 1] =
    .error (.unexpectedEof 6 2 1) := rfl

example : BufferKind.value.decode ⟨0, false⟩ [0x81, 0xa1, 0x62, 1] =
    .error (.unexpectedMarker 3 .bool 1) := rfl

example : BufferKind.value.decode ⟨0, true⟩ [0x81, 0xa1, 0x62, 0xc3, 0] =
    .error (.trailingBytes 4 1) := rfl

end BufferKind

end ChainGuest
