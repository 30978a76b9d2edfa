import Mathlib
import ChainGuest.Host.Basic

/-! # Buffers in the host's memory

    Whatever a host is given to serve, it puts behind its memory, and it names what it put
    there by a handle of two halves of a word. The memory only grows, so a handle that was
    returned once names the same bytes for ever (`Depot.Intact.give`), as long as the memory
    does not outgrow what half a word can address.

    A depot is a host together with the buffers that were ever stored in it and their handles.
    After any provisions it is intact (`Depot.intact_after`): the handles name their buffers,
    the buffers lie apart and behind the reserved piece, and under each key the host serves
    what was registered last.
-/

namespace ChainGuest

/-! ## Section 1: Words and their halves -/

namespace Handle

/-- A packed handle has the offset in its upper half and the length in its lower half. -/
theorem toNat_raw_pack (offset length : UInt32) :
    (pack offset length).raw.toNat = 2 ^ 32 * offset.toNat + length.toNat := by
  have hoffset : offset.toNat < 2 ^ 32 := offset.toNat_lt
  have hlength : length.toNat < 2 ^ 32 := length.toNat_lt
  -- The upper half is a multiple of what the lower half can hold, so no digits meet.
  have hupper : (offset.toUInt64 <<< 32).toNat = 2 ^ 32 * offset.toNat := by
    have hplaces : (32 : UInt64).toNat % 64 = 32 := rfl
    rw [UInt64.toNat_shiftLeft, hplaces, UInt32.toNat_toUInt64, Nat.shiftLeft_eq]
    omega
  show (offset.toUInt64 <<< 32 ||| length.toUInt64).toNat = _
  rw [UInt64.toNat_or, hupper, UInt32.toNat_toUInt64, Nat.two_pow_add_eq_or_of_lt hlength]

/-- The offset of a handle is its upper half. -/
theorem toNat_offset (h : Handle) : h.offset.toNat = h.raw.toNat / 2 ^ 32 := by
  have hraw : h.raw.toNat < 2 ^ 64 := h.raw.toNat_lt
  show ((h.raw >>> 32).toUInt32).toNat = _
  have hplaces : (32 : UInt64).toNat % 64 = 32 := rfl
  rw [UInt64.toNat_toUInt32, UInt64.toNat_shiftRight, hplaces, Nat.shiftRight_eq_div_pow]
  omega

/-- The length of a handle is its lower half. -/
theorem toNat_length (h : Handle) : h.length.toNat = h.raw.toNat % 2 ^ 32 := by
  have hmask : (0xffffffff : UInt64).toNat = 2 ^ 32 - 1 := rfl
  show ((h.raw &&& 0xffffffff).toUInt32).toNat = _
  rw [UInt64.toNat_toUInt32, UInt64.toNat_and, hmask, Nat.and_two_pow_sub_one_eq_mod,
    Nat.mod_mod]

@[simp] theorem offset_pack (offset length : UInt32) : (pack offset length).offset = offset := by
  apply UInt32.toNat_inj.1
  have hlength : length.toNat < 2 ^ 32 := length.toNat_lt
  rw [toNat_offset, toNat_raw_pack]
  omega

@[simp] theorem length_pack (offset length : UInt32) : (pack offset length).length = length := by
  apply UInt32.toNat_inj.1
  have hlength : length.toNat < 2 ^ 32 := length.toNat_lt
  rw [toNat_length, toNat_raw_pack]
  omega

/-- Every handle is packed from its halves. -/
theorem pack_offset_length (h : Handle) : pack h.offset h.length = h := by
  have hraw : (pack h.offset h.length).raw = h.raw := by
    apply UInt64.toNat_inj.1
    rw [toNat_raw_pack, toNat_offset, toNat_length]
    omega
  exact congrArg Handle.mk hraw

/-- The handle names a buffer that reaches over this address. -/
def Covers (h : Handle) (address : Nat) : Prop :=
  h.offset.toNat ≤ address ∧ address < h.offset.toNat + h.length.toNat

end Handle

/-! ## Section 2: Reading -/

namespace Host

/-- The bytes that stand in a stretch of the memory, one for each address. -/
structure Shows (h : Host) (offset count : Nat) (bytes : List UInt8) : Prop where
  length : bytes.length = count
  get : ∀ i < count, bytes[i]? = h.memory[offset + i]?

/-- A read within the memory, and not from the null address unless it is empty. -/
def Readable (h : Host) (offset length : UInt32) : Prop :=
  offset.toNat + length.toNat ≤ h.memory.length ∧ (0 < offset ∨ length = 0)

theorem shows_take_drop {h : Host} {offset length : Nat}
    (hend : offset + length ≤ h.memory.length) :
    h.Shows offset length ((h.memory.drop offset).take length) := by
  refine ⟨?_, fun i hi => ?_⟩
  · rw [List.length_take, List.length_drop]
    omega
  · rw [List.getElem?_take_of_lt hi, List.getElem?_drop]

/-- A stretch of the memory shows only one list of bytes. -/
theorem Shows.unique {h : Host} {offset length : Nat} {bytes bytes' : List UInt8}
    (hshows : h.Shows offset length bytes) (hshows' : h.Shows offset length bytes') :
    bytes = bytes' := by
  apply List.ext_getElem?
  intro i
  by_cases hi : i < length
  · rw [hshows.get i hi, hshows'.get i hi]
  · rw [List.getElem?_eq_none (by rw [hshows.length]; omega),
      List.getElem?_eq_none (by rw [hshows'.length]; omega)]

/-- What is readable is read: the bytes from the offset on, as many as the length says. -/
theorem readMemory_of_readable {h : Host} {offset length : UInt32}
    (hreadable : h.Readable offset length) :
    h.readMemory offset length = .ok ((h.memory.drop offset.toNat).take length.toNat) := by
  obtain ⟨hend, hstart⟩ := hreadable
  have hguard : ¬ (h.memory.length < offset.toNat + length.toNat ∨ offset = 0 ∧ 0 < length) := by
    rintro (hlong | ⟨rfl, hlength⟩)
    · omega
    · rcases hstart with hstart | rfl
      · exact absurd hstart (by decide)
      · exact absurd hlength (by decide)
  unfold readMemory memoryRange
  rw [if_neg hguard]
  have hlength : offset.toNat + length.toNat - offset.toNat = length.toNat :=
    Nat.add_sub_cancel_left _ _
  show Except.ok ((h.memory.drop offset.toNat).take (_ - _)) = _
  rw [hlength]

/-- What is not readable is refused, with the request and the size of the memory. -/
theorem readMemory_of_not_readable {h : Host} {offset length : UInt32}
    (hreadable : ¬ h.Readable offset length) :
    h.readMemory offset length = .error (.outOfBounds offset length h.memory.length) := by
  have hguard : h.memory.length < offset.toNat + length.toNat ∨ offset = 0 ∧ 0 < length := by
    -- If neither reason to refuse applies, the read is readable.
    by_contra hguard
    rw [not_or, not_and] at hguard
    refine hreadable ⟨by omega, ?_⟩
    by_cases hoffset : offset = 0
    · exact .inr (UInt32.le_zero_iff.1 (UInt32.not_lt.1 (hguard.2 hoffset)))
    · exact .inl (UInt32.pos_iff_ne_zero.2 hoffset)
  unfold readMemory memoryRange
  rw [if_pos hguard]
  rfl

/-- A read succeeds exactly when it is readable, and then shows what stands there. -/
theorem readMemory_eq_ok_iff {h : Host} {offset length : UInt32} {bytes : List UInt8} :
    h.readMemory offset length = .ok bytes ↔
      h.Readable offset length ∧ h.Shows offset.toNat length.toNat bytes := by
  constructor
  · intro hread
    by_cases hreadable : h.Readable offset length
    · rw [readMemory_of_readable hreadable] at hread
      obtain rfl := Except.ok.inj hread
      exact ⟨hreadable, shows_take_drop hreadable.1⟩
    · rw [readMemory_of_not_readable hreadable] at hread
      exact absurd hread (by simp)
  · rintro ⟨hreadable, hshows⟩
    rw [readMemory_of_readable hreadable, (shows_take_drop hreadable.1).unique hshows]

/-- The bytes that a handle names. -/
def read (handle : Handle) (h : Host) : Except HostError (List UInt8) :=
  h.readMemory handle.offset handle.length

@[simp] theorem read_null (h : Host) : h.read .null = .ok [] := by
  have hreadable : h.Readable Handle.null.offset Handle.null.length :=
    ⟨Nat.zero_le _, .inr rfl⟩
  rw [read, readMemory_of_readable hreadable]
  rfl

/-- What could be read can still be read when the memory has grown. -/
theorem read_of_grown {h h' : Host} {handle : Handle} {bytes more : List UInt8}
    (hgrown : h'.memory = h.memory ++ more) (hread : h.read handle = .ok bytes) :
    h'.read handle = .ok bytes := by
  obtain ⟨⟨hend, hstart⟩, hlength, hget⟩ := readMemory_eq_ok_iff.1 hread
  refine readMemory_eq_ok_iff.2 ⟨⟨?_, hstart⟩, hlength, fun i hi => ?_⟩
  · rw [hgrown, List.length_append]
    omega
  · rw [hget i hi, hgrown, List.getElem?_append_left (by omega)]

/-! ### What was just stored

    The last address that a handle can name is the last one below `2 ^ 32`. A memory that has
    grown up to there takes one more kind of buffer, the empty one; its offset is cut off to
    the null address, where an empty read is allowed. -/

/-- A buffer that is stored has its own length, and stands where the memory ended before; but if
    it is empty and the memory is full, its offset is the null address. -/
theorem store_places {h : Host} {bytes : List UInt8} (hreserved : reserved ≤ h.memory.length)
    (hroom : h.memory.length + bytes.length ≤ 2 ^ 32) :
    (h.store bytes).1.length.toNat = bytes.length ∧
      ((h.store bytes).1.offset.toNat = h.memory.length ∨
        bytes = [] ∧ (h.store bytes).1.offset = 0) := by
  have hpositive : 0 < h.memory.length := Nat.lt_of_lt_of_le (by decide) hreserved
  refine ⟨?_, ?_⟩
  · show (Handle.length (.pack _ _)).toNat = _
    rw [Handle.length_pack, UInt32.toNat_ofNat_of_lt' (Nat.lt_of_lt_of_le (by omega) hroom)]
  · show (Handle.offset (.pack _ _)).toNat = _ ∨ bytes = [] ∧ Handle.offset (.pack _ _) = 0
    rw [Handle.offset_pack]
    rcases Nat.lt_or_eq_of_le (Nat.le_of_add_right_le hroom) with hsmall | hfull
    · exact .inl (UInt32.toNat_ofNat_of_lt' hsmall)
    · refine .inr ⟨List.length_eq_zero_iff.1 (by omega), ?_⟩
      rw [hfull]
      rfl

/-- What was just stored can be read.

    The memory is that of any host that has grown by the buffer. Fetching it may have changed what
    that host remembers, which has no part in reads. -/
theorem read_store {h h' : Host} {bytes : List UInt8} (hgrown : h'.memory = h.memory ++ bytes)
    (hreserved : reserved ≤ h.memory.length) (hroom : h'.memory.length ≤ 2 ^ 32) :
    h'.read (h.store bytes).1 = .ok bytes := by
  have hsize : h'.memory.length = h.memory.length + bytes.length := by
    rw [hgrown, List.length_append]
  -- Either the buffer stands at the old end of the memory, or it is empty.
  obtain ⟨hlength, hoffset | ⟨rfl, hoffset⟩⟩ := store_places hreserved (hsize ▸ hroom)
  · refine readMemory_eq_ok_iff.2 ⟨⟨by omega, .inl ?_⟩, hlength.symm, fun i hi => ?_⟩
    · rw [UInt32.lt_iff_toNat_lt, hoffset]
      exact Nat.lt_of_lt_of_le (by decide) hreserved
    · rw [hoffset, hgrown, List.getElem?_append_right (Nat.le_add_right _ _),
        Nat.add_sub_cancel_left]
  · refine readMemory_eq_ok_iff.2 ⟨⟨?_, .inr (UInt32.toNat_inj.1 hlength)⟩, hlength.symm, ?_⟩
    · rw [hoffset, hlength]
      exact Nat.zero_le _
    · rw [hlength]
      exact fun i hi => absurd hi (Nat.not_lt_zero i)

/-- What was just stored lies behind what the memory was before. -/
theorem le_and_lt_of_covers_store {h : Host} {bytes : List UInt8} {address : Nat}
    (hreserved : reserved ≤ h.memory.length) (hroom : h.memory.length + bytes.length ≤ 2 ^ 32)
    (hcovers : (h.store bytes).1.Covers address) :
    h.memory.length ≤ address ∧ address < h.memory.length + bytes.length := by
  obtain ⟨hfrom, hto⟩ := hcovers
  obtain ⟨hlength, hoffset | ⟨rfl, -⟩⟩ := store_places hreserved hroom
  · omega
  · exact absurd hto (by rw [hlength, List.length_nil]; omega)

end Host

/-! ## Section 3: Provisions -/

/-- Something that a host is given. -/
inductive Provision where
  | store (bytes : List UInt8)
  | collection (kind : CollectionKind) (bytes : List UInt8)
  | argumentValue (id : UInt64) (bytes : List UInt8)
  | parsedInput (abi : String) (bytes : List UInt8)

namespace Provision

def bytes : Provision → List UInt8
  | .store bytes | .collection _ bytes | .argumentValue _ bytes | .parsedInput _ bytes => bytes

/-- What a buffer is registered under. -/
inductive Key where
  | collection (kind : CollectionKind)
  | argumentValue (id : UInt64)
  | parsedInput (abi : String)
  deriving DecidableEq

/-- The key of a provision; none if its buffer is only stored. -/
def key? : Provision → Option Key
  | .store _ => none
  | .collection kind _ => some (.collection kind)
  | .argumentValue id _ => some (.argumentValue id)
  | .parsedInput abi _ => some (.parsedInput abi)

/-- The bytes that were last registered under a key. -/
def lastUnder (key : Key) (ps : List Provision) : Option (List UInt8) :=
  (ps.filter (·.key? = some key)).getLast?.map bytes

/-- One more provision is the last under its own key, and under no other. -/
theorem lastUnder_concat (key : Key) (ps : List Provision) (p : Provision) :
    lastUnder key (ps ++ [p]) = if p.key? = some key then some p.bytes else lastUnder key ps := by
  unfold lastUnder
  rw [List.filter_append, List.filter_singleton]
  by_cases hkey : p.key? = some key <;> simp [hkey]

/-- The host when it has been given this. -/
def give : Provision → Host → Host
  | .store bytes, h => (h.store bytes).2
  | .collection kind bytes, h => h.withCollection kind bytes
  | .argumentValue id bytes, h => h.withArgumentValue id bytes
  | .parsedInput abi bytes, h => h.withParsedInput abi bytes

@[simp] theorem memory_give (p : Provision) (h : Host) :
    (p.give h).memory = h.memory ++ p.bytes := by
  cases p <;> rfl

end Provision

/-- Fetch what is registered under a key. For a parsed input, this takes some text that is to
    be parsed. -/
def Provision.Key.fetch (base64 : String) : Key → Host → Handle × Host
  | .collection kind, h => h.fetchCollection kind
  | .argumentValue id, h => h.fetchArgumentValue id
  | .parsedInput abi, h => h.parseInput abi base64

@[simp] theorem Provision.Key.memory_fetch (key : Key) (base64 : String) (h : Host) :
    (key.fetch base64 h).2.memory = h.memory := by
  cases key <;> rfl

/-- Only under the key of a provision something else is served, which is the buffer that was
    just stored. -/
theorem Provision.fetch_give (p : Provision) (h : Host) (key : Key) (base64 : String) :
    (key.fetch base64 (p.give h)).1 =
      if p.key? = some key then (h.store p.bytes).1 else (key.fetch base64 h).1 := by
  cases p <;> cases key <;>
    simp [give, key?, bytes, Key.fetch, Host.fetchCollection, Host.fetchArgumentValue,
      Host.parseInput, Host.store, Host.withCollection, Host.withHandle, Host.withArgumentValue,
      Host.withParsedInput, setAt, eq_comm]

/-! ## Section 4: Depots -/

/-- A buffer, and the handle that was returned when it was stored. -/
structure Stored where
  bytes : List UInt8
  handle : Handle

/-- A host, and all buffers that were ever stored in it. -/
structure Depot where
  host : Host
  buffers : List Stored

namespace Depot

def new : Depot := ⟨.new, []⟩

/-- The depot when its host has been given something. -/
def give (d : Depot) (p : Provision) : Depot :=
  ⟨p.give d.host, d.buffers ++ [⟨p.bytes, (d.host.store p.bytes).1⟩]⟩

theorem memory_give (d : Depot) (p : Provision) :
    (d.give p).host.memory = d.host.memory ++ p.bytes :=
  p.memory_give d.host

/-- The memory grows by what is given. -/
theorem length_give (d : Depot) (p : Provision) :
    (d.give p).host.memory.length = d.host.memory.length + p.bytes.length := by
  rw [memory_give, List.length_append]

/-- The depot after provisions of a host that was given nothing before. -/
def after (ps : List Provision) : Depot := ps.foldl give new

/-- One provision more is given to the depot after those before. -/
theorem after_concat (ps : List Provision) (p : Provision) :
    after (ps ++ [p]) = (after ps).give p := by
  simp [after]

/-- What the host answered to a fetch is right: the handle names these bytes, or no data if
    there are none. -/
def Answers (answer : Handle × Host) : Option (List UInt8) → Prop
  | some bytes => answer.2.read answer.1 = .ok bytes
  | none => answer.1 = .null

/-- No buffer of the depot is corrupt, and the host serves what it was given. -/
structure Intact (ps : List Provision) (d : Depot) : Prop where
  /-- All that the host was given is in the depot. -/
  all : d.buffers.map (·.bytes) = ps.map (·.bytes)
  /-- Nothing was put into the reserved piece. -/
  reserved : List.replicate Host.reserved 0 <+: d.host.memory
  /-- Every handle that was ever returned names its buffer. -/
  stored : ∀ b ∈ d.buffers, d.host.read b.handle = .ok b.bytes
  /-- Buffers lie within the memory, behind the reserved piece, -/
  within : ∀ b ∈ d.buffers, ∀ address, b.handle.Covers address →
    Host.reserved ≤ address ∧ address < d.host.memory.length
  /-- and no two of them share an address. -/
  apart : d.buffers.Pairwise fun b b' =>
    ∀ address, b.handle.Covers address → ¬ b'.handle.Covers address
  /-- A handle of some bytes is not the handle of no data. -/
  named : ∀ b ∈ d.buffers, b.bytes ≠ [] → b.handle ≠ .null
  /-- Under every key, what was registered last is served, and no data if nothing was. -/
  serves : ∀ key base64,
    Answers (key.fetch base64 d.host) (Provision.lastUnder key ps)
  /-- A read succeeds exactly within the memory and not from the null address unless it is
      empty, and then shows precisely the bytes there. -/
  reads : ∀ offset length bytes, d.host.readMemory offset length = .ok bytes ↔
    d.host.Readable offset length ∧ d.host.Shows offset.toNat length.toNat bytes
  refuses : ∀ offset length, ¬ d.host.Readable offset length →
    d.host.readMemory offset length = .error (.outOfBounds offset length d.host.memory.length)

namespace Intact

variable {ps : List Provision} {d : Depot}

theorem reserved_le (h : d.Intact ps) : Host.reserved ≤ d.host.memory.length := by
  have hprefix := h.reserved.length_le
  rwa [List.length_replicate] at hprefix

/-- A host that was given nothing has nothing but the reserved piece. -/
protected theorem new : Depot.new.Intact [] where
  all := rfl
  reserved := List.prefix_rfl
  stored := fun b hb => absurd hb List.not_mem_nil
  within := fun b hb => absurd hb List.not_mem_nil
  apart := .nil
  named := fun b hb => absurd hb List.not_mem_nil
  serves := fun key base64 => by cases key <;> rfl
  reads := fun offset length bytes => Host.readMemory_eq_ok_iff
  refuses := fun offset length => Host.readMemory_of_not_readable

/-! ### One more provision -/

/-- Handles that were returned before name what they named, and the new one names the new
    buffer. -/
theorem stored_give (h : d.Intact ps) {p : Provision}
    (hroom : (d.give p).host.memory.length ≤ 2 ^ 32) :
    ∀ b ∈ (d.give p).buffers, (d.give p).host.read b.handle = .ok b.bytes := by
  intro b hb
  rcases List.mem_append.1 hb with hb | hb
  · exact Host.read_of_grown (memory_give d p) (h.stored b hb)
  · obtain rfl := List.mem_singleton.1 hb
    exact Host.read_store (memory_give d p) h.reserved_le hroom

/-- The new buffer lies behind what was there before. -/
theorem le_and_lt_of_covers_new (h : d.Intact ps) {p : Provision}
    (hroom : (d.give p).host.memory.length ≤ 2 ^ 32) {address : Nat}
    (hcovers : (d.host.store p.bytes).1.Covers address) :
    d.host.memory.length ≤ address ∧ address < (d.give p).host.memory.length := by
  rw [length_give] at hroom ⊢
  exact Host.le_and_lt_of_covers_store h.reserved_le hroom hcovers

/-- Under the key of the provision the new buffer is served, and under any other what was served
    before.

    A fetch may change what the host remembers of requests, so this is about the memory that it
    leaves, which is the memory that it found. -/
theorem serves_give (h : d.Intact ps) {p : Provision}
    (hroom : (d.give p).host.memory.length ≤ 2 ^ 32) (key : Provision.Key) (base64 : String) :
    Answers (key.fetch base64 (d.give p).host) (Provision.lastUnder key (ps ++ [p])) := by
  have hfetched : (key.fetch base64 (d.give p).host).2.memory = d.host.memory ++ p.bytes := by
    rw [Provision.Key.memory_fetch, memory_give]
  have hhandle := p.fetch_give d.host key base64
  rw [Provision.lastUnder_concat]
  by_cases hkey : p.key? = some key
  · rw [if_pos hkey] at hhandle ⊢
    have hread := Host.read_store hfetched h.reserved_le
      (by rw [Provision.Key.memory_fetch]; exact hroom)
    rwa [← hhandle] at hread
  · rw [if_neg hkey] at hhandle ⊢
    have hbefore := h.serves key base64
    -- Nothing new is served here: there was no data before, or bytes that are still there.
    cases hlast : Provision.lastUnder key ps with
    | none =>
      rw [hlast] at hbefore
      exact hhandle.trans hbefore
    | some bytes =>
      rw [hlast] at hbefore
      have hread := Host.read_of_grown
        (by rw [hfetched, Provision.Key.memory_fetch]) hbefore
      rwa [← hhandle] at hread

/-- A provision adds a buffer behind all others and corrupts none of them. -/
protected theorem give (h : d.Intact ps) (p : Provision)
    (hroom : (d.give p).host.memory.length ≤ 2 ^ 32) : (d.give p).Intact (ps ++ [p]) where
  all := by simp [Depot.give, h.all]
  reserved := memory_give d p ▸ h.reserved.trans (List.prefix_append _ _)
  stored := h.stored_give hroom
  within := by
    intro b hb address hcovers
    rcases List.mem_append.1 hb with hb | hb
    · obtain ⟨hfrom, hto⟩ := h.within b hb address hcovers
      rw [length_give]
      exact ⟨hfrom, Nat.lt_add_right _ hto⟩
    · obtain rfl := List.mem_singleton.1 hb
      obtain ⟨hfrom, hto⟩ := h.le_and_lt_of_covers_new hroom hcovers
      exact ⟨h.reserved_le.trans hfrom, hto⟩
  apart := by
    refine List.pairwise_append.2 ⟨h.apart, List.pairwise_singleton _ _, ?_⟩
    intro b hb b' hb' address hcovers hcovers'
    obtain rfl := List.mem_singleton.1 hb'
    -- What was there before ends where the new buffer begins.
    have hbefore := (h.within b hb address hcovers).2
    have hafter := (h.le_and_lt_of_covers_new hroom hcovers').1
    omega
  named := by
    intro b hb hbytes hnull
    -- The null handle names no bytes.
    have hread := h.stored_give hroom b hb
    rw [hnull, Host.read_null] at hread
    exact hbytes (Except.ok.inj hread).symm
  serves := h.serves_give hroom
  reads := fun offset length bytes => Host.readMemory_eq_ok_iff
  refuses := fun offset length => Host.readMemory_of_not_readable

end Intact

/-- The memory never shrinks. -/
theorem length_after_le {before ps : List Provision} (h : before <+: ps) :
    (after before).host.memory.length ≤ (after ps).host.memory.length := by
  obtain ⟨rest, rfl⟩ := h
  -- From the back, as provisions come one after another.
  induction rest using List.reverseRecOn with
  | nil => rw [List.append_nil]
  | append_singleton rest p ih =>
    refine ih.trans ?_
    rw [← List.append_assoc, after_concat, length_give]
    exact Nat.le_add_right _ _

/-- After provisions that do not outgrow what a handle can address, the depot is intact.

    The memory only grows, so if there is room in the end, there was room before each of the
    provisions, and the step for one provision applies to all of them. -/
theorem intact_after (ps : List Provision)
    (hroom : (after ps).host.memory.length ≤ 2 ^ 32) : (after ps).Intact ps := by
  -- From the back: what comes before the last provision has room as well.
  induction ps using List.reverseRecOn with
  | nil => exact .new
  | append_singleton ps p ih =>
    have hbefore := ih ((length_after_le (List.prefix_append ps [p])).trans hroom)
    rw [after_concat] at hroom ⊢
    exact hbefore.give p hroom

/-! ## Section 5: Runs -/

/-- The host's memory keeps the buffers of a run. -/
structure KeepsBuffers (ps : List Provision) : Prop where
  /-- The depot is intact at every point of the run. -/
  intact : ∀ before, before <+: ps → (after before).Intact before
  /-- Nothing is lost between a handle and its halves. -/
  unpack_pack : ∀ offset length, (Handle.pack offset length).unpack = (offset, length)
  pack_unpack : ∀ h : Handle, Handle.pack h.unpack.1 h.unpack.2 = h

/-- **The host's memory keeps every buffer.** However a host is given buffers, to store them or to
    serve them as collections, values of arguments or parsed inputs: as long as its memory does
    not outgrow what a handle can address, no buffer is ever corrupt.

    The invariant is `Depot.Intact`, which holds at every point of the run and not just at its
    end: a handle that was returned early names its buffer from then on. -/
theorem provisions_keep_buffers (ps : List Provision)
    (hroom : (after ps).host.memory.length ≤ 2 ^ 32) : KeepsBuffers ps where
  intact := fun before hbefore => intact_after before ((length_after_le hbefore).trans hroom)
  unpack_pack := fun offset length =>
    Prod.ext (Handle.offset_pack offset length) (Handle.length_pack offset length)
  pack_unpack := Handle.pack_offset_length

/-- A collection that is registered twice, an empty value of an argument, and a buffer that is
    only stored. -/
theorem provisions_keep_buffers_sample :
    let ps : List Provision :=
      [.collection .events [0x90], .argumentValue 7 [], .collection .events [0x91, 0x01],
        .store [0xff]]
    (after ps).host.memory.length ≤ 2 ^ 32 ∧ KeepsBuffers ps :=
  ⟨by decide, provisions_keep_buffers _ (by decide)⟩

end Depot

end ChainGuest
