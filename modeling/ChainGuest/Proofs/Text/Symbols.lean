import Mathlib
import ChainGuest.Text.Utf8

/-! # Texts of symbols

    Hex and base 64 read a text byte by byte, and every byte that they accept is a character of
    ASCII. Such bytes are the bytes of one text, which has a character for each of them
    (`Utf8.eq_ofList_map`), and what is read are the values of the bytes, in their order
    (`mapM_zipIdx_eq_ok_iff`).
-/

namespace ChainGuest

/-! ## Section 1: ASCII -/

namespace Utf8

/-- A text is known by its bytes. -/
theorem encode_injective {s t : String} (h : encode s = encode t) : s = t := by
  have hdecoded := congrArg decode? h
  rw [decode?_encode, decode?_encode] at hdecoded
  exact Option.some.inj hdecoded

/-- The bytes of a text are those of its characters in turn. -/
theorem encode_ofList (cs : List Char) :
    encode (String.ofList cs) = cs.flatMap String.utf8EncodeChar := by
  unfold encode
  rw [String.toByteArray_ofList]
  simp [List.utf8Encode]

/-- A character of ASCII is one byte. -/
theorem utf8EncodeChar_ascii {c : Char} (h : c.toNat < 128) :
    String.utf8EncodeChar c = [UInt8.ofNat c.toNat] := by
  apply String.utf8EncodeChar_eq_singleton
  rw [Char.utf8Size_eq_one_iff, UInt32.le_iff_toNat_le]
  exact Nat.le_of_lt_succ h

/-- The bytes of an ASCII text are its characters. -/
theorem encode_ascii {cs : List Char} (h : ∀ c ∈ cs, c.toNat < 128) :
    encode (String.ofList cs) = cs.map fun c => UInt8.ofNat c.toNat := by
  rw [encode_ofList]
  -- On the characters, each of which is one byte.
  induction cs with
  | nil => rfl
  | cons c cs ih =>
    obtain ⟨hc, hcs⟩ := List.forall_mem_cons.1 h
    rw [List.flatMap_cons, List.map_cons, utf8EncodeChar_ascii hc, ih hcs, List.singleton_append]

/-- A byte is the number of a character. -/
theorem toNat_ofNat_byte (b : UInt8) : (Char.ofNat b.toNat).toNat = b.toNat := by
  rw [Char.toNat_ofNat]
  exact if_pos (.inl (b.toNat_lt.trans (by decide)))

/-- Bytes below 128 are those of the text that has a character for each of them. -/
theorem encode_ofList_map {bytes : List UInt8} (h : ∀ b ∈ bytes, b.toNat < 128) :
    encode (String.ofList (bytes.map fun b => Char.ofNat b.toNat)) = bytes := by
  have hchars : ∀ c ∈ bytes.map fun b => Char.ofNat b.toNat, c.toNat < 128 := by
    intro c hc
    obtain ⟨b, hb, rfl⟩ := List.mem_map.1 hc
    rw [toNat_ofNat_byte]
    exact h b hb
  have hback : ∀ b ∈ bytes, UInt8.ofNat (Char.ofNat b.toNat).toNat = b := by
    intro b _
    rw [toNat_ofNat_byte, UInt8.ofNat_toNat]
  rw [encode_ascii hchars, List.map_map]
  exact (List.map_congr_left hback).trans (List.map_id bytes)

/-- A text whose bytes are below 128 has a character for each of them. -/
theorem eq_ofList_map {s : String} (h : ∀ b ∈ encode s, b.toNat < 128) :
    s = String.ofList ((encode s).map fun b => Char.ofNat b.toNat) :=
  encode_injective (encode_ofList_map h).symm

end Utf8

/-! ## Section 2: Values of bytes -/

/-- What is made of an answer is an answer if that was one. -/
theorem map_eq_ok_iff {ε α β : Type} {x : Except ε α} {f : α → β} {b : β} :
    x.map f = .ok b ↔ ∃ a, x = .ok a ∧ f a = b := by
  cases x <;> simp [Except.map]

/-- Bytes are read, each at its place, if and only if each of them has a value. -/
theorem mapM_zipIdx_eq_ok_iff {ε : Type} {read : UInt8 × Nat → Except ε Nat}
    {value? : UInt8 → Option Nat} (hread : ∀ b i n, read (b, i) = .ok n ↔ value? b = some n)
    {bytes : List UInt8} {values : List Nat} (start : Nat) :
    (bytes.zipIdx start).mapM read = .ok values ↔
      List.Forall₂ (fun b n => value? b = some n) bytes values := by
  -- On the bytes, from any place, as places only count up.
  induction bytes generalizing values start with
  | nil =>
    constructor
    · intro h
      obtain rfl : [] = values := Except.ok.inj h
      exact .nil
    · intro h
      cases h
      rfl
  | cons b bytes ih =>
    rw [List.zipIdx_cons, List.mapM_cons]
    constructor
    · intro h
      cases hb : read (b, start) with
      | error e =>
        rw [hb] at h
        exact absurd h (by simp [bind, Except.bind])
      | ok n =>
        cases hbytes : (bytes.zipIdx (start + 1)).mapM read with
        | error e =>
          rw [hb, hbytes] at h
          exact absurd h (by simp [bind, Except.bind])
        | ok more =>
          rw [hb, hbytes] at h
          obtain rfl : n :: more = values := Except.ok.inj h
          exact .cons ((hread b start n).1 hb) ((ih (start + 1)).1 hbytes)
    · intro h
      cases h with
      | @cons _ n _ more hb hbytes =>
        rw [(hread b start n).2 hb, (ih (start + 1)).2 hbytes]
        rfl

end ChainGuest
