import Mathlib
import ChainGuest.Failure
import ChainGuest.Proofs.Number.HexReading
import ChainGuest.Proofs.Text.Symbols
import ChainGuest.Proofs.Wire.BigEndian

/-! # Hex text of bytes

    Hex text is read in two ways: as bytes, which takes two digits for each, and as a word of 256
    bits, which takes any one to 64 digits. The texts of bytes are a mark or none and pairs of
    digits (`Hex.DigitPairs`), and the bytes are the ones that the pairs stand for.

    Both ways go back to the halves of the bytes, which are what the digits are worth one by one.
    Weighed in base 16 the halves are the bytes weighed in base 256, so a text that is read both
    ways is read as one number (`Hex.readings_agree`).
-/

namespace ChainGuest.Hex

/-! ## Section 1: Pairs of digits -/

/-- Two digits of either case for each byte, that of its upper half first. -/
inductive DigitPairs : List Char → List UInt8 → Prop where
  | nil : DigitPairs [] []
  | cons {high low : Char} {b : UInt8} {digits : List Char} {bytes : List UInt8}
      (hhigh : IsDigit high (b.toNat / 16)) (hlow : IsDigit low (b.toNat % 16))
      (h : DigitPairs digits bytes) : DigitPairs (high :: low :: digits) (b :: bytes)

/-- The halves of bytes, the upper one of each first. -/
def halves (bytes : List UInt8) : List Nat := bytes.flatMap fun b => [b.toNat / 16, b.toNat % 16]

theorem halves_cons (b : UInt8) (bytes : List UInt8) :
    halves (b :: bytes) = b.toNat / 16 :: b.toNat % 16 :: halves bytes := rfl

/-- A half of a byte is worth less than the base. -/
theorem halves_lt (bytes : List UInt8) : ∀ n ∈ halves bytes, n < 16 := by
  intro n hn
  obtain ⟨b, -, hb⟩ := List.mem_flatMap.1 hn
  have hlt := b.toNat_lt
  simp only [List.mem_cons, List.not_mem_nil, or_false] at hb
  omega

/-- There are two halves for each byte. -/
theorem length_halves (bytes : List UInt8) : (halves bytes).length = 2 * bytes.length := by
  induction bytes with
  | nil => rfl
  | cons b bytes ih =>
    rw [halves_cons, List.length_cons, List.length_cons, ih, List.length_cons]
    omega

/-- Digits pair up to bytes if they are worth the halves of the bytes. -/
theorem digitPairs_iff {digits : List Char} {bytes : List UInt8} :
    DigitPairs digits bytes ↔ List.Forall₂ IsDigit digits (halves bytes) := by
  constructor
  · intro h
    induction h with
    | nil => exact .nil
    | cons hhigh hlow _ ih => exact .cons hhigh (.cons hlow ih)
  · intro h
    -- On the bytes, each of which takes two digits.
    induction bytes generalizing digits with
    | nil =>
      cases h
      exact .nil
    | cons b bytes ih =>
      rw [halves_cons] at h
      cases h with
      | cons hhigh h =>
        cases h with
        | cons hlow h => exact .cons hhigh hlow (ih h)

/-- Halves pair up to the bytes that they are halves of. -/
theorem pairUp_halves (bytes : List UInt8) : pairUp (halves bytes) = bytes := by
  induction bytes with
  | nil => rfl
  | cons b bytes ih =>
    have hsum : b.toNat / 16 * 16 + b.toNat % 16 = b.toNat := Nat.div_add_mod' b.toNat 16
    rw [halves_cons, pairUp, ih, hsum, UInt8.ofNat_toNat]

/-- An even number of values are the halves of the bytes that they pair up to. -/
theorem halves_pairUp : (values : List Nat) → values.length % 2 = 0 → (∀ n ∈ values, n < 16) →
    halves (pairUp values) = values
  | [], _, _ => rfl
  | [_], hlength, _ => absurd hlength (by simp)
  | high :: low :: rest, hlength, hlt => by
    obtain ⟨hhigh, hlt⟩ := List.forall_mem_cons.1 hlt
    obtain ⟨hlow, hlt⟩ := List.forall_mem_cons.1 hlt
    have hrest : rest.length % 2 = 0 := by
      rw [List.length_cons, List.length_cons] at hlength
      omega
    have hbyte : (UInt8.ofNat (high * 16 + low)).toNat = high * 16 + low := by
      apply UInt8.toNat_ofNat_of_lt'
      rw [UInt8.size]
      omega
    have hupper : (high * 16 + low) / 16 = high := by omega
    have hlower : (high * 16 + low) % 16 = low := by omega
    rw [pairUp, halves_cons, hbyte, hupper, hlower, halves_pairUp rest hrest hlt]

/-! ## Section 2: Writing -/

/-- The digits that are written of bytes are those of their halves. -/
theorem digits_eq_map (bytes : List UInt8) : digits bytes = (halves bytes).map Nat.digitChar := by
  induction bytes with
  | nil => rfl
  | cons b bytes ih =>
    rw [halves_cons, List.map_cons, List.map_cons, ← ih]
    rfl

/-- Bytes are written with a mark in front. -/
theorem encode_eq_append (bytes : List UInt8) :
    encode bytes = "0x" ++ String.ofList (digits bytes) := by
  have hmark : ('0' :: 'x' :: digits bytes) = "0x".toList ++ digits bytes := rfl
  rw [encode, hmark, String.ofList_append, String.ofList_toList]

/-- The digits of bytes pair up to the bytes. -/
theorem digitPairs_digits (bytes : List UInt8) : DigitPairs (digits bytes) bytes := by
  rw [digitPairs_iff, digits_eq_map, List.forall₂_map_left_iff, List.forall₂_same]
  intro n hn
  exact isDigit_digitChar (halves_lt bytes n hn)

/-- Whatever the case of digits, the bytes are written with the same digits in lower case. -/
theorem DigitPairs.digits_eq {cs : List Char} {bytes : List UInt8} (h : DigitPairs cs bytes) :
    digits bytes = cs.map Char.toLower := by
  have hworth := digitPairs_iff.1 h
  clear h
  rw [digits_eq_map]
  generalize halves bytes = values at hworth ⊢
  induction hworth with
  | nil => rfl
  | cons hd _ ih => rw [List.map_cons, List.map_cons, ih, (digitValue_of_isDigit hd).2]

/-! ## Section 3: Reading bytes -/

/-- A byte that is a digit is ASCII. -/
theorem toNat_lt_of_byte {b : UInt8} {n : Nat} (h : digit? (Char.ofNat b.toNat) = some n) :
    b.toNat < 128 := by
  rw [← Utf8.toNat_ofNat_byte]
  exact toNat_lt_of_digit? h

/-- The bytes of a text are worth what its characters are. -/
theorem forall₂_encode_iff {t : String} {values : List Nat} :
    List.Forall₂ (fun b n => digit? (Char.ofNat b.toNat) = some n) (Utf8.encode t) values ↔
      List.Forall₂ IsDigit t.toList values := by
  constructor
  · intro h
    have hboth : List.Forall₂
        (fun b n => b.toNat < 128 ∧ digit? (Char.ofNat b.toNat) = some n)
        (Utf8.encode t) values := h.imp fun b n hd => ⟨toNat_lt_of_byte hd, hd⟩
    have hascii := ((List.forall₂_and_left _ _).1 hboth).1
    rw [Utf8.eq_ofList_map hascii, String.toList_ofList, List.forall₂_map_left_iff]
    exact h.imp fun b n hd => digit?_eq_some_iff.1 hd
  · intro h
    have hascii : ∀ c ∈ t.toList, c.toNat < 128 := by
      intro c hc
      obtain ⟨n, hn⟩ := (digits_of_forall₂ h).1 c hc
      exact toNat_lt_of_digit? (digit?_eq_some_iff.2 hn)
    have hbytes : Utf8.encode t = t.toList.map fun c => UInt8.ofNat c.toNat := by
      rw [← Utf8.encode_ascii hascii, String.ofList_toList]
    rw [hbytes, List.forall₂_map_left_iff]
    refine h.imp fun c n hd => ?_
    have hvalue := digit?_eq_some_iff.2 hd
    have hbyte : (UInt8.ofNat c.toNat).toNat = c.toNat := by
      apply UInt8.toNat_ofNat_of_lt'
      exact (toNat_lt_of_digit? hvalue).trans (by decide)
    rw [hbyte, Char.ofNat_toNat]
    exact hvalue

/-- A byte is worth what its character is. Where it stands is for errors only. -/
theorem byteDigit_eq_ok_iff (b : UInt8) (index n : Nat) :
    byteDigit b index = .ok n ↔ digit? (Char.ofNat b.toNat) = some n := by
  unfold byteDigit
  cases digit? (Char.ofNat b.toNat) <;> simp

/-- A text is read as bytes if and only if pairs of digits for them stand behind its mark.

    The reader goes through the bytes of the text and not through its characters. What it accepts
    is ASCII, where the two are the same. -/
theorem decode_eq_ok_iff {s : String} {bytes : List UInt8} :
    decode s = .ok bytes ↔ DigitPairs (dropMark s.toList) bytes := by
  have hchars : (stripMark s).toList = dropMark s.toList := String.toList_ofList
  rw [digitPairs_iff, ← hchars]
  unfold decode
  dsimp only
  constructor
  · intro h
    split_ifs at h with hodd
    obtain ⟨values, hread, rfl⟩ := map_eq_ok_iff.1 h
    have hvalues := (mapM_zipIdx_eq_ok_iff byteDigit_eq_ok_iff 0).1 hread
    have hworth := forall₂_encode_iff.1 hvalues
    have heven : values.length % 2 = 0 := by
      rw [← hvalues.length_eq]
      omega
    rwa [halves_pairUp values heven (digits_of_forall₂ hworth).2]
  · intro h
    have hvalues := forall₂_encode_iff.2 h
    have hlength : (Utf8.encode (stripMark s)).length = 2 * bytes.length := by
      rw [hvalues.length_eq, length_halves]
    rw [if_neg (by omega), (mapM_zipIdx_eq_ok_iff byteDigit_eq_ok_iff 0).2 hvalues]
    exact congrArg Except.ok (pairUp_halves bytes)

/-- A text is parsed as bytes exactly if it is a mark and pairs of digits for them. -/
theorem parseHexBytes_eq_ok_iff {s subject : String} {bytes : List UInt8} :
    parseHexBytes s subject = .ok bytes ↔
      ∃ mark ∈ marks, ∃ digits, s = mark ++ String.ofList digits ∧ DigitPairs digits bytes := by
  have hparse : parseHexBytes s subject = .ok bytes ↔ decode s = .ok bytes := by
    unfold parseHexBytes
    cases decode s <;> simp [Except.mapError]
  rw [hparse, decode_eq_ok_iff]
  constructor
  · intro h
    obtain ⟨mark, hm, hs⟩ := exists_mark s.toList
    refine ⟨mark, hm, dropMark s.toList, ?_, h⟩
    rw [← String.toList_inj, String.toList_append, String.toList_ofList, ← hs]
  · intro h
    obtain ⟨mark, hm, digits, rfl, hpairs⟩ := h
    have hdigits := (digits_of_forall₂ (digitPairs_iff.1 hpairs)).1
    rwa [String.toList_append, String.toList_ofList, dropMark_append hm hdigits]

/-! ## Section 4: Bytes and words -/

/-- The halves of bytes weigh in base 16 what the bytes weigh in base 256. -/
theorem ofDigits_halves (bytes : List UInt8) :
    Nat.ofDigits 16 (halves bytes).reverse = Wire.bigEndian bytes := by
  -- On the bytes: the first one weighs the most, and so do its halves.
  induction bytes with
  | nil => rfl
  | cons b bytes ih =>
    have hpower : (16 : Nat) ^ (halves bytes).length = 256 ^ bytes.length := by
      rw [length_halves, Nat.pow_mul]
    rw [halves_cons, List.reverse_cons, List.reverse_cons, Nat.ofDigits_append,
      Nat.ofDigits_append, ih, Wire.bigEndian_cons]
    simp only [List.length_append, List.length_reverse, List.length_singleton,
      Nat.ofDigits_singleton, Nat.pow_succ, hpower]
    have hsum : b.toNat = b.toNat / 16 * 16 + b.toNat % 16 := (Nat.div_add_mod' b.toNat 16).symm
    calc Wire.bigEndian bytes + 256 ^ bytes.length * (b.toNat % 16) +
          256 ^ bytes.length * 16 * (b.toNat / 16)
        = (b.toNat / 16 * 16 + b.toNat % 16) * 256 ^ bytes.length + Wire.bigEndian bytes := by ring
      _ = b.toNat * 256 ^ bytes.length + Wire.bigEndian bytes := by rw [← hsum]

/-- Digits that pair up to bytes have the value of the bytes, the first byte weighing most. -/
theorem DigitPairs.hexValue_eq {digits : List Char} {bytes : List UInt8}
    (h : DigitPairs digits bytes) : hexValue digits = Wire.bigEndian bytes := by
  obtain ⟨-, hvalues⟩ := forall₂_isDigit_iff.1 (digitPairs_iff.1 h)
  rw [hexValue, hvalues, ofDigits_halves]

/-- Digits of which there is an even number pair up to bytes. -/
theorem exists_digitPairs {digits : List Char} (h : ∀ c ∈ digits, ∃ n, IsDigit c n)
    (heven : Even digits.length) : ∃ bytes, DigitPairs digits bytes := by
  have hworth : List.Forall₂ IsDigit digits (digits.map digitValue) :=
    forall₂_isDigit_iff.2 ⟨h, rfl⟩
  have hlength : (digits.map digitValue).length % 2 = 0 := by
    rw [List.length_map]
    exact Nat.even_iff.1 heven
  refine ⟨pairUp (digits.map digitValue), digitPairs_iff.2 ?_⟩
  rwa [halves_pairUp _ hlength (digits_of_forall₂ hworth).2]

/-- Bytes are read back from their hex text. Exactly the marks followed by pairs of digits are
    read as bytes, those that the pairs are, and the bytes are written as these digits in lower
    case. A text of one to 32 bytes is also read as the word that the bytes are, big-endian, and a
    text of a word is read as bytes that are this word if the number of its digits is even.

    Both readings are compared with the digits of the text and not with each other. Pairs of
    digits have the value of the bytes (`DigitPairs.hexValue_eq`), and that is the word. -/
theorem readings_agree :
    (∀ bytes subject, parseHexBytes (encode bytes) subject = .ok bytes) ∧
    (∀ s subject bytes, parseHexBytes s subject = .ok bytes ↔
      ∃ mark ∈ marks, ∃ digits, s = mark ++ String.ofList digits ∧ DigitPairs digits bytes) ∧
    (∀ digits bytes, DigitPairs digits bytes →
      encode bytes = "0x" ++ String.ofList (digits.map Char.toLower)) ∧
    (∀ s subject bytes, parseHexBytes s subject = .ok bytes →
      1 ≤ bytes.length → bytes.length ≤ 32 →
        ∃ u, U256.ofHex s = .ok u ∧ u.toNat = Wire.bigEndian bytes) ∧
    ∀ s subject u, U256.ofHex s = .ok u → Even (stripMark s).length →
      ∃ bytes, parseHexBytes s subject = .ok bytes ∧ Wire.bigEndian bytes = u.toNat := by
  refine ⟨?_, fun s subject bytes => parseHexBytes_eq_ok_iff, ?_, ?_, ?_⟩
  · intro bytes subject
    exact parseHexBytes_eq_ok_iff.2
      ⟨"0x", by decide, digits bytes, encode_eq_append bytes, digitPairs_digits bytes⟩
  · intro digits bytes hpairs
    rw [encode_eq_append, hpairs.digits_eq]
  · intro s subject bytes h hpos hfits
    obtain ⟨mark, hm, digits, rfl, hpairs⟩ := parseHexBytes_eq_ok_iff.1 h
    have hworth := digitPairs_iff.1 hpairs
    have hlength : digits.length = 2 * bytes.length := by
      rw [hworth.length_eq, length_halves]
    have hdigits : HexDigits digits :=
      ⟨by omega, by omega, (digits_of_forall₂ hworth).1⟩
    obtain ⟨hword, hlt⟩ := U256.ofHex_append hm hdigits
    refine ⟨_, hword, ?_⟩
    rw [BitVec.toNat_ofNat, Nat.mod_eq_of_lt hlt, hpairs.hexValue_eq]
  · intro s subject u h heven
    obtain ⟨mark, hm, digits, hdigits, rfl, hu⟩ := hexText_iff.1 (U256.ofHex_eq_ok_iff.1 h)
    have hstrip : stripMark (mark ++ String.ofList digits) = String.ofList digits := by
      unfold stripMark
      rw [String.toList_append, String.toList_ofList, dropMark_append hm hdigits.isDigit]
    rw [hstrip, String.length_ofList] at heven
    obtain ⟨bytes, hpairs⟩ := exists_digitPairs hdigits.isDigit heven
    refine ⟨bytes, parseHexBytes_eq_ok_iff.2 ⟨mark, hm, digits, rfl, hpairs⟩, ?_⟩
    rw [hu, hpairs.hexValue_eq]

end ChainGuest.Hex
