import Mathlib
import ChainGuest.Proofs.Wire.BigEndian
import ChainGuest.Text.Base64

/-! # Base 64 as one number

    The bytes of a payload are one big-endian number, moved up by two bits for each pad, and the
    symbols of its text are the digits of this number in base 64 (`Base64.Regrouped`). Bytes and
    the number of pads determine the digits, and digits and pads the bytes, because both are as
    many as the groups require. Groups may be dealt out one after another
    (`Base64.Regrouped.append`), which is how texts are written (`Base64.exists_symbols`).
-/

namespace ChainGuest.Base64

/-! ## Section 1: Symbols -/

/-- The symbols, in the order of their values. -/
def alphabet : List Char :=
  "ABCDEFGHIJKLMNOPQRSTUVWXYZabcdefghijklmnopqrstuvwxyz0123456789+/".toList

/-- The character stands at this place in the alphabet. -/
def IsSymbol (c : Char) (n : Nat) : Prop := alphabet[n]? = some c

/-- There are 64 symbols. -/
theorem IsSymbol.lt {c : Char} {n : Nat} (h : IsSymbol c n) : n < 64 :=
  (List.getElem?_eq_some_iff.1 h).1

/-- What is written for a value is the character at its place. -/
theorem isSymbol_symbol {n : Nat} (h : n < 64) : IsSymbol (Char.ofNat (symbol n).toNat) n := by
  have htable : ∀ n < 64, alphabet[n]? = some (Char.ofNat (symbol n).toNat) := by decide
  exact htable n h

/-- The reader takes for a symbol what is written for some value, and gives it this value. -/
theorem symbolValue?_eq_some_iff {b : UInt8} {n : Nat} :
    symbolValue? b = some n ↔ n < 64 ∧ b = symbol n := by
  constructor
  · intro h
    have htable : ∀ m < 256, ∀ n ∈ symbolValue? (UInt8.ofNat m),
        n < 64 ∧ UInt8.ofNat m = symbol n := by decide +kernel
    have hb := htable b.toNat b.toNat_lt n
    rw [UInt8.ofNat_toNat] at hb
    exact hb h
  · intro h
    obtain ⟨hn, hb⟩ := h
    have htable : ∀ n < 64, symbolValue? (symbol n) = some n := by decide
    rw [hb]
    exact htable n hn

/-- Symbols are ASCII, and none of them is the pad. -/
theorem symbol_ascii {n : Nat} (h : n < 64) : (symbol n).toNat < 128 ∧ symbol n ≠ pad := by
  have htable : ∀ n < 64, (symbol n).toNat < 128 ∧ symbol n ≠ pad := by decide
  exact htable n h

/-! ## Section 2: Regrouping -/

/-- The bits of bytes, dealt out to values of six bits. The pads fill up the groups on both
    sides: groups of four values, and groups of three bytes. -/
structure Regrouped (bytes : List UInt8) (values : List Nat) (pads : Nat) : Prop where
  fits : ∀ n ∈ values, n < 64
  few : pads ≤ 2
  groups : ∃ groups, values.length + pads = 4 * groups ∧ bytes.length + pads = 3 * groups
  value : Nat.ofDigits 64 values.reverse = Wire.bigEndian bytes * 4 ^ pads

/-- Bytes determine their pads and values. -/
theorem Regrouped.values_unique {bytes : List UInt8} {values values' : List Nat}
    {pads pads' : Nat} (h : Regrouped bytes values pads) (h' : Regrouped bytes values' pads') :
    values = values' ∧ pads = pads' := by
  obtain ⟨groups, hvalues, hbytes⟩ := h.groups
  obtain ⟨groups', hvalues', hbytes'⟩ := h'.groups
  have hfew := h.few
  have hfew' := h'.few
  obtain rfl : pads = pads' := by omega
  refine ⟨?_, rfl⟩
  -- Numbers of equal length and weight have the same digits.
  have hdigits : values.reverse = values'.reverse := by
    apply Nat.ofDigits_inj_of_len_eq (b := 64) (by decide)
    · rw [List.length_reverse, List.length_reverse]
      omega
    · intro n hn
      exact h.fits n (List.mem_reverse.1 hn)
    · intro n hn
      exact h'.fits n (List.mem_reverse.1 hn)
    · rw [h.value, h'.value]
  exact List.reverse_injective hdigits

/-- Values and pads determine their bytes. -/
theorem Regrouped.bytes_unique {bytes bytes' : List UInt8} {values : List Nat} {pads : Nat}
    (h : Regrouped bytes values pads) (h' : Regrouped bytes' values pads) : bytes = bytes' := by
  obtain ⟨groups, hvalues, hbytes⟩ := h.groups
  obtain ⟨groups', hvalues', hbytes'⟩ := h'.groups
  apply Wire.bigEndian_inj (by omega)
  have heq : Wire.bigEndian bytes * 4 ^ pads = Wire.bigEndian bytes' * 4 ^ pads := by
    rw [← h.value, ← h'.value]
  exact Nat.eq_of_mul_eq_mul_right (by positivity) heq

/-- As many bits weigh as much, however they are grouped. -/
theorem pow_eq_of_bits {m n pads : Nat} (h : 6 * m = 8 * n + 2 * pads) :
    64 ^ m = 256 ^ n * 4 ^ pads := by
  have hbase : (256 : Nat) = 2 ^ 8 ∧ (4 : Nat) = 2 ^ 2 ∧ (64 : Nat) = 2 ^ 6 := by decide
  rw [hbase.1, hbase.2.1, hbase.2.2, ← Nat.pow_mul, ← Nat.pow_mul, ← Nat.pow_mul, ← Nat.pow_add, h]

/-- Groups without pads may stand before others. -/
theorem Regrouped.append {xs ys : List UInt8} {vs ws : List Nat} {pads : Nat}
    (hx : Regrouped xs vs 0) (hy : Regrouped ys ws pads) :
    Regrouped (xs ++ ys) (vs ++ ws) pads := by
  obtain ⟨m, hvs, hxs⟩ := hx.groups
  obtain ⟨n, hws, hys⟩ := hy.groups
  refine ⟨?_, hy.few, ⟨m + n, ?_, ?_⟩, ?_⟩
  · intro k hk
    rcases List.mem_append.1 hk with hk | hk
    · exact hx.fits k hk
    · exact hy.fits k hk
  · rw [List.length_append]
    omega
  · rw [List.length_append]
    omega
  · -- As many bits stand behind the first groups on either side.
    have hbits : 64 ^ ws.length = 256 ^ ys.length * 4 ^ pads := pow_eq_of_bits (by omega)
    rw [List.reverse_append, Nat.ofDigits_append, hy.value, hx.value, Wire.bigEndian_append,
      List.length_reverse, hbits]
    ring

/-! ### One group -/

/-- A number is cut off to a byte. -/
theorem toNat_byte (n : Nat) : (UInt8.ofNat n).toNat = n % 256 := UInt8.toNat_ofNat'

/-- Four values are three bytes. -/
theorem regrouped_four {a b c d : Nat} (ha : a < 64) (hb : b < 64) (hc : c < 64) (hd : d < 64) :
    Regrouped (quadBytes a b c d) [a, b, c, d] 0 := by
  obtain ⟨n, hn⟩ : ∃ n, n = a * 262144 + b * 4096 + c * 64 + d := ⟨_, rfl⟩
  have hbytes : quadBytes a b c d =
      [UInt8.ofNat (n / 65536), UInt8.ofNat (n / 256 % 256), UInt8.ofNat (n % 256)] := by
    rw [quadBytes, ← hn]
  rw [hbytes]
  refine ⟨by simp [ha, hb, hc, hd], by decide, ⟨1, rfl, rfl⟩, ?_⟩
  simp only [Wire.bigEndian_cons, Wire.bigEndian_nil, toNat_byte, List.length_cons, List.length_nil,
    List.reverse_cons, List.reverse_nil, List.nil_append, List.cons_append, Nat.ofDigits_cons,
    Nat.ofDigits_nil]
  omega

/-- Three values are two bytes if the last two bits are not set, and else they are none. -/
theorem regrouped_three {a b c : Nat} (ha : a < 64) (hb : b < 64) (hc : c < 64) :
    (c % 4 = 0 → Regrouped ((quadBytes a b c 0).take 2) [a, b, c] 1) ∧
      ∀ bytes, Regrouped bytes [a, b, c] 1 → c % 4 = 0 := by
  constructor
  · intro hbits
    obtain ⟨n, hn⟩ : ∃ n, n = a * 262144 + b * 4096 + c * 64 + 0 := ⟨_, rfl⟩
    have hbytes : (quadBytes a b c 0).take 2 =
        [UInt8.ofNat (n / 65536), UInt8.ofNat (n / 256 % 256)] := by
      rw [quadBytes, ← hn, List.take_succ_cons, List.take_succ_cons, List.take_zero]
    rw [hbytes]
    refine ⟨by simp [ha, hb, hc], by decide, ⟨1, rfl, rfl⟩, ?_⟩
    simp only [Wire.bigEndian_cons, Wire.bigEndian_nil, toNat_byte, List.length_cons,
      List.length_nil, List.reverse_cons, List.reverse_nil, List.nil_append, List.cons_append,
      Nat.ofDigits_cons, Nat.ofDigits_nil]
    omega
  · intro bytes h
    have hvalue := h.value
    simp only [List.reverse_cons, List.reverse_nil, List.nil_append, List.cons_append,
      Nat.ofDigits_cons, Nat.ofDigits_nil] at hvalue
    omega

/-- Two values are one byte if the last four bits are not set, and else they are none. -/
theorem regrouped_two {a b : Nat} (ha : a < 64) (hb : b < 64) :
    (b % 16 = 0 → Regrouped ((quadBytes a b 0 0).take 1) [a, b] 2) ∧
      ∀ bytes, Regrouped bytes [a, b] 2 → b % 16 = 0 := by
  constructor
  · intro hbits
    obtain ⟨n, hn⟩ : ∃ n, n = a * 262144 + b * 4096 + 0 * 64 + 0 := ⟨_, rfl⟩
    have hbytes : (quadBytes a b 0 0).take 1 = [UInt8.ofNat (n / 65536)] := by
      rw [quadBytes, ← hn, List.take_succ_cons, List.take_zero]
    rw [hbytes]
    refine ⟨by simp [ha, hb], by decide, ⟨1, rfl, rfl⟩, ?_⟩
    simp only [Wire.bigEndian_cons, Wire.bigEndian_nil, toNat_byte, List.length_nil,
      List.reverse_cons, List.reverse_nil, List.nil_append, List.cons_append, Nat.ofDigits_cons,
      Nat.ofDigits_nil]
    omega
  · intro bytes h
    have hvalue := h.value
    simp only [List.reverse_cons, List.reverse_nil, List.nil_append, List.cons_append,
      Nat.ofDigits_cons, Nat.ofDigits_nil] at hvalue
    omega

/-- Nothing is regrouped to nothing. -/
theorem regrouped_nil : Regrouped [] [] 0 :=
  ⟨List.forall_mem_nil _, by decide, ⟨0, rfl, rfl⟩, rfl⟩

/-- Values in groups of four are the bytes that the groups hold. -/
theorem regrouped_quads : (values : List Nat) → values.length % 4 = 0 → (∀ n ∈ values, n < 64) →
    Regrouped (quads values) values 0
  | [], _, _ => regrouped_nil
  | [_], hlength, _ => absurd hlength (by simp)
  | [_, _], hlength, _ => absurd hlength (by simp)
  | [_, _, _], hlength, _ => absurd hlength (by simp)
  | a :: b :: c :: d :: rest, hlength, hfits => by
    have hrest : rest.length % 4 = 0 := by
      simp only [List.length_cons] at hlength
      omega
    simp only [List.forall_mem_cons] at hfits
    obtain ⟨ha, hb, hc, hd, hfits⟩ := hfits
    exact (regrouped_four ha hb hc hd).append (regrouped_quads rest hrest hfits)

/-! ## Section 3: Writing -/

/-- The bytes of a text: a symbol for each value, and the pads. -/
def textBytes (values : List Nat) (pads : Nat) : List UInt8 :=
  values.map symbol ++ List.replicate pads pad

/-- What is written of bytes are the symbols of their values, and their pads.

    By recursion as the writer goes: three bytes at a time, and one or two of them at the end,
    which are filled up with zero bits. -/
theorem exists_symbols : (bytes : List UInt8) →
    ∃ values pads, Regrouped bytes values pads ∧ symbols bytes = textBytes values pads
  | [] => ⟨[], 0, regrouped_nil, rfl⟩
  | [a] => by
    have ha := a.toNat_lt
    refine ⟨[a.toNat * 16 / 64, a.toNat * 16 % 64], 2, ?_, rfl⟩
    refine ⟨?_, by decide, ⟨1, rfl, rfl⟩, ?_⟩
    · simp only [List.forall_mem_cons, List.not_mem_nil, false_imp_iff, implies_true, and_true]
      omega
    · simp only [Wire.bigEndian, List.foldl_cons, List.foldl_nil, List.reverse_cons,
        List.reverse_nil, List.nil_append, List.cons_append, Nat.ofDigits_cons, Nat.ofDigits_nil]
      omega
  | [a, b] => by
    have ha := a.toNat_lt
    have hb := b.toNat_lt
    obtain ⟨n, hn⟩ : ∃ n, n = a.toNat * 1024 + b.toNat * 4 := ⟨_, rfl⟩
    refine ⟨[n / 4096, n / 64 % 64, n % 64], 1, ?_, by rw [symbols, ← hn]; rfl⟩
    refine ⟨?_, by decide, ⟨1, rfl, rfl⟩, ?_⟩
    · simp only [List.forall_mem_cons, List.not_mem_nil, false_imp_iff, implies_true, and_true]
      omega
    · simp only [Wire.bigEndian, List.foldl_cons, List.foldl_nil, List.reverse_cons,
        List.reverse_nil, List.nil_append, List.cons_append, Nat.ofDigits_cons, Nat.ofDigits_nil]
      omega
  | a :: b :: c :: rest => by
    have ha := a.toNat_lt
    have hb := b.toNat_lt
    have hc := c.toNat_lt
    obtain ⟨n, hn⟩ : ∃ n, n = a.toNat * 65536 + b.toNat * 256 + c.toNat := ⟨_, rfl⟩
    obtain ⟨values, pads, hrest, hsymbols⟩ := exists_symbols rest
    have hgroup : Regrouped [a, b, c] [n / 262144, n / 4096 % 64, n / 64 % 64, n % 64] 0 := by
      refine ⟨?_, by decide, ⟨1, rfl, rfl⟩, ?_⟩
      · simp only [List.forall_mem_cons, List.not_mem_nil, false_imp_iff, implies_true, and_true]
        omega
      · simp only [Wire.bigEndian, List.foldl_cons, List.foldl_nil, List.reverse_cons,
          List.reverse_nil, List.nil_append, List.cons_append, Nat.ofDigits_cons,
          Nat.ofDigits_nil]
        omega
    refine ⟨_, pads, hgroup.append hrest, ?_⟩
    rw [symbols, hsymbols, ← hn]
    rfl

end ChainGuest.Base64
