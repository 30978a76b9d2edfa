import Mathlib
import ChainGuest.Wire.Reader
import ChainGuest.Wire.Token

/-! # Big-endian numbers

    What bytes spell and what numbers are written as determine each other: `width` bytes
    spell exactly the numbers below `256 ^ width`, and in two's complement the numbers of
    half that size on either side of zero.
-/

namespace ChainGuest.Wire

/-! ## Section 1: Unsigned numbers -/

/-- What was read before weighs as much as the places that are still to come. -/
theorem foldl_eq_bigEndian (bytes : List UInt8) (start : Nat) :
    bytes.foldl (fun n b => n * 256 + b.toNat) start =
      start * 256 ^ bytes.length + bigEndian bytes := by
  -- The start varies: the fold over the rest begins with what was read so far.
  induction bytes generalizing start with
  | nil => simp [bigEndian]
  | cons x rest ih =>
    have hx : bigEndian (x :: rest) = x.toNat * 256 ^ rest.length + bigEndian rest := by
      unfold bigEndian
      rw [List.foldl_cons, Nat.zero_mul, Nat.zero_add]
      exact ih x.toNat
    rw [List.foldl_cons, ih (start * 256 + x.toNat), hx, List.length_cons, Nat.pow_succ]
    ring

theorem bigEndian_cons (b : UInt8) (bytes : List UInt8) :
    bigEndian (b :: bytes) = b.toNat * 256 ^ bytes.length + bigEndian bytes := by
  have h := foldl_eq_bigEndian bytes b.toNat
  rw [← h]
  unfold bigEndian
  rw [List.foldl_cons, Nat.zero_mul, Nat.zero_add]

theorem bigEndian_nil : bigEndian [] = 0 := rfl

/-- Bytes in front weigh as much as the places behind them. -/
theorem bigEndian_append (xs ys : List UInt8) :
    bigEndian (xs ++ ys) = bigEndian xs * 256 ^ ys.length + bigEndian ys := by
  rw [← foldl_eq_bigEndian]
  unfold bigEndian
  rw [List.foldl_append]

theorem bigEndian_lt (bytes : List UInt8) : bigEndian bytes < 256 ^ bytes.length := by
  induction bytes with
  | nil => simp [bigEndian]
  | cons b bytes ih =>
    have hb : b.toNat < 256 := b.toNat_lt
    rw [bigEndian_cons, List.length_cons, Nat.pow_succ]
    nlinarith

@[simp] theorem length_bigEndianBytes (width n : Nat) :
    (bigEndianBytes width n).length = width := by
  induction width with
  | zero => rfl
  | succ width ih => simp [bigEndianBytes, ih]

/-- The number written is read again, up to the bytes that do not fit. -/
theorem bigEndian_bigEndianBytes (width n : Nat) :
    bigEndian (bigEndianBytes width n) = n % 256 ^ width := by
  -- The leading byte holds what the places behind it leave over.
  induction width with
  | zero => simp [bigEndianBytes, bigEndian, Nat.mod_one]
  | succ width ih =>
    rw [bigEndianBytes, bigEndian_cons, ih, length_bigEndianBytes, Nat.mod_pow_succ]
    have hdigit : (UInt8.ofNat (n / Nat.pow 256 width)).toNat = n / 256 ^ width % 256 := by
      simp
    rw [hdigit]
    ring

/-- As many bytes spell the same number only if they are the same bytes. -/
theorem bigEndian_inj {xs ys : List UInt8} (hl : xs.length = ys.length)
    (h : bigEndian xs = bigEndian ys) : xs = ys := by
  -- By the leading byte: the rest is smaller than the weight of its place on either side.
  induction xs generalizing ys with
  | nil => exact (List.length_eq_zero_iff.1 hl.symm).symm
  | cons x xs ih =>
    obtain ⟨y, ys, rfl⟩ := List.exists_cons_of_length_eq_add_one hl.symm
    have hl' : xs.length = ys.length := by simpa using hl
    rw [bigEndian_cons, bigEndian_cons, hl'] at h
    have hx : bigEndian xs < 256 ^ ys.length := hl' ▸ bigEndian_lt xs
    have hy : bigEndian ys < 256 ^ ys.length := bigEndian_lt ys
    -- The leading byte is the quotient by the weight of its place.
    have hpos : 0 < 256 ^ ys.length := by positivity
    have hlead : x.toNat = y.toNat := by
      have hq := congrArg (· / 256 ^ ys.length) h
      simpa [Nat.mul_add_div hpos, Nat.mul_comm, Nat.div_eq_of_lt hx, Nat.div_eq_of_lt hy]
        using hq
    obtain rfl : x = y := UInt8.toNat_inj.1 hlead
    rw [ih hl' (by omega)]

@[simp] theorem bigEndianBytes_bigEndian (bytes : List UInt8) :
    bigEndianBytes bytes.length (bigEndian bytes) = bytes := by
  apply bigEndian_inj (length_bigEndianBytes _ _)
  rw [bigEndian_bigEndianBytes, Nat.mod_eq_of_lt (bigEndian_lt bytes)]

/-! ## Section 2: Two's complement -/

/-- Read in two's complement, a number of `width` bytes is its residue's representative nearest to
    zero. So whatever fits is read as it was written; the bounds say what fits, without naming the
    width of a word. -/
theorem bigEndianSigned_bigEndianBytes {width : Nat} {n : Int} (hl : -(256 ^ width) ≤ 2 * n)
    (hu : 2 * n < 256 ^ width) :
    bigEndianSigned (bigEndianBytes width (n % 256 ^ width).toNat) = n := by
  have hpos : (0 : Int) < 256 ^ width := by positivity
  have hnn : 0 ≤ n % 256 ^ width := Int.emod_nonneg n hpos.ne'
  have hlt : n % 256 ^ width < 256 ^ width := Int.emod_lt_of_pos n hpos
  -- The residue is written in full, as it is below the modulus.
  have hnat : (n % 256 ^ width).toNat % 256 ^ width = (n % 256 ^ width).toNat := by
    apply Nat.mod_eq_of_lt
    zify
    rwa [Int.toNat_of_nonneg hnn]
  unfold bigEndianSigned
  simp only [bigEndian_bigEndianBytes, length_bigEndianBytes, Nat.pow_eq, hnat]
  by_cases hneg : n < 0
  · -- The residue of a negative number is one modulus above it.
    have hres : n % 256 ^ width = n + 256 ^ width := by
      rw [← Int.add_emod_right, Int.emod_eq_of_lt (by omega) (by omega)]
    rw [if_neg (by zify; omega)]
    push_cast
    omega
  · have hres : n % 256 ^ width = n := Int.emod_eq_of_lt (by omega) (by omega)
    rw [if_pos (by zify; omega)]
    omega

/-- What bytes say in two's complement lies in the range of so many bytes, and is written as these
    bytes. With `bigEndianSigned_bigEndianBytes` the two are inverse to each other. -/
theorem bigEndianSigned_spec (bytes : List UInt8) :
    -(256 ^ bytes.length) ≤ 2 * bigEndianSigned bytes ∧
      2 * bigEndianSigned bytes < 256 ^ bytes.length ∧
      (bigEndianSigned bytes % 256 ^ bytes.length).toNat = bigEndian bytes := by
  have hlt : (bigEndian bytes : Int) < 256 ^ bytes.length := by
    exact_mod_cast bigEndian_lt bytes
  unfold bigEndianSigned
  simp only [Nat.pow_eq]
  -- Below half of the modulus the residue is the number, from there on it is one modulus more.
  split
  · next h =>
    have h' : 2 * (bigEndian bytes : Int) < 256 ^ bytes.length := by exact_mod_cast h
    refine ⟨by omega, h', ?_⟩
    rw [Int.emod_eq_of_lt (by omega) hlt, Int.toNat_natCast]
  · next h =>
    have h' : (256 : Int) ^ bytes.length ≤ 2 * (bigEndian bytes : Int) := by
      exact_mod_cast Nat.le_of_not_lt h
    push_cast
    refine ⟨by omega, by omega, ?_⟩
    rw [Int.sub_emod_right, Int.emod_eq_of_lt (by omega) hlt, Int.toNat_natCast]

end ChainGuest.Wire
