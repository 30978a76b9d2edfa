import Mathlib
import ChainGuest.Number.Word256
import ChainGuest.Proofs.Number.Digits

/-! # Signed words as integers

    A pattern of 256 bits stands for one integer (`I256.toInt`), and no two patterns stand for the
    same. Sign, magnitude, decimal text and the word of 64 bits are all those of this integer
    (`I256.ReadsAs`), and a word of 64 bits is widened to the pattern of its own
    (`I256.twosComplement`).

    The operations wrap, so that they could give the right word by the wrong way. Beside the
    magnitude and the narrowed word stand the same computations with operations that refuse what
    does not fit: they never refuse.
-/

namespace ChainGuest

/-! ## Section 1: Operations that refuse to overflow -/

/-- The sum of two words, if it fits. -/
def U256.add? (u v : U256) : Option U256 :=
  if u.toNat + v.toNat < 2 ^ 256 then some (u + v) else none

namespace I256

/-- A number as a word of 64 bits, if it fits. -/
def int64OfNat? (n : Nat) : Option Int64 :=
  if n < 2 ^ 63 then some (Int64.ofNat n) else none

/-- The negative of a word of 64 bits, if it fits. -/
def int64Neg? (k : Int64) : Option Int64 :=
  if k = Int64.minValue then none else some (-k)

/-- The magnitude, computed by operations that refuse to overflow. -/
def magnitude? (x : I256) : Option U256 :=
  if x.isNegative then U256.add? (~~~x.bits) 1 else some x.bits

/-- The narrowed word, computed by operations that refuse to overflow. An answer that there is no
    such word is not a refusal. -/
def toInt64Checked? (x : I256) : Option (Option Int64) := do
  let m := (← x.magnitude?).toNat
  if UInt64.size ≤ m then return none
  else if x.isNegative then
    if m < 0x8000000000000000 then return some (← int64Neg? (← int64OfNat? m))
    else if m = 0x8000000000000000 then return some Int64.minValue
    else return none
  else if m < 0x8000000000000000 then return some (← int64OfNat? m)
  else return none

theorem int64OfNat?_of_lt {n : Nat} (h : n < 2 ^ 63) :
    int64OfNat? n = some (Int64.ofNat n) := if_pos h

/-- The negative of a small number is its negative as an integer. -/
theorem toInt_neg_ofNat {n : Nat} (h : n < 2 ^ 63) : (-(Int64.ofNat n)).toInt = -(n : Int) := by
  rw [Int64.toInt_neg, Int64.toInt_ofNat_of_lt h]
  exact Int.bmod_eq_of_le (by omega) (by omega)

/-- The negative of a small number is never refused, as only the least word has none. -/
theorem int64Neg?_ofNat {n : Nat} (h : n < 2 ^ 63) :
    int64Neg? (Int64.ofNat n) = some (-(Int64.ofNat n)) := by
  apply if_neg
  intro hleast
  have hvalue : (n : Int) = -2 ^ 63 := by
    rw [← Int64.toInt_ofNat_of_lt h, hleast, Int64.toInt_minValue]
  omega

/-! ## Section 2: The integer of a pattern -/

/-- The integer that a pattern stands for. From `2 ^ 255` on it is negative. -/
def toInt (x : I256) : Int :=
  if x.bits.toNat < 2 ^ 255 then x.bits.toNat else (x.bits.toNat : Int) - 2 ^ 256

variable {x y : I256}

/-- No two patterns stand for the same integer. -/
theorem toInt_injective (h : x.toInt = y.toInt) : x = y := by
  have hx : x.bits.toNat < 2 ^ 256 := x.bits.isLt
  have hy : y.bits.toNat < 2 ^ 256 := y.bits.isLt
  have hbits : x.bits.toNat = y.bits.toNat := by
    unfold toInt at h
    split_ifs at h <;> omega
  have hsame : x.bits = y.bits := BitVec.eq_of_toNat_eq hbits
  cases x
  cases y
  exact congrArg I256.mk hsame

/-- The topmost bit is set from `2 ^ 255` on. -/
theorem isNegative_iff : x.isNegative = true ↔ 2 ^ 255 ≤ x.bits.toNat := by
  have hmsb : x.isNegative = x.bits.msb := (BitVec.msb_eq_getLsbD_last x.bits).symm
  rw [hmsb, BitVec.msb_eq_decide, decide_eq_true_eq]

/-- The sign of a pattern is that of its integer. -/
theorem isNegative_iff_toInt : x.isNegative = true ↔ x.toInt < 0 := by
  have hx : x.bits.toNat < 2 ^ 256 := x.bits.isLt
  rw [isNegative_iff]
  unfold toInt
  split_ifs <;> omega

/-- The complement of a negative pattern leaves room for one more. -/
theorem toNat_not_add_one (h : x.isNegative = true) :
    (~~~x.bits).toNat + 1 = 2 ^ 256 - x.bits.toNat ∧ 2 ^ 256 - x.bits.toNat < 2 ^ 256 := by
  have hx : x.bits.toNat < 2 ^ 256 := x.bits.isLt
  have hhigh : 2 ^ 255 ≤ x.bits.toNat := isNegative_iff.1 h
  rw [BitVec.toNat_not]
  omega

/-- The magnitude is that of the integer, also for the least one, which has no positive twin. -/
theorem toNat_magnitude : x.magnitude.toNat = x.toInt.natAbs := by
  have hx : x.bits.toNat < 2 ^ 256 := x.bits.isLt
  unfold magnitude toInt
  by_cases hnegative : x.isNegative = true
  · obtain ⟨hsum, hfits⟩ := toNat_not_add_one hnegative
    have hhigh : 2 ^ 255 ≤ x.bits.toNat := isNegative_iff.1 hnegative
    have hadd : (~~~x.bits + 1).toNat = 2 ^ 256 - x.bits.toNat := by
      rw [BitVec.toNat_add_of_lt, ← hsum]
      · rfl
      · exact hsum.trans_lt hfits
    rw [if_pos hnegative, if_neg (Nat.not_lt.2 hhigh), hadd]
    omega
  · have hlow : x.bits.toNat < 2 ^ 255 := Nat.lt_of_not_le fun h => hnegative (isNegative_iff.2 h)
    rw [if_neg hnegative, if_pos hlow, Int.natAbs_natCast]

/-- The magnitude is computed without overflow. -/
theorem magnitude?_eq : x.magnitude? = some x.magnitude := by
  unfold magnitude? magnitude
  by_cases hnegative : x.isNegative = true
  · obtain ⟨hsum, hfits⟩ := toNat_not_add_one hnegative
    rw [if_pos hnegative, if_pos hnegative]
    exact if_pos (hsum.trans_lt hfits)
  · rw [if_neg hnegative, if_neg hnegative]

/-! ## Section 3: Text and narrowing -/

/-- The text is a minus sign if the integer is negative, and the digits of its magnitude. -/
theorem toDecimal_eq :
    x.toDecimal =
      (if x.toInt < 0 then "-" else "") ++ String.ofList (decimalDigits x.toInt.natAbs) := by
  unfold toDecimal
  by_cases hnegative : x.isNegative = true
  · rw [if_pos hnegative, if_pos (isNegative_iff_toInt.1 hnegative), ← toNat_magnitude]
    rfl
  · have hmagnitude : x.magnitude = x.bits := if_neg hnegative
    rw [if_neg hnegative, if_neg (fun h => hnegative (isNegative_iff_toInt.2 h)),
      ← toNat_magnitude, hmagnitude, String.empty_append]
    rfl

/-- The narrowed word, and that no operation on the way to it refuses.

    There are five ways through the computation: too large at once, negative and small, the least
    word, positive and small, or neither. Each is compared with the range of the word. -/
theorem toInt64?_spec :
    x.toInt64?.map Int64.toInt =
        (if -2 ^ 63 ≤ x.toInt ∧ x.toInt ≤ 2 ^ 63 - 1 then some x.toInt else none) ∧
      x.toInt64Checked? = some x.toInt64? := by
  have hsize : UInt64.size = 2 ^ 64 := rfl
  have hhalf : 0x8000000000000000 = 2 ^ 63 := rfl
  have hsign : x.isNegative = true ↔ x.toInt < 0 := isNegative_iff_toInt
  unfold toInt64Checked? toInt64?
  rw [magnitude?_eq]
  simp only [Option.bind_eq_bind, Option.bind_some, toNat_magnitude, hsize, hhalf]
  -- The magnitude and the sign decide, in the order in which they are looked at.
  by_cases hlarge : 2 ^ 64 ≤ x.toInt.natAbs
  · rw [if_pos hlarge, if_pos hlarge, if_neg (by omega)]
    exact ⟨rfl, rfl⟩
  rw [if_neg hlarge, if_neg hlarge]
  by_cases hnegative : x.isNegative = true
  · have hneg : x.toInt < 0 := hsign.1 hnegative
    rw [if_pos hnegative, if_pos hnegative]
    by_cases hsmall : x.toInt.natAbs < 2 ^ 63
    · rw [if_pos hsmall, if_pos hsmall, if_pos (by omega), int64OfNat?_of_lt hsmall,
        Option.bind_some, int64Neg?_ofNat hsmall, Option.map_some, toInt_neg_ofNat hsmall]
      exact ⟨congrArg some (by omega), rfl⟩
    rw [if_neg hsmall, if_neg hsmall]
    by_cases hleast : x.toInt.natAbs = 2 ^ 63
    · rw [if_pos hleast, if_pos hleast, if_pos (by omega), Option.map_some, Int64.toInt_minValue]
      exact ⟨congrArg some (by omega), rfl⟩
    · rw [if_neg hleast, if_neg hleast, if_neg (by omega)]
      exact ⟨rfl, rfl⟩
  · have hnonneg : ¬ x.toInt < 0 := fun h => hnegative (hsign.2 h)
    rw [if_neg hnegative, if_neg hnegative]
    by_cases hsmall : x.toInt.natAbs < 2 ^ 63
    · rw [if_pos hsmall, if_pos hsmall, if_pos (by omega), int64OfNat?_of_lt hsmall,
        Option.map_some, Int64.toInt_ofNat_of_lt hsmall]
      exact ⟨congrArg some (by omega), rfl⟩
    · rw [if_neg hsmall, if_neg hsmall, if_neg (by omega)]
      exact ⟨rfl, rfl⟩

/-- A word of 64 bits keeps its integer when it is widened. -/
theorem toInt_ofInt64 (k : Int64) : (ofInt64 k).toInt = k.toInt := by
  have hlow : -2 ^ 63 ≤ k.toInt := Int64.le_toInt k
  have hhigh : k.toInt < 2 ^ 63 := Int64.toInt_lt k
  have hmagnitude : (BitVec.ofNat 256 k.toInt.natAbs).toNat = k.toInt.natAbs := by
    rw [BitVec.toNat_ofNat]
    apply Nat.mod_eq_of_lt
    omega
  unfold ofInt64
  by_cases hnegative : k < 0
  · -- The complement of the magnitude has room for one more, as the magnitude is not zero.
    have hneg : k.toInt < 0 := Int64.lt_iff_toInt_lt.1 hnegative
    have hbits : (~~~(BitVec.ofNat 256 k.toInt.natAbs) + 1).toNat =
        2 ^ 256 - k.toInt.natAbs := by
      have hone : (1 : U256).toNat = 1 := rfl
      rw [BitVec.toNat_add_of_lt, BitVec.toNat_not, hmagnitude, hone]
      · omega
      · rw [BitVec.toNat_not, hmagnitude, hone]
        omega
    rw [if_pos hnegative]
    unfold toInt
    simp only [hbits]
    rw [if_neg (by omega)]
    omega
  · have hnonneg : ¬ k.toInt < 0 := fun h => hnegative (Int64.lt_iff_toInt_lt.2 h)
    rw [if_neg hnegative]
    unfold toInt
    simp only [hmagnitude]
    rw [if_pos (by omega)]
    omega

/-! ## Section 4: One integer -/

/-- A word reads as an integer wherever it is read. -/
structure ReadsAs (x : I256) (z : Int) : Prop where
  sign : x.isNegative = true ↔ z < 0
  /-- The magnitude is that of the integer, and nothing overflows on the way to it. -/
  magnitude : x.magnitude.toNat = z.natAbs ∧ x.magnitude? = some x.magnitude
  /-- The text is the decimal text of the integer. -/
  text : ∀ s, x.toDecimal = s ↔ DecimalText s z
  /-- The narrowed word is the integer if it has one, and nothing overflows on the way to it. -/
  narrowed : x.toInt64?.map Int64.toInt =
      (if -2 ^ 63 ≤ z ∧ z ≤ 2 ^ 63 - 1 then some z else none) ∧
    x.toInt64Checked? = some x.toInt64?

/-- Every pattern reads as its integer. -/
theorem readsAs_toInt (x : I256) : x.ReadsAs x.toInt where
  sign := isNegative_iff_toInt
  magnitude := ⟨toNat_magnitude, magnitude?_eq⟩
  text := by
    intro s
    rw [decimalText_iff, toDecimal_eq]
    exact eq_comm
  narrowed := toInt64?_spec

/-- Words are read in two's complement throughout: patterns are kept as they are and read as one
    integer everywhere, and widening is the inverse of narrowing, as far as there is one.

    All of it is said of the integer that a pattern stands for. What each operation makes of the
    pattern is compared with that integer, and not one operation with another. -/
theorem twosComplement :
    (∀ u : U256, (I256.mk u).bits = u ∧ (I256.mk u).ReadsAs
      (if u.toNat < 2 ^ 255 then u.toNat else (u.toNat : Int) - 2 ^ 256)) ∧
    (∀ k : Int64, (ofInt64 k).ReadsAs k.toInt ∧ (ofInt64 k).toInt64? = some k) ∧
    ∀ (x : I256) (k : Int64), x.toInt64? = some k ↔ ofInt64 k = x := by
  have hwidened : ∀ k : Int64, (ofInt64 k).ReadsAs k.toInt := by
    intro k
    have hreads := readsAs_toInt (ofInt64 k)
    rwa [toInt_ofInt64] at hreads
  have hnarrow : ∀ (x : I256) (k : Int64), x.toInt64? = some k ↔ ofInt64 k = x := by
    intro x k
    have hlow : -2 ^ 63 ≤ k.toInt := Int64.le_toInt k
    have hhigh : k.toInt < 2 ^ 63 := Int64.toInt_lt k
    obtain ⟨hspec, -⟩ := x.readsAs_toInt.narrowed
    constructor
    · -- A word is known by its integer.
      intro hsome
      apply toInt_injective
      rw [toInt_ofInt64]
      rw [hsome, Option.map_some] at hspec
      split_ifs at hspec
      exact Option.some.inj hspec
    · rintro rfl
      rw [toInt_ofInt64, if_pos ⟨hlow, by omega⟩] at hspec
      obtain ⟨k', hk', hsame⟩ := Option.map_eq_some_iff.1 hspec
      rw [hk', Int64.toInt_inj.1 hsame]
  refine ⟨?_, ?_, hnarrow⟩
  · intro u
    exact ⟨rfl, readsAs_toInt ⟨u⟩⟩
  · intro k
    exact ⟨hwidened k, (hnarrow _ k).2 rfl⟩

-- The least word has a magnitude of its own, and the least one of 64 bits has no positive twin.
example : (I256.mk (BitVec.ofNat 256 (2 ^ 255))).magnitude = BitVec.ofNat 256 (2 ^ 255) := by decide

end I256

end ChainGuest
