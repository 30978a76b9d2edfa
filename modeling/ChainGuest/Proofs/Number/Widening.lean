import Mathlib
import ChainGuest.Number.Binary64

/-! # What floating-point patterns stand for

    A binary interchange format divides a pattern into a sign bit, exponent bits and fraction
    bits, and the same rule says of every such format what its patterns stand for
    (`FloatFormat.value`). No arithmetic of `Binary64` enters the rule.

    A pattern is told by its value, unless it is one of the NaNs (`FloatFormat.value_inj`); and
    widening a single to a double keeps the value (`Binary64.value_ofBinary32`), where a
    subnormal single is the only one that takes a rounding, which is exact.
-/

namespace ChainGuest

/-! ## Section 1: Formats -/

/-- What a pattern stands for. -/
inductive FloatValue where
  | nan
  | infinite (negative : Bool)
  | finite (negative : Bool) (magnitude : ℚ)

/-- So many bits of exponent and of fraction, below a sign bit. -/
structure FloatFormat where
  exponentBits : Nat
  fractionBits : Nat

namespace FloatFormat

/-- Single precision. -/
def binary32 : FloatFormat := ⟨8, 23⟩

/-- Double precision. -/
def binary64 : FloatFormat := ⟨11, 52⟩

variable (f : FloatFormat)

def fraction (bits : Nat) : Nat := bits % 2 ^ f.fractionBits

def exponent (bits : Nat) : Nat := bits / 2 ^ f.fractionBits % 2 ^ f.exponentBits

def negative (bits : Nat) : Bool :=
  bits / 2 ^ f.fractionBits / 2 ^ f.exponentBits % 2 = 1

/-- The exponent field of one. -/
def bias : Nat := 2 ^ (f.exponentBits - 1) - 1

/-- The magnitude of a finite number. The least exponent stands for the same power of two as
    the next one, and has no one before the point. -/
def magnitude (exponent fraction : Nat) : ℚ :=
  if exponent = 0 then fraction / 2 ^ f.fractionBits * 2 ^ (1 - f.bias : ℤ)
  else (1 + fraction / 2 ^ f.fractionBits) * 2 ^ (exponent - f.bias : ℤ)

/-- The value of the fields. The greatest exponent is that of infinities and NaNs. -/
def valueOf (negative : Bool) (exponent fraction : Nat) : FloatValue :=
  if exponent = 2 ^ f.exponentBits - 1 then
    if fraction = 0 then .infinite negative else .nan
  else .finite negative (f.magnitude exponent fraction)

/-- The value of a pattern. -/
def value (bits : Nat) : FloatValue :=
  f.valueOf (f.negative bits) (f.exponent bits) (f.fraction bits)

/-! ## Section 2: A pattern is told by its value -/

/-- The magnitude of a finite number, in units of the least one. -/
def units (exponent fraction : Nat) : Nat :=
  if exponent = 0 then fraction else (2 ^ f.fractionBits + fraction) * 2 ^ (exponent - 1)

/-- A magnitude is a number of units of the least one. -/
theorem magnitude_eq_units (exponent fraction : Nat) :
    f.magnitude exponent fraction =
      f.units exponent fraction * 2 ^ (1 - f.bias - f.fractionBits : ℤ) := by
  have htwo : (2 : ℚ) ≠ 0 := by norm_num
  have hscale : (2 : ℚ) ^ (1 - f.bias - f.fractionBits : ℤ) =
      2 ^ (1 - f.bias : ℤ) / 2 ^ f.fractionBits := by
    rw [zpow_sub₀ htwo, zpow_natCast]
  unfold magnitude units
  by_cases hzero : exponent = 0
  · rw [if_pos hzero, if_pos hzero, hscale]
    ring
  · rw [if_neg hzero, if_neg hzero, hscale]
    have hexponent : (exponent - f.bias : ℤ) = (exponent - 1 : ℕ) + (1 - f.bias : ℤ) := by
      omega
    rw [hexponent, zpow_add₀ htwo, zpow_natCast]
    push_cast
    field_simp

/-- With a greater exponent, a number is greater, whatever the fractions are. -/
theorem units_lt_of_exponent_lt {e e' m m' : Nat} (he : e < e')
    (hm : m < 2 ^ f.fractionBits) : f.units e m < f.units e' m' := by
  have hgreater : 2 ^ f.fractionBits * 2 ^ (e' - 1) ≤ f.units e' m' := by
    unfold units
    rw [if_neg (by omega)]
    exact Nat.mul_le_mul_right _ (Nat.le_add_right _ _)
  apply Nat.lt_of_lt_of_le _ hgreater
  unfold units
  by_cases hzero : e = 0
  · rw [if_pos hzero]
    exact Nat.lt_of_lt_of_le hm (Nat.le_mul_of_pos_right _ (by positivity))
  · rw [if_neg hzero]
    -- The significand is less than twice the leading bit, and the next power is twice this one.
    have hpower : 2 ^ e = 2 * 2 ^ (e - 1) := by
      rw [← Nat.pow_succ']
      congr 1
      omega
    have hpos : 0 < 2 ^ (e - 1) := by positivity
    calc (2 ^ f.fractionBits + m) * 2 ^ (e - 1)
        < (2 ^ f.fractionBits * 2) * 2 ^ (e - 1) := Nat.mul_lt_mul_of_pos_right (by omega) hpos
      _ = 2 ^ f.fractionBits * 2 ^ e := by rw [hpower, Nat.mul_assoc]
      _ ≤ 2 ^ f.fractionBits * 2 ^ (e' - 1) :=
          Nat.mul_le_mul_left _ (Nat.pow_le_pow_right (by omega) (by omega))

/-- Units tell exponent and fraction apart: the exponent by the range, and the fraction within it.
-/
theorem units_inj {e e' m m' : Nat} (hm : m < 2 ^ f.fractionBits)
    (hm' : m' < 2 ^ f.fractionBits) (h : f.units e m = f.units e' m') : e = e' ∧ m = m' := by
  have hexponent : e = e' := by
    rcases Nat.lt_trichotomy e e' with hlt | heq | hlt
    · exact absurd h (f.units_lt_of_exponent_lt hlt hm).ne
    · exact heq
    · exact absurd h.symm (f.units_lt_of_exponent_lt hlt hm').ne
  subst hexponent
  refine ⟨rfl, ?_⟩
  unfold units at h
  by_cases hzero : e = 0
  · rwa [if_pos hzero, if_pos hzero] at h
  · rw [if_neg hzero, if_neg hzero] at h
    have hpos : 0 < 2 ^ (e - 1) := by positivity
    have hsum := Nat.eq_of_mul_eq_mul_right hpos h
    omega

/-- A magnitude determines its fields. -/
theorem magnitude_inj {e e' m m' : Nat} (hm : m < 2 ^ f.fractionBits)
    (hm' : m' < 2 ^ f.fractionBits) (h : f.magnitude e m = f.magnitude e' m') :
    e = e' ∧ m = m' := by
  rw [magnitude_eq_units, magnitude_eq_units] at h
  have hscale : (2 : ℚ) ^ (1 - f.bias - f.fractionBits : ℤ) ≠ 0 := by positivity
  have hunits : f.units e m = f.units e' m' := by
    exact_mod_cast mul_right_cancel₀ hscale h
  exact f.units_inj hm hm' hunits

/-- A fraction fits its bits. -/
theorem fraction_lt (bits : Nat) : f.fraction bits < 2 ^ f.fractionBits :=
  Nat.mod_lt _ (by positivity)

/-- A pattern is nothing but its fields. -/
theorem eq_of_fields {a b : Nat} (ha : a < 2 ^ f.fractionBits * (2 ^ f.exponentBits * 2))
    (hb : b < 2 ^ f.fractionBits * (2 ^ f.exponentBits * 2))
    (hnegative : f.negative a = f.negative b) (hexponent : f.exponent a = f.exponent b)
    (hfraction : f.fraction a = f.fraction b) : a = b := by
  have hsign {n : Nat} (hn : n < 2 ^ f.fractionBits * (2 ^ f.exponentBits * 2)) :
      n / 2 ^ f.fractionBits / 2 ^ f.exponentBits < 2 := by
    rw [Nat.div_div_eq_div_mul, Nat.div_lt_iff_lt_mul (by positivity)]
    calc n < 2 ^ f.fractionBits * (2 ^ f.exponentBits * 2) := hn
      _ = 2 * (2 ^ f.fractionBits * 2 ^ f.exponentBits) := by ring
  have htop : a / 2 ^ f.fractionBits / 2 ^ f.exponentBits =
      b / 2 ^ f.fractionBits / 2 ^ f.exponentBits := by
    have hasign := hsign ha
    have hbsign := hsign hb
    unfold negative at hnegative
    rw [decide_eq_decide] at hnegative
    generalize a / 2 ^ f.fractionBits / 2 ^ f.exponentBits = top at *
    generalize b / 2 ^ f.fractionBits / 2 ^ f.exponentBits = top' at *
    omega
  have hmiddle : a / 2 ^ f.fractionBits = b / 2 ^ f.fractionBits := by
    rw [← Nat.div_add_mod (a / 2 ^ f.fractionBits) (2 ^ f.exponentBits), htop]
    unfold exponent at hexponent
    rw [hexponent, Nat.div_add_mod]
  rw [← Nat.div_add_mod a (2 ^ f.fractionBits), hmiddle]
  unfold fraction at hfraction
  rw [hfraction, Nat.div_add_mod]

/-- Patterns of the same value are the same, or both are NaNs.

    So zeros of different sign have different values here, as they have different patterns. -/
theorem value_inj {a b : Nat} (ha : a < 2 ^ f.fractionBits * (2 ^ f.exponentBits * 2))
    (hb : b < 2 ^ f.fractionBits * (2 ^ f.exponentBits * 2)) (h : f.value a = f.value b) :
    a = b ∨ f.value a = .nan ∧ f.value b = .nan := by
  by_cases hnan : f.value b = .nan
  · exact .inr ⟨h.trans hnan, hnan⟩
  refine .inl ?_
  unfold value valueOf at h hnan
  -- Infinities have the greatest exponent, and finite numbers any other.
  by_cases hgreatest : f.exponent b = 2 ^ f.exponentBits - 1
  · rw [if_pos hgreatest] at h hnan
    by_cases hzero : f.fraction b = 0
    · rw [if_pos hzero] at h
      by_cases hgreatest' : f.exponent a = 2 ^ f.exponentBits - 1
      · rw [if_pos hgreatest'] at h
        by_cases hzero' : f.fraction a = 0
        · rw [if_pos hzero', FloatValue.infinite.injEq] at h
          exact f.eq_of_fields ha hb h (hgreatest'.trans hgreatest.symm)
            (hzero'.trans hzero.symm)
        · simp [if_neg hzero'] at h
      · simp [if_neg hgreatest'] at h
    · simp [if_neg hzero] at hnan
  · rw [if_neg hgreatest] at h
    by_cases hgreatest' : f.exponent a = 2 ^ f.exponentBits - 1
    · rw [if_pos hgreatest'] at h
      split at h <;> simp at h
    · rw [if_neg hgreatest', FloatValue.finite.injEq] at h
      obtain ⟨hexponent, hfraction⟩ := f.magnitude_inj (f.fraction_lt a) (f.fraction_lt b) h.2
      exact f.eq_of_fields ha hb h.1 hexponent hfraction

end FloatFormat

/-! ## Section 3: Doubles -/

namespace Binary64

/-- What a double stands for. -/
def value (x : Binary64) : FloatValue := FloatFormat.binary64.value x.bits.toNat

/-- The same pattern, where all NaNs count as one. -/
def Same (x y : Binary64) : Prop := x = y ∨ x.isNaN ∧ y.isNaN

/-- The fields that a double is computed with are those of the format. -/
theorem value_eq (x : Binary64) :
    x.value = FloatFormat.binary64.valueOf x.isNegative x.exponentField x.fractionField := by
  have hnegative : FloatFormat.binary64.negative x.bits.toNat = x.isNegative := by
    have hlt := x.bits.toNat_lt
    unfold FloatFormat.negative FloatFormat.binary64 isNegative signBit
    rw [decide_eq_decide]
    dsimp only
    omega
  have hexponent : FloatFormat.binary64.exponent x.bits.toNat = x.exponentField := by
    simp only [FloatFormat.exponent, FloatFormat.binary64, exponentField, magnitudeBits,
      signBit, leadingBit]
    omega
  have hfraction : FloatFormat.binary64.fraction x.bits.toNat = x.fractionField := by
    simp only [FloatFormat.fraction, FloatFormat.binary64, fractionField, magnitudeBits,
      signBit, leadingBit]
    omega
  unfold value FloatFormat.value
  rw [hnegative, hexponent, hfraction]

/-- Only NaNs stand for no number. -/
theorem value_eq_nan_iff {x : Binary64} : x.value = .nan ↔ x.isNaN := by
  rw [value_eq]
  unfold FloatFormat.valueOf isNaN
  by_cases hgreatest : x.exponentField = 2047
  · by_cases hzero : x.fractionField = 0 <;> simp [FloatFormat.binary64, hgreatest, hzero]
  · simp [FloatFormat.binary64, hgreatest]

/-- Doubles are the same if they stand for the same. -/
theorem same_iff_value_eq {x y : Binary64} : x.Same y ↔ x.value = y.value := by
  constructor
  · intro h
    rcases h with heq | ⟨hx, hy⟩
    · rw [heq]
    · rw [value_eq_nan_iff.2 hx, value_eq_nan_iff.2 hy]
  · intro h
    rcases FloatFormat.binary64.value_inj x.bits.toNat_lt y.bits.toNat_lt h with heq | hnan
    · exact .inl (congrArg mk (UInt64.toNat_inj.1 heq))
    · exact .inr ⟨value_eq_nan_iff.1 hnan.1, value_eq_nan_iff.1 hnan.2⟩

/-- The value of a double, by its fields. -/
theorem value_ofFields (negative : Bool) {exponent fraction : Nat} (he : exponent < 2048)
    (hf : fraction < leadingBit) :
    (ofFields negative (exponent * leadingBit + fraction)).value =
      FloatFormat.binary64.valueOf negative exponent fraction := by
  unfold leadingBit at hf
  have hbits : (ofFields negative (exponent * leadingBit + fraction)).bits.toNat =
      exponent * leadingBit + fraction + if negative then signBit else 0 := by
    unfold ofFields leadingBit signBit
    rw [UInt64.toNat_ofNat_of_lt']
    simp only [UInt64.size]
    split <;> omega
  have hsign : FloatFormat.binary64.negative
      (exponent * leadingBit + fraction + if negative then signBit else 0) = negative := by
    simp only [FloatFormat.negative, FloatFormat.binary64, leadingBit, signBit]
    cases negative
    · simp
      omega
    · simp
      omega
  have hexponent : FloatFormat.binary64.exponent
      (exponent * leadingBit + fraction + if negative then signBit else 0) = exponent := by
    simp only [FloatFormat.exponent, FloatFormat.binary64, leadingBit, signBit]
    split <;> omega
  have hfraction : FloatFormat.binary64.fraction
      (exponent * leadingBit + fraction + if negative then signBit else 0) = fraction := by
    simp only [FloatFormat.fraction, FloatFormat.binary64, leadingBit, signBit]
    split <;> omega
  unfold value FloatFormat.value
  rw [hbits, hsign, hexponent, hfraction]

/-! ## Section 4: Widening -/

/-- A multiple is divided exactly. -/
theorem roundDiv_mul {q b : Nat} (hb : 0 < b) : roundDiv (q * b) b = q := by
  unfold roundDiv
  simp [Nat.mul_mod_left, Nat.mul_div_cancel _ hb, hb]

/-- The leading bit of a number stands where its logarithm says, whatever power of two the
    number is divided by. -/
theorem floorLog2_two_pow {m : Nat} (hm : m ≠ 0) (k : Nat) :
    floorLog2 m (Nat.pow 2 k) = (m.log2 : Int) - k := by
  have hlow : 2 ^ m.log2 ≤ m := Nat.log2_self_le hm
  have hden : (Nat.pow 2 k).log2 = k := Nat.log2_two_pow
  unfold floorLog2
  simp only [hden]
  apply if_pos
  by_cases hle : k ≤ m.log2
  · rw [if_pos (by omega)]
    have hshift : ((m.log2 : Int) - k).toNat = m.log2 - k := by omega
    have hpower : 2 ^ k * 2 ^ (m.log2 - k) = 2 ^ m.log2 := by
      rw [← Nat.pow_add, Nat.add_sub_cancel' hle]
    rw [hshift]
    exact hpower.trans_le hlow
  · rw [if_neg (by omega)]
    have hshift : (-((m.log2 : Int) - k)).toNat = k - m.log2 := by omega
    have hpower : 2 ^ m.log2 * 2 ^ (k - m.log2) = 2 ^ k := by
      rw [← Nat.pow_add, Nat.add_sub_cancel' (by omega)]
    rw [hshift]
    exact hpower.symm.trans_le (Nat.mul_le_mul_right _ hlow)

/-- With its leading bit in its place, a number is a significand. -/
theorem leadingBit_le_shift {m : Nat} (hm : m ≠ 0) (hlog : m.log2 ≤ 52) :
    leadingBit ≤ m * 2 ^ (52 - m.log2) ∧ m * 2 ^ (52 - m.log2) < 2 * leadingBit := by
  have hlow : 2 ^ m.log2 ≤ m := Nat.log2_self_le hm
  have hhigh : m < 2 ^ (m.log2 + 1) := Nat.lt_log2_self
  have hpower : 2 ^ m.log2 * 2 ^ (52 - m.log2) = leadingBit := by
    rw [← Nat.pow_add, Nat.add_sub_cancel' hlog]
    rfl
  rw [← hpower, ← Nat.mul_assoc, ← Nat.pow_succ']
  exact ⟨Nat.mul_le_mul_right _ hlow, Nat.mul_lt_mul_of_pos_right hhigh (by positivity)⟩

/-- Numbers of at most 53 bits are divided exactly by powers of two, as long as the answer is
    normal and less than two. -/
theorem ofRatio_two_pow (negative : Bool) {m k : Nat} (hm : m ≠ 0) (hlog : m.log2 ≤ 52)
    (hk : m.log2 ≤ k) (hnormal : k ≤ m.log2 + 1022) :
    ofRatio negative m (Nat.pow 2 k) =
      ofFields negative
        ((m.log2 + 1023 - k) * leadingBit + (m * 2 ^ (52 - m.log2) - leadingBit)) := by
  obtain ⟨hlead, hfits⟩ := leadingBit_le_shift hm hlog
  have hscale : max ((m.log2 : Int) - k - 52) (-1074) = (m.log2 : Int) - k - 52 := by omega
  have hshift : (-((m.log2 : Int) - k - 52)).toNat = (52 - m.log2) + k := by omega
  have hunits : roundDiv (m * Nat.pow 2 ((52 - m.log2) + k)) (Nat.pow 2 k) =
      m * 2 ^ (52 - m.log2) := by
    have hsplit : m * Nat.pow 2 ((52 - m.log2) + k) = m * 2 ^ (52 - m.log2) * Nat.pow 2 k := by
      show m * 2 ^ ((52 - m.log2) + k) = m * 2 ^ (52 - m.log2) * 2 ^ k
      rw [Nat.pow_add, Nat.mul_assoc]
    rw [hsplit]
    exact roundDiv_mul (Nat.two_pow_pos k)
  have hfield : ((m.log2 : Int) - k - 52 + 1074).toNat = m.log2 + 1022 - k := by omega
  -- The leading bit carries into the exponent field, and no further than that.
  have hcarry : (m.log2 + 1022 - k) * leadingBit + m * 2 ^ (52 - m.log2) =
      (m.log2 + 1023 - k) * leadingBit + (m * 2 ^ (52 - m.log2) - leadingBit) := by
    have hnext : m.log2 + 1023 - k = m.log2 + 1022 - k + 1 := by omega
    rw [hnext, Nat.add_mul]
    omega
  have hfinite : (m.log2 + 1022 - k) * leadingBit + m * 2 ^ (52 - m.log2) ≤ infinityBits := by
    calc (m.log2 + 1022 - k) * leadingBit + m * 2 ^ (52 - m.log2)
        ≤ (m.log2 + 1022 - k) * leadingBit + 2 * leadingBit := Nat.add_le_add_left hfits.le _
      _ = (m.log2 + 1022 - k + 2) * leadingBit := (Nat.add_mul _ _ _).symm
      _ ≤ infinityBits := Nat.mul_le_mul_right _ (by omega)
  unfold ofRatio
  simp only [floorLog2_two_pow hm, hscale, hshift, hunits, hfield]
  rw [if_neg hm, if_neg (show ¬ (0 : Int) ≤ (m.log2 : Int) - k - 52 by omega),
    Nat.min_eq_left hfinite, hcarry]

/-- A subnormal single and the double that it becomes are of the same magnitude. -/
theorem magnitude_subnormal {m : Nat} (hm : m ≠ 0) (hlog : m.log2 < 23) :
    FloatFormat.binary64.magnitude (m.log2 + 874) (m * 2 ^ (52 - m.log2) - leadingBit) =
      FloatFormat.binary32.magnitude 0 m := by
  obtain ⟨hlead, -⟩ := leadingBit_le_shift hm (by omega)
  have hunits : FloatFormat.binary64.units (m.log2 + 874)
      (m * 2 ^ (52 - m.log2) - leadingBit) = m * 2 ^ (52 - m.log2 + (m.log2 + 873)) := by
    have hsignificand : 2 ^ FloatFormat.binary64.fractionBits +
        (m * 2 ^ (52 - m.log2) - leadingBit) = m * 2 ^ (52 - m.log2) := by
      have hplace : 2 ^ FloatFormat.binary64.fractionBits = leadingBit := by decide
      rw [hplace]
      omega
    have hpred : m.log2 + 874 - 1 = m.log2 + 873 := by omega
    unfold FloatFormat.units
    rw [if_neg (by omega), hsignificand, hpred, Nat.mul_assoc, ← Nat.pow_add]
  have hsingle : FloatFormat.binary32.units 0 m = m := rfl
  -- The least double is finer than the least single by 925 powers of two.
  have hexponent : ((52 - m.log2 + (m.log2 + 873) : ℕ) : ℤ) +
      (1 - FloatFormat.binary64.bias - FloatFormat.binary64.fractionBits) =
        1 - FloatFormat.binary32.bias - FloatFormat.binary32.fractionBits := by
    have hdouble : (FloatFormat.binary64.bias : ℤ) + FloatFormat.binary64.fractionBits = 1075 :=
      rfl
    have hsingle : (FloatFormat.binary32.bias : ℤ) + FloatFormat.binary32.fractionBits = 150 :=
      rfl
    omega
  rw [FloatFormat.magnitude_eq_units, FloatFormat.magnitude_eq_units, hunits, hsingle,
    Nat.cast_mul, mul_assoc, Nat.cast_pow, Nat.cast_ofNat, ← zpow_natCast,
    ← zpow_add₀ (by norm_num), hexponent]

/-- A normal single and the double that it becomes are of the same magnitude. -/
theorem magnitude_normal {e m : Nat} (he : e ≠ 0) :
    FloatFormat.binary64.magnitude (e + 896) (m * 0x20000000) =
      FloatFormat.binary32.magnitude e m := by
  unfold FloatFormat.magnitude
  rw [if_neg (by omega), if_neg he]
  have hexponent : ((e + 896 : ℕ) - FloatFormat.binary64.bias : ℤ) =
      e - FloatFormat.binary32.bias := by
    have hdouble : FloatFormat.binary64.bias = 1023 := rfl
    have hsingle : FloatFormat.binary32.bias = 127 := rfl
    omega
  have hfraction : ((m * 0x20000000 : ℕ) : ℚ) / 2 ^ FloatFormat.binary64.fractionBits =
      m / 2 ^ FloatFormat.binary32.fractionBits := by
    simp only [FloatFormat.binary64, FloatFormat.binary32]
    push_cast
    ring
  rw [hexponent, hfraction]

/-- Widening keeps the value.

    Four kinds of singles go different ways. Infinities and NaNs keep their fraction, zeros their
    sign, normal numbers their fields with another bias; a subnormal number is divided out, and
    becomes a normal double. -/
theorem value_ofBinary32 {n : Nat} (hn : n < 2 ^ 32) :
    (ofBinary32 n).value = FloatFormat.binary32.value n := by
  have hsign : FloatFormat.binary32.negative n = decide (0x80000000 ≤ n) := by
    unfold FloatFormat.negative FloatFormat.binary32
    rw [decide_eq_decide]
    dsimp only
    omega
  have hexponent : FloatFormat.binary32.exponent n = n / 0x800000 % 256 := rfl
  have hfraction : FloatFormat.binary32.fraction n = n % 0x800000 := rfl
  have hm : n % 0x800000 < 2 ^ 23 := Nat.mod_lt _ (by omega)
  have he : n / 0x800000 % 256 < 256 := Nat.mod_lt _ (by omega)
  have hwide : n % 0x800000 * 0x20000000 < leadingBit := by
    unfold leadingBit
    omega
  unfold FloatFormat.value ofBinary32
  rw [hsign, hexponent, hfraction]
  dsimp only
  generalize decide (0x80000000 ≤ n) = negative
  generalize n % 0x800000 = m at hm hwide
  generalize n / 0x800000 % 256 = e at he
  by_cases hgreatest : e = 255
  · -- Infinities and NaNs keep what tells them apart.
    subst hgreatest
    rw [if_pos rfl, infinityBits, value_ofFields negative (by omega) hwide]
    by_cases hzero : m = 0
    · subst hzero
      rfl
    · simp [FloatFormat.valueOf, FloatFormat.binary32, FloatFormat.binary64, hzero]
  rw [if_neg hgreatest]
  have hfinite : FloatFormat.binary32.valueOf negative e m =
      .finite negative (FloatFormat.binary32.magnitude e m) := if_neg hgreatest
  rw [hfinite]
  by_cases hleast : e = 0
  · subst hleast
    rw [if_pos rfl]
    by_cases hzero : m = 0
    · -- Zero keeps its sign.
      subst hzero
      have hvalue :=
        value_ofFields negative (show 0 < 2048 by omega) (show 0 < leadingBit by decide)
      refine hvalue.trans (congrArg (FloatValue.finite negative) ?_)
      simp [FloatFormat.magnitude]
    · have hlog : m.log2 < 23 := (Nat.log2_lt hzero).2 hm
      obtain ⟨hlead, hfits⟩ := leadingBit_le_shift hzero (by omega)
      have hexponent' : m.log2 + 1023 - 149 = m.log2 + 874 := by omega
      rw [ofRatio_two_pow negative hzero (by omega) (by omega) (by omega), hexponent',
        value_ofFields negative (by omega) (by omega), ← magnitude_subnormal hzero hlog]
      exact if_neg (show m.log2 + 874 ≠ 2047 by omega)
  · rw [if_neg hleast, value_ofFields negative (by omega) hwide, ← magnitude_normal hleast]
    exact if_neg (show e + 896 ≠ 2047 by omega)

end Binary64

end ChainGuest
