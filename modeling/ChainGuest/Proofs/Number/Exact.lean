import Mathlib
import ChainGuest.Incident
import ChainGuest.Json.Number
import ChainGuest.Proofs.Number.Digits
import ChainGuest.Proofs.Number.Widening

/-! # Integers are written exactly

    What the text of a double is depends on what the double stands for: integers up to a bound
    are written with all their digits, and every other finite number with a point or an exponent
    (`Binary64.WrittenAs`). Whether a double is an integer is found by dividing, and the quotient
    is its value, because a finite double is its significand scaled by a power of two
    (`Binary64.value_of_isFinite`).

    So an integer is read back from its digits alone (`Binary64.WrittenAs.exactValue_eq`), and a
    reader who tells integers from other numbers by their looks takes none for an integer
    (`Binary64.WrittenAs.not_bareInteger`).
-/

namespace ChainGuest

open Json

/-! ## Section 1: The value of a double -/

namespace Binary64

/-- The denominator of a double is not zero. -/
theorem ratio_pos (x : Binary64) : 0 < x.ratio.2 := by
  unfold ratio
  split
  · exact Nat.one_pos
  · exact Nat.two_pow_pos _

/-- The quotient is the scaled significand. -/
theorem ratio_eq (x : Binary64) : (x.ratio.1 : ℚ) / x.ratio.2 = x.significand * 2 ^ x.scale := by
  unfold ratio
  -- A power of two is a factor of one of the two numbers, by its sign.
  by_cases hscale : 0 ≤ x.scale
  · obtain ⟨k, hk⟩ := Int.eq_ofNat_of_zero_le hscale
    rw [if_pos hscale, hk, Int.toNat_natCast, zpow_natCast]
    simp
  · obtain ⟨k, hk⟩ := Int.eq_ofNat_of_zero_le (by omega : 0 ≤ -x.scale)
    have hscale' : x.scale = -(k : ℤ) := by omega
    rw [if_neg hscale, hscale', neg_neg, Int.toNat_natCast, zpow_neg, zpow_natCast]
    simp [div_eq_mul_inv]

/-- The magnitude by the rule of the format is the quotient that is computed.

    The rule speaks of units of the least double, the quotient of a significand and a power of
    two. Both have the exponent field in two cases, and the subnormal ones agree at once. -/
theorem magnitude_eq_ratio (x : Binary64) :
    FloatFormat.binary64.magnitude x.exponentField x.fractionField =
      (x.ratio.1 : ℚ) / x.ratio.2 := by
  have hleast : (1 - FloatFormat.binary64.bias - FloatFormat.binary64.fractionBits : ℤ) = -1074 :=
    rfl
  rw [ratio_eq, FloatFormat.magnitude_eq_units, hleast]
  unfold FloatFormat.units significand scale
  by_cases hzero : x.exponentField = 0
  · have hscale : (1 - 1075 : ℤ) = -1074 := by decide
    rw [if_pos hzero, if_pos hzero, if_pos hzero, hscale]
  · have hscale : (x.exponentField - 1075 : ℤ) = (x.exponentField - 1 : ℕ) + (-1074 : ℤ) := by
      omega
    have hlead : 2 ^ FloatFormat.binary64.fractionBits = leadingBit := rfl
    rw [if_neg hzero, if_neg hzero, if_neg hzero, hscale, hlead, zpow_add₀ (by norm_num),
      zpow_natCast]
    generalize (2 : ℚ) ^ (-1074 : ℤ) = least
    push_cast
    ring

/-- A finite double stands for its sign and its quotient. -/
theorem value_of_isFinite {x : Binary64} (h : x.isFinite = true) :
    x.value = .finite x.isNegative ((x.ratio.1 : ℚ) / x.ratio.2) := by
  have hfield : x.exponentField < 2047 := of_decide_eq_true h
  have hgreatest : x.exponentField ≠ 2 ^ FloatFormat.binary64.exponentBits - 1 := by
    simp only [FloatFormat.binary64]
    omega
  rw [value_eq, FloatFormat.valueOf, if_neg hgreatest, magnitude_eq_ratio]

/-- No other double stands for a finite number. -/
theorem isFinite_of_value {x : Binary64} {negative : Bool} {magnitude : ℚ}
    (h : x.value = .finite negative magnitude) : x.isFinite = true := by
  have hfield : x.exponentField < 2048 := by
    have hbits : x.magnitudeBits < signBit := Nat.mod_lt _ (by decide)
    unfold exponentField leadingBit
    unfold signBit at hbits
    omega
  by_contra hfinite
  have hgreatest : x.exponentField = 2 ^ FloatFormat.binary64.exponentBits - 1 := by
    simp only [isFinite, decide_eq_true_eq] at hfinite
    simp only [FloatFormat.binary64]
    omega
  rw [value_eq, FloatFormat.valueOf, if_pos hgreatest] at h
  split at h <;> exact absurd h (by simp)

/-- The integers among the doubles are those that stand for one. -/
theorem integral?_eq_some_iff {x : Binary64} {n : Nat} :
    x.integral? = some n ↔ x.value = .finite x.isNegative n := by
  unfold integral?
  by_cases hfinite : x.isFinite = true
  · have hden : (x.ratio.2 : ℚ) ≠ 0 := Nat.cast_ne_zero.2 x.ratio_pos.ne'
    rw [if_pos hfinite, value_of_isFinite hfinite, FloatValue.finite.injEq, div_eq_iff hden]
    norm_cast
    simp only [true_and]
    -- Division without a remainder is what it means for the quotient to be a natural number.
    constructor
    · intro h
      split at h
      · next hmod =>
        rw [← Option.some.inj h]
        exact (Nat.div_mul_cancel (Nat.dvd_of_mod_eq_zero hmod)).symm
      · exact absurd h (by simp)
    · intro h
      rw [h, Nat.mul_mod_left, if_pos rfl, Nat.mul_div_cancel _ x.ratio_pos]
  · rw [if_neg hfinite]
    constructor
    · intro h
      exact absurd h (by simp)
    · intro h
      exact absurd (isFinite_of_value h) hfinite

end Binary64

/-! ## Section 2: Tokens -/

/-- A minus sign, or nothing. -/
def signChars (negative : Bool) : List Char := if negative then ['-'] else []

/-- What is written of a double, by what it stands for. -/
inductive Binary64.WrittenAs (x : Binary64) : Document → Prop where
  /-- A number that is not finite is null. -/
  | null (h : ∀ negative magnitude, x.value ≠ .finite negative magnitude) : WrittenAs x .null
  /-- An integer below the bound is its sign, its digits, and a zero behind a point. -/
  | integer {negative : Bool} {n : Nat} {digits : List Char}
      (h : x.value = .finite negative n) (hn : n < 10 ^ 21) (hw : IsWhole digits)
      (hv : decimalValue digits = n) :
      WrittenAs x (.number (signChars negative ++ digits ++ ['.', '0']))
  /-- Any other number is a token with a point or an exponent. -/
  | other {negative : Bool} {magnitude : ℚ} {text : List Char}
      (h : x.value = .finite negative magnitude) (hother : ∀ n : Nat, magnitude = n → 10 ^ 21 ≤ n)
      (htext : IsMagnitude text) (hmark : '.' ∈ text ∨ 'e' ∈ text) :
      WrittenAs x (.number (signChars negative ++ text))

namespace NumberStyle

/-- The text of a double is its sign, and the text of its magnitude. -/
theorem text_eq (style : NumberStyle) (x : Binary64) :
    style.text x = signChars x.isNegative ++ style.magnitudeText x := by
  unfold text signChars
  split <;> rfl

/-- An integer below the bound of a style is written with all its digits. -/
theorem magnitudeText_of_lt {style : NumberStyle} {x : Binary64} {n : Nat}
    (h : x.integral? = some n) (hn : n < style.exactBelow) :
    style.magnitudeText x = decimalDigits n ++ ['.', '0'] := by
  unfold magnitudeText
  simp only [h, if_pos hn]

/-- Every text has a point or an exponent. -/
theorem magnitudeText_mark (style : NumberStyle) (x : Binary64) :
    '.' ∈ style.magnitudeText x ∨ 'e' ∈ style.magnitudeText x := by
  rcases style.magnitudeText_cases x with ⟨n, htext⟩ | ⟨-, htext | htext⟩
  · rw [htext]
    exact .inl (by simp)
  · rw [htext, Decimal.positional]
    refine .inl ?_
    dsimp only
    split_ifs <;> simp
  · rw [htext, Decimal.scientific]
    exact .inr (by simp)

end NumberStyle

/-- Data writes its numbers like that: null if they are not finite, integers below the bound with
    all digits and a zero behind the point, and all else as a token with a point or an exponent. -/
theorem Datum.numberDocument_writtenAs (x : Binary64) : x.WrittenAs (numberDocument x) := by
  unfold numberDocument
  by_cases hfinite : x.isFinite = true
  · rw [if_pos hfinite, NumberStyle.text_eq]
    have hother (hlarge : ∀ n : Nat, x.integral? = some n → 10 ^ 21 ≤ n) :
        x.WrittenAs (.number (signChars x.isNegative ++
          NumberStyle.exactIntegers.magnitudeText x)) := by
      refine .other (Binary64.value_of_isFinite hfinite) ?_
        (NumberStyle.exactIntegers.magnitudeText_isMagnitude hfinite)
        (NumberStyle.exactIntegers.magnitudeText_mark x)
      intro n hn
      apply hlarge
      rw [Binary64.integral?_eq_some_iff, Binary64.value_of_isFinite hfinite, hn]
    -- Whether it is an integer below the bound decides how it is written.
    cases hintegral : x.integral? with
    | none => exact hother (by simp [hintegral])
    | some n =>
      by_cases hn : n < 10 ^ 21
      · have hbelow : n < NumberStyle.exactIntegers.exactBelow := hn
        rw [NumberStyle.magnitudeText_of_lt hintegral hbelow, ← List.append_assoc]
        exact .integer (Binary64.integral?_eq_some_iff.1 hintegral) hn (decimalDigits_isWhole n)
          (decimalValue_decimalDigits n)
      · refine hother fun m hm => ?_
        rw [hintegral, Option.some.injEq] at hm
        omega
  · rw [if_neg hfinite]
    exact .null fun negative magnitude h => hfinite (Binary64.isFinite_of_value h)

/-- The last double below the bound, and the bound, whose text is the shortest one. -/
example : Datum.numberDocument ⟨0xC44B1AE4D6E2EF4F⟩ = .number "-999999999999999868928.0".toList ∧
    Datum.numberDocument ⟨0x444B1AE4D6E2EF50⟩ = .number "1e+21".toList := by
  constructor <;> exact congrArg Json.number (by decide +kernel)

/-! ## Section 3: Reading back -/

/-- The number that a token spells, as an exact decimal: all digits before and behind the point,
    scaled by the exponent and by the number of digits behind the point. -/
def Json.Number.exactValue (token : List Char) : FloatValue :=
  let parts := partsOf token
  let fraction := parts.fraction.getD []
  .finite parts.minus (decimalValue (parts.whole ++ fraction) *
    10 ^ (parts.exponent.getD 0 - fraction.length))

/-- A token that looks like an integer: digits, perhaps behind a minus. -/
def Json.BareInteger (token : List Char) : Prop :=
  ∃ negative digits, token = signChars negative ++ digits ∧ IsDigits digits

/-- A zero behind digits is a factor of ten. -/
theorem decimalValue_append_zero (digits : List Char) :
    decimalValue (digits ++ ['0']) = decimalValue digits * 10 := by
  unfold decimalValue
  rw [List.map_append, List.reverse_append, List.map_singleton, List.reverse_singleton,
    List.singleton_append, Nat.ofDigits_cons]
  simp [Nat.mul_comm]

/-- A token without an exponent is taken apart at its point. -/
theorem partsOf_decimal (negative : Bool) {whole fraction : List Char} (hw : IsDigits whole)
    (hf : ∀ c ∈ fraction, c.isDigit = true) :
    Number.partsOf (signChars negative ++ whole ++ '.' :: fraction) =
      ⟨negative, whole, some fraction, none⟩ := by
  have htake : (whole ++ '.' :: fraction).takeWhile Char.isDigit = whole := by
    rw [List.takeWhile_append_of_pos hw.2]
    simp
  have hdrop : (whole ++ '.' :: fraction).dropWhile Char.isDigit = '.' :: fraction := by
    rw [List.dropWhile_append_of_pos hw.2]
    simp
  have htake' : fraction.takeWhile Char.isDigit = fraction := List.takeWhile_eq_self_iff.2 hf
  have hdrop' : fraction.dropWhile Char.isDigit = [] := List.dropWhile_eq_nil_iff.2 hf
  unfold Number.partsOf
  cases negative with
  | true => simp [signChars, htake, hdrop, htake', hdrop']
  | false =>
    -- A token without a sign begins with a digit.
    obtain ⟨c, cs, rfl, hc⟩ := hw.exists_head
    have hminus : c ≠ '-' := ne_of_isDigit hc (by decide)
    simp only [List.cons_append] at htake hdrop
    simp [signChars, hminus, htake, hdrop, htake', hdrop']

/-- An integer that is written with a zero behind a point is read back as it was. -/
theorem exactValue_integer (negative : Bool) {digits : List Char} (hw : IsWhole digits) :
    Number.exactValue (signChars negative ++ digits ++ ['.', '0']) =
      .finite negative (decimalValue digits) := by
  have hzero : ∀ c ∈ ['0'], c.isDigit = true := by simp
  have hscale : (10 : ℚ) ^ ((none : Option Int).getD 0 - (['0'].length : ℤ)) = 1 / 10 := by norm_num
  unfold Number.exactValue
  simp only [partsOf_decimal negative hw.1 hzero, Option.getD_some, decimalValue_append_zero]
  rw [hscale]
  push_cast
  congr 1
  ring

namespace Binary64.WrittenAs

variable {x y : Binary64} {token : List Char} {negative : Bool} {n : Nat}

/-- Integers below the bound are read back from their tokens.

    The token is read as an exact decimal. That this is the value of the double needs no rounding,
    because the digits are those of the integer and not the shortest ones. -/
theorem exactValue_eq (h : x.WrittenAs (.number token)) (hx : x.value = .finite negative n)
    (hn : n < 10 ^ 21) : Number.exactValue token = x.value := by
  cases h with
  | integer h _ hw hv => rw [exactValue_integer _ hw, hv, h]
  | other h hother _ _ =>
    rw [hx, FloatValue.finite.injEq] at h
    exact absurd (hother n h.2.symm) (by omega)

/-- Integers below the bound with the same token are the same, their signs included. -/
theorem unique {negative' : Bool} {n' : Nat} (h : x.WrittenAs (.number token))
    (h' : y.WrittenAs (.number token)) (hx : x.value = .finite negative n) (hn : n < 10 ^ 21)
    (hy : y.value = .finite negative' n') (hn' : n' < 10 ^ 21) : x = y := by
  have hvalue : x.value = y.value := (h.exactValue_eq hx hn).symm.trans (h'.exactValue_eq hy hn')
  rcases same_iff_value_eq.2 hvalue with heq | ⟨hnan, -⟩
  · exact heq
  · rw [value_eq_nan_iff.2 hnan] at hx
    exact absurd hx (by simp)

/-- No token looks like an integer. -/
theorem not_bareInteger (h : x.WrittenAs (.number token)) : ¬ BareInteger token := by
  intro hbare
  obtain ⟨negative, digits, hdigits, -, hall⟩ := hbare
  have hplain : ∀ c ∈ token, c = '-' ∨ c.isDigit = true := by
    intro c hc
    rw [hdigits] at hc
    rcases List.mem_append.1 hc with hc | hc
    · unfold signChars at hc
      split at hc
      · exact .inl (List.mem_singleton.1 hc)
      · exact absurd hc List.not_mem_nil
    · exact .inr (hall c hc)
  have hmark : '.' ∈ token ∨ 'e' ∈ token := by
    cases h with
    | integer => exact .inl (by simp)
    | other _ _ _ hmark =>
      exact hmark.imp (List.mem_append_right _) (List.mem_append_right _)
  rcases hmark with hmark | hmark
  · exact absurd (hplain '.' hmark) (by decide)
  · exact absurd (hplain 'e' hmark) (by decide)

end Binary64.WrittenAs

end ChainGuest
