import Mathlib
import ChainGuest.Number.Text
import ChainGuest.Proofs.Json.NumberToken

/-! # Texts of numbers are tokens

    Whatever finite number is written, in whichever style, its text is a token in the grammar
    of numbers (`NumberStyle.text_token`).

    The only digits that could be wrong are those of a zero, with other zeros behind it. But
    the search for the shortest digits finds some: its last grid is so fine that a point of it
    lies next to the number (`Shortest.onGrid?_last`), and zero never reads back.
-/

namespace ChainGuest

open Json

/-! ## Section 1: Decimal digits -/

/-- What is written of a number are digits, and at least one. -/
theorem decimalDigits_isDigits (n : Nat) : IsDigits (decimalDigits n) :=
  ⟨Nat.toDigits_ne_nil, fun _ hc => Nat.isDigit_of_mem_toDigits (by decide) (by decide) hc⟩

/-- Only zero is written as a zero. -/
theorem digitChar_ne_zero {n : Nat} (hpos : n ≠ 0) (hn : n < 10) : Nat.digitChar n ≠ '0' := by
  interval_cases n <;> first | exact absurd rfl hpos | decide

/-- The digits of a number that is not zero do not start with zero. -/
theorem head?_decimalDigits {n : Nat} (hn : n ≠ 0) : (decimalDigits n).head? ≠ some '0' := by
  -- On the number: its first digit is that of its quotient by the base.
  induction n using Nat.strong_induction_on with
  | _ n ih =>
    unfold decimalDigits at ih ⊢
    rw [Nat.toDigits_eq_if (by decide)]
    by_cases hsmall : n < 10
    · rw [if_pos hsmall]
      intro hzero
      exact digitChar_ne_zero hn hsmall (by simpa using hzero)
    · rw [if_neg hsmall, List.head?_append_of_ne_nil _ Nat.toDigits_ne_nil]
      exact ih (n / 10) (by omega) (by omega)

/-- The digits of a number that is not zero, perhaps with zeros behind them. -/
theorem decimalDigits_append_isWhole {n : Nat} (hn : n ≠ 0) (zeros : Nat) :
    IsWhole (decimalDigits n ++ List.replicate zeros '0') := by
  obtain ⟨hne, hall⟩ := decimalDigits_isDigits n
  refine ⟨⟨by simp [hne], ?_⟩, ?_⟩
  · intro c hc
    rcases List.mem_append.1 hc with hc | hc
    · exact hall c hc
    · obtain ⟨-, rfl⟩ := List.mem_replicate.1 hc
      decide
  · intro _
    rw [List.head?_append_of_ne_nil _ hne]
    exact head?_decimalDigits hn

/-- The digits of a number are a whole part. -/
theorem decimalDigits_isWhole (n : Nat) : IsWhole (decimalDigits n) := by
  by_cases hn : n = 0
  · subst hn
    exact ⟨decimalDigits_isDigits 0, by decide⟩
  · have hwhole := decimalDigits_append_isWhole hn 0
    rwa [List.replicate_zero, List.append_nil] at hwhole

/-! ## Section 2: The search finds digits -/

/-- Powers compare as their bases do, if the exponents make up for it. -/
theorem pow_le_pow_of_bases {a b r s i j : Nat} (hbase : a ^ r ≤ b ^ s) (hb : 0 < b) (hr : r ≠ 0)
    (hij : s * i ≤ r * j) : a ^ i ≤ b ^ j := by
  have hpower : (a ^ i) ^ r ≤ (b ^ j) ^ r :=
    calc (a ^ i) ^ r = (a ^ r) ^ i := by rw [← Nat.pow_mul, ← Nat.pow_mul, Nat.mul_comm]
      _ ≤ (b ^ s) ^ i := Nat.pow_le_pow_left hbase i
      _ = b ^ (s * i) := (Nat.pow_mul ..).symm
      _ ≤ b ^ (r * j) := Nat.pow_le_pow_right hb hij
      _ = (b ^ j) ^ r := by rw [← Nat.pow_mul, Nat.mul_comm]
  exact (Nat.pow_le_pow_iff_left hr).1 hpower

namespace Shortest

variable {m : Nat} {q : Int}

/-- Both factors of a grid are products of powers, so neither is zero. -/
theorem factors_pos (q k : Int) : 0 < (factors q k).1 ∧ 0 < (factors q k).2 :=
  ⟨Nat.mul_pos (Nat.pow_pos (by decide)) (Nat.pow_pos (by decide)),
    Nat.mul_pos (Nat.pow_pos (by decide)) (Nat.pow_pos (by decide))⟩

/-- The last grid that is tried is finer than a quarter of the distance to the next number.

    Tens and twos are compared by powers close to each other (`2 ^ 93` and `10 ^ 28`, and `10 ^
    59` and `2 ^ 196`), which is enough for every exponent that a double may have. -/
theorem factors_last (hm : m < 2 ^ 53) (hm0 : m ≠ 0) (hlow : -1074 ≤ q) (hhigh : q ≤ 971) :
    (factors q (leadingExponent m q - 18)).1 ≤ (factors q (leadingExponent m q - 18)).2 := by
  have hlog : m.log2 < 53 := (Nat.log2_lt hm0).2 hm
  obtain ⟨k, hk⟩ : ∃ k, k = leadingExponent m q - 18 := ⟨_, rfl⟩
  have hupper : 100000 * (k + 17) ≤ (m.log2 + q) * 30103 := by
    unfold leadingExponent at hk
    rw [Int.fdiv_eq_ediv_of_nonneg _ (by omega)] at hk
    omega
  rw [← hk]
  unfold factors
  -- Whether tens are a factor or a divisor, the grid is compared with a power of two.
  by_cases hkneg : k < 0
  · have hten : k.toNat = 0 := by omega
    by_cases hq : 2 ≤ q
    · have htwo : (2 - q).toNat = 0 := by omega
      simp only [hten, htwo]
      exact Nat.mul_pos (Nat.pow_pos (by decide)) (Nat.pow_pos (by decide))
    · have htwo : (q - 2).toNat = 0 := by omega
      have hpower : 2 ^ (2 - q).toNat ≤ 10 ^ (-k).toNat :=
        pow_le_pow_of_bases (r := 93) (s := 28) (by norm_num) (by decide) (by decide) (by omega)
      simp only [hten, htwo]
      simpa using hpower
  · have hten : (-k).toNat = 0 := by omega
    have htwo : (2 - q).toNat = 0 := by omega
    have hpower : 10 ^ k.toNat ≤ 2 ^ (q - 2).toNat :=
      pow_le_pow_of_bases (r := 59) (s := 196) (by norm_num) (by decide) (by decide) (by omega)
    simp only [hten, htwo]
    simpa using hpower

/-- On a grid as fine as that, the point below the number reads back. -/
theorem readsBack_below {k : Int} (hm0 : m ≠ 0) (hfine : (factors q k).1 ≤ (factors q k).2) :
    readsBack m q k (4 * m * (factors q k).2 / (factors q k).1) = true := by
  obtain ⟨ha, hb⟩ := factors_pos q k
  unfold readsBack
  generalize factors q k = pair at *
  obtain ⟨a, b⟩ := pair
  dsimp only at ha hb hfine ⊢
  have hle : 4 * m * b / a * a ≤ 4 * m * b := Nat.div_mul_le_self _ _
  have hlt : 4 * m * b < 4 * m * b / a * a + a := Nat.lt_div_mul_add ha
  have hlow : lowEnd m q * b + b ≤ 4 * m * b := by
    have hend : lowEnd m q + 1 ≤ 4 * m := by
      unfold lowEnd
      split <;> omega
    rw [← Nat.succ_mul]
    exact Nat.mul_le_mul_right b hend
  have hhigh : (4 * m + 2) * b = 4 * m * b + 2 * b := Nat.add_mul _ _ _
  by_cases heven : m % 2 = 0
  · rw [if_pos heven, Bool.and_eq_true, decide_eq_true_eq, decide_eq_true_eq]
    omega
  · rw [if_neg heven, Bool.and_eq_true, decide_eq_true_eq, decide_eq_true_eq]
    omega

/-- Zero does not read back. -/
theorem readsBack_zero {k : Int} (hm0 : m ≠ 0) : readsBack m q k 0 = false := by
  have hlow : 0 < lowEnd m q * (factors q k).2 := by
    apply Nat.mul_pos _ (factors_pos q k).2
    unfold lowEnd
    split <;> omega
  unfold readsBack
  simp only [Nat.zero_mul]
  split
  · simp [hlow.not_ge]
  · simp

/-- What is found on a grid is not zero: of the two points next to the number, the lower one is
    only taken if it reads back, and zero does not. -/
theorem onGrid?_ne_zero {k : Int} {d : Nat} (hm0 : m ≠ 0) (h : onGrid? m q k = some d) :
    d ≠ 0 := by
  have hbelow {d : Nat} (hreads : readsBack m q k d = true) : d ≠ 0 := by
    intro hzero
    rw [hzero, readsBack_zero hm0] at hreads
    exact absurd hreads (by decide)
  unfold onGrid? at h
  dsimp only at h
  split at h
  · next hreads _ =>
    obtain rfl := Option.some.inj h
    exact hbelow hreads
  · obtain rfl := Option.some.inj h
    exact Nat.succ_ne_zero _
  · exact absurd h (by simp)
  · next hreads _ =>
    have hpos := hbelow hreads
    split_ifs at h
    · obtain rfl := Option.some.inj h
      exact hpos
    · obtain rfl := Option.some.inj h
      exact Nat.succ_ne_zero _
    · obtain rfl := Option.some.inj h
      exact fun hzero => hpos (Nat.add_eq_zero_iff.1 hzero).1

/-- On the last grid a point is found. -/
theorem onGrid?_last (hm : m < 2 ^ 53) (hm0 : m ≠ 0) (hlow : -1074 ≤ q) (hhigh : q ≤ 971) :
    onGrid? m q (leadingExponent m q - 18) ≠ none := by
  have hreads := readsBack_below hm0 (factors_last hm hm0 hlow hhigh)
  intro hnone
  unfold onGrid? at hnone
  dsimp only at hnone
  rw [hreads] at hnone
  split at hnone
  · exact absurd hnone (by simp)
  · next hfalse _ => exact absurd hfalse (by simp)
  · next hfalse _ => exact absurd hfalse (by simp)
  · split_ifs at hnone

/-- If the last grid has a point that reads back, then some grid has one, and it is not zero. -/
theorem search_digits_ne_zero (hm0 : m ≠ 0) (tries : Nat) (k : Int)
    (hlast : onGrid? m q (k - tries) ≠ none) : (search m q tries k).digits ≠ 0 := by
  -- On the tries that are left, from any grid: each failure moves on to the next finer one.
  induction tries generalizing k with
  | zero =>
    have hk : k - (0 : Nat) = k := by omega
    rw [hk] at hlast
    obtain ⟨d, hd⟩ := Option.ne_none_iff_exists'.1 hlast
    unfold search
    rw [hd]
    exact onGrid?_ne_zero hm0 hd
  | succ tries ih =>
    unfold search
    cases hd : onGrid? m q k with
    | some d => exact onGrid?_ne_zero hm0 hd
    | none =>
      apply ih
      have hk : k - 1 - tries = k - (tries + 1 : Nat) := by omega
      rwa [hk]

end Shortest

/-- The shortest digits of a number that is not zero are not zero. -/
theorem shortestDecimal_digits_ne_zero {m : Nat} {q : Int} (hm : m < 2 ^ 53) (hm0 : m ≠ 0)
    (hlow : -1074 ≤ q) (hhigh : q ≤ 971) : (shortestDecimal m q).digits ≠ 0 :=
  Shortest.search_digits_ne_zero hm0 18 _ (Shortest.onGrid?_last hm hm0 hlow hhigh)

/-! ## Section 3: Texts -/

namespace Decimal

/-- Digits that are not zero are a number without a sign, wherever the point stands. -/
theorem positional_isMagnitude {d : Decimal} (hd : d.digits ≠ 0) : IsMagnitude d.positional := by
  obtain ⟨hne, hall⟩ := decimalDigits_isDigits d.digits
  unfold positional
  dsimp only
  split_ifs with hexponent hleading
  · -- All digits stand before the point, and zeros up to it.
    have hmagnitude := IsMagnitude.mk (decimalDigits_append_isWhole hd d.exponent.toNat)
      (.some (decimalDigits_isDigits 0)) .none
    rwa [List.append_nil] at hmagnitude
  · -- The point stands among the digits.
    have hfewer : d.leading.toNat + 1 < (decimalDigits d.digits).length := by
      unfold leading at hleading ⊢
      omega
    have hwhole : IsWhole ((decimalDigits d.digits).take (d.leading.toNat + 1)) := by
      refine ⟨⟨?_, fun c hc => hall c (List.mem_of_mem_take hc)⟩, fun _ => ?_⟩
      · simp [hne]
      · rw [List.head?_take, if_neg (Nat.succ_ne_zero _)]
        exact head?_decimalDigits hd
    have hfraction : IsDigits ((decimalDigits d.digits).drop (d.leading.toNat + 1)) := by
      refine ⟨?_, fun c hc => hall c (List.mem_of_mem_drop hc)⟩
      rw [Ne, List.drop_eq_nil_iff]
      omega
    have hmagnitude := IsMagnitude.mk hwhole (.some hfraction) .none
    rwa [List.append_nil] at hmagnitude
  · -- The point stands before all digits.
    have hfraction : IsDigits
        (List.replicate (-d.leading - 1).toNat '0' ++ decimalDigits d.digits) := by
      refine ⟨by simp [hne], ?_⟩
      intro c hc
      rcases List.mem_append.1 hc with hc | hc
      · obtain ⟨-, rfl⟩ := List.mem_replicate.1 hc
        decide
      · exact hall c hc
    have hmagnitude := IsMagnitude.mk (decimalDigits_isWhole 0) (.some hfraction) .none
    rwa [List.append_nil] at hmagnitude

/-- Digits with an exponent are a number without a sign. -/
theorem scientific_isMagnitude (d : Decimal) : IsMagnitude d.scientific := by
  have hall := (decimalDigits_isDigits d.digits).2
  have hexponent : IsExponent ('e' :: (if 0 ≤ d.leading then '+' else '-') ::
      decimalDigits d.leading.natAbs) := by
    have hdigits := decimalDigits_isDigits d.leading.natAbs
    by_cases hleading : 0 ≤ d.leading
    · rw [if_pos hleading]
      exact .some (.inl rfl) (.inr (.inl rfl)) hdigits
    · rw [if_neg hleading]
      exact .some (.inl rfl) (.inr (.inr rfl)) hdigits
  unfold scientific
  dsimp only
  split
  · next first second more heq =>
    have hfirst : IsWhole [first] :=
      ⟨⟨by simp, fun c hc => hall c (by rw [heq]; simp_all)⟩, by simp⟩
    have hfraction : IsDigits (second :: more) :=
      ⟨by simp, fun c hc => hall c (by rw [heq]; exact List.mem_cons_of_mem _ hc)⟩
    exact IsMagnitude.mk hfirst (.some hfraction) hexponent
  · have hmagnitude := IsMagnitude.mk (decimalDigits_isWhole d.digits) .none hexponent
    rwa [List.append_nil] at hmagnitude

end Decimal

namespace Binary64

/-- A significand has 53 bits at most. -/
theorem significand_lt (x : Binary64) : x.significand < 2 ^ 53 := by
  have hfraction : x.fractionField < leadingBit := Nat.mod_lt _ (by decide)
  unfold significand
  unfold leadingBit at *
  split <;> omega

/-- The scale of a finite double is that of one of its exponents. -/
theorem scale_bounds {x : Binary64} (h : x.isFinite = true) : -1074 ≤ x.scale ∧ x.scale ≤ 971 := by
  have hfield : x.exponentField < 2047 := by simpa [isFinite] using h
  unfold scale
  split <;> omega

end Binary64

namespace NumberStyle

/-- The forms of a text: all digits of an integer below the bound, zero, and the shortest digits
    of any other number, positional or scientific. -/
theorem magnitudeText_cases (style : NumberStyle) (x : Binary64) :
    (∃ n, style.magnitudeText x = decimalDigits n ++ ['.', '0']) ∨
      x.significand ≠ 0 ∧
        (style.magnitudeText x = (shortestDecimal x.significand x.scale).positional ∨
          style.magnitudeText x = (shortestDecimal x.significand x.scale).scientific) := by
  have hshort : ∀ text : List Char, text = (if x.significand = 0 then ['0', '.', '0']
      else
        let d := shortestDecimal x.significand x.scale
        if style.leastPositional ≤ d.leading ∧ d.leading < style.beyondPositional then d.positional
        else d.scientific) →
      (∃ n, text = decimalDigits n ++ ['.', '0']) ∨
        x.significand ≠ 0 ∧ (text = (shortestDecimal x.significand x.scale).positional ∨
          text = (shortestDecimal x.significand x.scale).scientific) := by
    intro text htext
    by_cases hzero : x.significand = 0
    · rw [if_pos hzero] at htext
      exact .inl ⟨0, htext⟩
    · rw [if_neg hzero] at htext
      dsimp only at htext
      split at htext
      · exact .inr ⟨hzero, .inl htext⟩
      · exact .inr ⟨hzero, .inr htext⟩
  unfold magnitudeText
  dsimp only
  cases x.integral? with
  | none => exact hshort _ rfl
  | some n =>
    by_cases hn : n < style.exactBelow
    · simp only [if_pos hn]
      exact .inl ⟨n, rfl⟩
    · simp only [if_neg hn]
      exact hshort _ rfl

theorem magnitudeText_isMagnitude (style : NumberStyle) {x : Binary64} (h : x.isFinite = true) :
    IsMagnitude (style.magnitudeText x) := by
  rcases style.magnitudeText_cases x with ⟨n, htext⟩ | ⟨hzero, htext | htext⟩
  · have hmagnitude := IsMagnitude.mk (decimalDigits_isWhole n)
      (.some (decimalDigits_isDigits 0)) .none
    rw [List.append_nil] at hmagnitude
    exact htext ▸ hmagnitude
  · have hdigits : (shortestDecimal x.significand x.scale).digits ≠ 0 :=
      shortestDecimal_digits_ne_zero x.significand_lt hzero (Binary64.scale_bounds h).1
        (Binary64.scale_bounds h).2
    rw [htext]
    exact Decimal.positional_isMagnitude hdigits
  · rw [htext]
    exact Decimal.scientific_isMagnitude _

/-- Every finite number is written as a token, in every style.

    What could go wrong are leading zeros. Integers below the bound do not have any, and the
    shortest digits do not, because they are those of a number that is not zero. -/
theorem text_token (style : NumberStyle) {x : Binary64} (h : x.isFinite = true) :
    NumberToken (style.text x) := by
  unfold text
  split
  · exact .minus (style.magnitudeText_isMagnitude h)
  · exact .plain (style.magnitudeText_isMagnitude h)

end NumberStyle

end ChainGuest
