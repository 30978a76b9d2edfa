import Mathlib
import ChainGuest.Proofs.Number.Text

/-! # Digits of numbers

    What is written of a number in a base are its digits (`toDigits_eq_digits`), and the number
    determines them up to the zeros they may begin with (`digits_ofDigits_reverse`). A number
    therefore has one decimal text (`eq_decimalDigits_iff`), and so has an integer
    (`decimalText_iff`).
-/

namespace ChainGuest

open Json

/-! ## Section 1: Any base -/

/-- What is written of a number are its digits in the base, the last one first. -/
theorem toDigits_eq_digits {b n : Nat} (hb : 1 < b) (hn : n ≠ 0) :
    Nat.toDigits b n = (Nat.digits b n).reverse.map Nat.digitChar := by
  -- On the number, by way of its quotient, which has one digit less.
  induction n using Nat.strong_induction_on with
  | _ n ih =>
    have hpos : 0 < n := Nat.pos_of_ne_zero hn
    rw [Nat.toDigits_eq_if hb, Nat.digits_def' hb hpos]
    by_cases hsmall : n < b
    · rw [if_pos hsmall, Nat.mod_eq_of_lt hsmall, Nat.div_eq_of_lt hsmall]
      simp
    · have hquotient : n / b ≠ 0 := (Nat.div_pos (Nat.le_of_not_lt hsmall) (by omega)).ne'
      rw [if_neg hsmall, ih (n / b) (Nat.div_lt_self hpos hb) hquotient]
      simp

/-- Zeros in front of other digits weigh nothing. -/
theorem ofDigits_dropZeros (b : Nat) (values : List Nat) :
    Nat.ofDigits b (values.dropWhile (· == 0)).reverse = Nat.ofDigits b values.reverse := by
  -- On the digits: a leading zero is dropped, and the first other digit ends the dropping.
  induction values with
  | nil => rfl
  | cons d values ih =>
    by_cases hd : d = 0
    · subst hd
      rw [List.dropWhile_cons_of_pos rfl, ih, List.reverse_cons, Nat.ofDigits_append_zero]
    · rw [List.dropWhile_cons_of_neg (by simpa using hd)]

/-- The digits behind the zeros are those of the number. -/
theorem digits_ofDigits_reverse {b : Nat} (hb : 1 < b) {values : List Nat}
    (h : ∀ d ∈ values, d < b) :
    Nat.digits b (Nat.ofDigits b values.reverse) = (values.dropWhile (· == 0)).reverse := by
  rw [← ofDigits_dropZeros]
  -- These are digits of the base, and the most significant one is not zero.
  apply Nat.digits_ofDigits b hb
  · intro d hd
    exact h d ((List.dropWhile_sublist _).mem (List.mem_reverse.1 hd))
  · intro hne
    have hhead := List.head_dropWhile_not (fun d => d == 0) (List.reverse_ne_nil_iff.1 hne)
    rw [List.getLast_reverse]
    simpa using hhead

/-! ## Section 2: Base 10 -/

/-- The number that decimal digits spell, most significant first. -/
def decimalValue (digits : List Char) : Nat :=
  Nat.ofDigits 10 (digits.map fun c => c.toNat - '0'.toNat).reverse

/-- The digit that is written for a value is worth this value. -/
theorem toNat_digitChar_sub {d : Nat} (h : d < 10) : (Nat.digitChar d).toNat - '0'.toNat = d := by
  interval_cases d <;> rfl

/-- A digit is worth less than the base, and is the one that is written for its value. -/
theorem digitChar_of_isDigit {c : Char} (h : c.isDigit = true) :
    c.toNat - '0'.toNat < 10 ∧ Nat.digitChar (c.toNat - '0'.toNat) = c := by
  have hrange : 48 ≤ c.toNat ∧ c.toNat ≤ 57 := by
    simpa [Char.isDigit, UInt32.le_iff_toNat_le] using h
  obtain ⟨hlow, hhigh⟩ := hrange
  have htable : ∀ m < 58, 48 ≤ m → m - '0'.toNat < 10 ∧
      Nat.digitChar (m - '0'.toNat) = Char.ofNat m := by decide
  have hc := htable c.toNat (by omega) hlow
  rwa [Char.ofNat_toNat] at hc

/-- The digits of a number spell the number. -/
theorem decimalValue_decimalDigits (n : Nat) : decimalValue (decimalDigits n) = n := by
  by_cases hn : n = 0
  · subst hn
    rfl
  · have hvalues : ((Nat.digits 10 n).reverse.map Nat.digitChar).map
        (fun c => c.toNat - '0'.toNat) = (Nat.digits 10 n).reverse := by
      rw [List.map_map, List.map_congr_left (g := id), List.map_id]
      intro d hd
      exact toNat_digitChar_sub (Nat.digits_lt_base (by decide) (List.mem_reverse.1 hd))
    unfold decimalValue decimalDigits
    rw [toDigits_eq_digits (by decide) hn, hvalues, List.reverse_reverse, Nat.ofDigits_digits]

/-- The digits of a number are the whole part that spells it.

    So among all lists of characters there is one for each number: digits that do not begin with a
    zero unless it is the only one, and whose value is the number. -/
theorem eq_decimalDigits_iff {digits : List Char} {n : Nat} :
    digits = decimalDigits n ↔ IsWhole digits ∧ decimalValue digits = n := by
  constructor
  · rintro rfl
    exact ⟨decimalDigits_isWhole n, decimalValue_decimalDigits n⟩
  · rintro ⟨⟨⟨hne, hall⟩, hzero⟩, rfl⟩
    let values := digits.map fun c => c.toNat - '0'.toNat
    have hlt : ∀ d ∈ values, d < 10 := by
      intro d hd
      obtain ⟨c, hc, rfl⟩ := List.mem_map.1 hd
      exact (digitChar_of_isDigit (hall c hc)).1
    have hchars : values.map Nat.digitChar = digits := by
      rw [List.map_map, List.map_congr_left (g := id), List.map_id]
      intro c hc
      exact (digitChar_of_isDigit (hall c hc)).2
    have hdigits : Nat.digits 10 (decimalValue digits) = (values.dropWhile (· == 0)).reverse :=
      digits_ofDigits_reverse (by decide) hlt
    obtain ⟨c, cs, rfl⟩ := List.exists_cons_of_ne_nil hne
    by_cases hc : c = '0'
    · -- The only digits that begin with a zero are those of zero.
      subst hc
      have hnil : cs = [] := by
        by_contra hcs
        have hlength : 1 < ('0' :: cs).length := by
          have := List.length_pos_of_ne_nil hcs
          simpa using this
        exact hzero hlength rfl
      subst hnil
      rfl
    · have hfirst : ¬ (c.toNat - '0'.toNat == 0) = true := by
        intro hvalue
        have hchar := (digitChar_of_isDigit (hall c List.mem_cons_self)).2
        rw [beq_iff_eq.1 hvalue] at hchar
        exact hc hchar.symm
      have hvalues : values.dropWhile (· == 0) = values := List.dropWhile_cons_of_neg hfirst
      rw [hvalues] at hdigits
      have hn : decimalValue (c :: cs) ≠ 0 := by
        rw [← Nat.digits_ne_nil_iff_ne_zero (b := 10), hdigits]
        simp [values]
      unfold decimalDigits
      rw [toDigits_eq_digits (by decide) hn, hdigits, List.reverse_reverse, hchars]

/-- The decimal texts of an integer: a minus sign if it is negative, and the digits of its
    magnitude, which do not begin with a zero unless it is the only one. -/
inductive DecimalText : String → Int → Prop where
  | mk {z : Int} {digits : List Char} (hw : IsWhole digits)
      (hv : decimalValue digits = z.natAbs) :
      DecimalText ((if z < 0 then "-" else "") ++ String.ofList digits) z

/-- An integer has one decimal text. -/
theorem decimalText_iff {s : String} {z : Int} :
    DecimalText s z ↔
      s = (if z < 0 then "-" else "") ++ String.ofList (decimalDigits z.natAbs) := by
  constructor
  · rintro ⟨hw, hv⟩
    rw [eq_decimalDigits_iff.2 ⟨hw, hv⟩]
  · rintro rfl
    exact .mk (decimalDigits_isWhole _) (decimalValue_decimalDigits _)

end ChainGuest
