import Mathlib
import ChainGuest.Number.Word256
import ChainGuest.Proofs.Text.Hex

/-! # Hex text of words

    A text spells a number if it is at most one mark and one to 64 digits, and the number
    is what the digits weigh in base 16. These are the texts that are read as words of 256
    bits, and the number is the word: 64 digits do not overflow.
-/

namespace ChainGuest

open Hex

/-- The texts of a number: a mark or none, and one to 64 digits of either case. -/
inductive HexText : String → Nat → Prop where
  | mk {mark : String} {digits : List Char} {values : List Nat} (hm : mark ∈ marks)
      (hl : 1 ≤ digits.length) (hu : digits.length ≤ 64)
      (hd : List.Forall₂ IsDigit digits values) :
      HexText (mark ++ String.ofList digits) (Nat.ofDigits 16 values.reverse)

/-- Reading digits adds what they weigh below what was read before. -/
theorem foldlM_digit?_eq_some_iff {digits : List Char} {start n : Nat} :
    digits.foldlM (fun n c => (digit? c).map (n * 16 + ·)) start = some n ↔
      ∃ values, List.Forall₂ IsDigit digits values ∧
        n = start * 16 ^ values.length + Nat.ofDigits 16 values.reverse := by
  -- On the digits, for whatever was read before them.
  induction digits generalizing start with
  | nil =>
    constructor
    · intro h
      obtain rfl : start = n := by simpa using h
      exact ⟨[], .nil, by simp⟩
    · rintro ⟨values, hd, rfl⟩
      cases hd
      simp
  | cons c digits ih =>
    have hweight : ∀ d values, (start * 16 + d) * 16 ^ List.length values +
        Nat.ofDigits 16 values.reverse =
        start * 16 ^ (d :: values).length + Nat.ofDigits 16 (d :: values).reverse := by
      intro d values
      rw [List.reverse_cons, Nat.ofDigits_append, Nat.ofDigits_singleton, List.length_reverse,
        List.length_cons, Nat.pow_succ]
      ring
    -- The step goes from the first digit on, while the weights count from the last one.
    rw [List.foldlM_cons]
    constructor
    · intro h
      obtain ⟨m, hm, hrest⟩ := Option.bind_eq_some_iff.1 h
      obtain ⟨d, hd, rfl⟩ := Option.map_eq_some_iff.1 hm
      obtain ⟨values, hvalues, rfl⟩ := ih.1 hrest
      exact ⟨d :: values, .cons (digit?_eq_some_iff.1 hd) hvalues, hweight d values⟩
    · rintro ⟨values, hvalues, rfl⟩
      cases hvalues with
      | @cons _ d _ values hd hvalues =>
        rw [digit?_eq_some_iff.2 hd]
        exact ih.2 ⟨values, hvalues, (hweight d values).symm⟩

/-- Digits are read as what they weigh, if each of them is one. -/
theorem U256.ofHexDigits?_eq_some_iff {digits : List Char} {n : Nat} :
    U256.ofHexDigits? digits = some n ↔
      ∃ values, List.Forall₂ IsDigit digits values ∧ n = Nat.ofDigits 16 values.reverse := by
  unfold U256.ofHexDigits?
  rw [foldlM_digit?_eq_some_iff]
  simp

/-- The digits of a text are 64 at most, so what they weigh fits a word. -/
theorem HexText.lt {s : String} {n : Nat} (h : HexText s n) : n < 2 ^ 256 := by
  cases h with
  | @mk mark digits values hm hl hu hd =>
    have hvalues : ∀ d ∈ values.reverse, d < 16 := fun d hmem =>
      (digits_of_forall₂ hd).2 d (List.mem_reverse.1 hmem)
    calc Nat.ofDigits 16 values.reverse
        < 16 ^ values.reverse.length := Nat.ofDigits_lt_base_pow_length (by decide) hvalues
      _ ≤ 16 ^ 64 := by
          apply Nat.pow_le_pow_right (by decide)
          rw [List.length_reverse, ← hd.length_eq]
          exact hu
      _ = 2 ^ 256 := by decide

/-- A text is read as a word if and only if it spells the word.

    The reader builds the word modulo its size. This is no loss, since 64 digits at most weigh
    less than that. -/
theorem U256.ofHex_eq_ok_iff {s : String} {u : U256} :
    U256.ofHex s = .ok u ↔ HexText s u.toNat := by
  unfold U256.ofHex
  simp only [Bool.or_eq_true, List.isEmpty_iff, decide_eq_true_eq]
  constructor
  · intro h
    by_cases hlength : dropMark s.toList = [] ∨ 64 < (dropMark s.toList).length
    · rw [if_pos hlength] at h
      exact absurd h (by simp)
    rw [if_neg hlength] at h
    cases hn : U256.ofHexDigits? (dropMark s.toList) with
    | none =>
      rw [hn] at h
      exact absurd h (by simp)
    | some n =>
      rw [hn] at h
      obtain rfl : BitVec.ofNat 256 n = u := by simpa using h
      obtain ⟨values, hd, rfl⟩ := U256.ofHexDigits?_eq_some_iff.1 hn
      obtain ⟨mark, hm, hs⟩ := exists_mark s.toList
      -- The text is its mark and what is left without it.
      have htext : HexText (mark ++ String.ofList (dropMark s.toList))
          (Nat.ofDigits 16 values.reverse) := by
        refine .mk hm ?_ ?_ hd
        · exact List.length_pos_iff.2 fun hnil => hlength (.inl hnil)
        · exact Nat.le_of_not_lt fun hlong => hlength (.inr hlong)
      rw [BitVec.toNat_ofNat, Nat.mod_eq_of_lt htext.lt]
      have hwhole : mark ++ String.ofList (dropMark s.toList) = s := by
        rw [← String.toList_inj, String.toList_append, String.toList_ofList, ← hs]
      rwa [hwhole] at htext
  · intro h
    generalize hn : u.toNat = n at h
    cases h with
    | @mk mark digits values hm hl hu hd =>
      have hdrop : dropMark (mark ++ String.ofList digits).toList = digits := by
        rw [String.toList_append, String.toList_ofList]
        exact dropMark_append hm (digits_of_forall₂ hd).1
      have hlength : ¬ (digits = [] ∨ 64 < digits.length) := by
        rintro (rfl | hlong)
        · exact absurd hl (by simp)
        · omega
      rw [hdrop, if_neg hlength, U256.ofHexDigits?_eq_some_iff.2 ⟨values, hd, rfl⟩, ← hn]
      simp

/-- The pattern of a signed word is spelled as an unsigned one. -/
theorem I256.ofHex_eq_ok_iff {s : String} {x : I256} :
    I256.ofHex s = .ok x ↔ HexText s x.bits.toNat := by
  rw [← U256.ofHex_eq_ok_iff]
  unfold I256.ofHex
  cases U256.ofHex s with
  | error e => simp [Except.map]
  | ok u =>
    obtain ⟨bits⟩ := x
    simp [Except.map]

/-- A character takes four bytes at most. -/
theorem utf8Len_le (cs : List Char) : String.utf8Len cs ≤ 4 * cs.length := by
  induction cs with
  | nil => simp
  | cons c cs ih =>
    have hc : c.utf8Size ≤ 4 := c.utf8Size_le_four
    rw [String.utf8Len_cons, List.length_cons]
    omega

/-- A mark of two characters at most and 64 digits are a short text. -/
theorem HexText.length_encode_le {s : String} {n : Nat} (h : HexText s n) :
    (Utf8.encode s).length ≤ 258 := by
  cases h with
  | @mk mark digits values hm hl hu hd =>
    have hmarks : ∀ mark ∈ marks, mark.utf8ByteSize ≤ 2 := by decide
    have hmark : mark.utf8ByteSize ≤ 2 := hmarks mark hm
    have hdigits : String.utf8Len digits ≤ 4 * digits.length := utf8Len_le digits
    have hlength : (Utf8.encode (mark ++ String.ofList digits)).length =
        mark.utf8ByteSize + String.utf8Len digits := by
      rw [← String.utf8ByteSize_ofList, ← String.utf8ByteSize_append]
      rfl
    omega

/-! ## Written words -/

/-- What is written for a value below the base is a digit of this value. -/
theorem isDigit_digitChar {n : Nat} (h : n < 16) : IsDigit n.digitChar n := by
  have htable : ∀ m < 16, lowerDigits[m]? = some m.digitChar := by decide
  exact .inl (htable n h)

/-- What is written of a number are the digits that weigh it. -/
theorem forall₂_toDigits (n : Nat) :
    ∃ values, List.Forall₂ IsDigit (Nat.toDigits 16 n) values ∧
      n = Nat.ofDigits 16 values.reverse := by
  induction n using Nat.strong_induction_on with
  | h n ih =>
    rw [Nat.toDigits_eq_if (by decide)]
    by_cases hsmall : n < 16
    · rw [if_pos hsmall]
      exact ⟨[n], .cons (isDigit_digitChar hsmall) .nil, by simp⟩
    · rw [if_neg hsmall]
      -- The last digit is what is left by the base; the others are those of the quotient.
      obtain ⟨values, hvalues, hquotient⟩ := ih (n / 16) (by omega)
      refine ⟨values ++ [n % 16], ?_, ?_⟩
      · have hlast : IsDigit (n % 16).digitChar (n % 16) :=
          isDigit_digitChar (Nat.mod_lt n (by decide))
        exact List.rel_append hvalues (.cons hlast .nil)
      · rw [List.reverse_append, List.reverse_singleton, List.singleton_append,
          Nat.ofDigits_cons, ← hquotient]
        omega

/-- A word is written as a text that spells it. -/
theorem U256.toHex_spells (u : U256) : HexText u.toHex u.toNat := by
  obtain ⟨values, hvalues, hu⟩ := forall₂_toDigits u.toNat
  have hlength : (Nat.toDigits 16 u.toNat).length ≤ 64 :=
    Nat.toDigits_length 16 u.toNat 64 (by decide) (u.isLt.trans_eq (by decide))
  have hpos : 1 ≤ (Nat.toDigits 16 u.toNat).length := by
    rw [Nat.toDigits_eq_if (by decide)]
    split_ifs <;> simp
  have htext : HexText ("" ++ String.ofList (Nat.toDigits 16 u.toNat))
      (Nat.ofDigits 16 values.reverse) := .mk (by simp [marks]) hpos hlength hvalues
  rwa [← hu, String.empty_append] at htext

end ChainGuest
