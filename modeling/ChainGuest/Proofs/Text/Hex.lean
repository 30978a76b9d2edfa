import Mathlib
import ChainGuest.Text.Hex

/-! # Hex digits and marks

    A digit is a place in one of two rows of characters, and a mark is one of the spellings
    that may stand before digits. The reader tells digits by ranges of characters and drops
    a mark by its first two characters; both agree with the rows and the marks, because no
    digit is an `x`.
-/

namespace ChainGuest.Hex

/-! ## Section 1: Digits -/

/-- The digits, in the order of their values. -/
def lowerDigits : List Char :=
  ['0', '1', '2', '3', '4', '5', '6', '7', '8', '9', 'a', 'b', 'c', 'd', 'e', 'f']

/-- The same in upper case. -/
def upperDigits : List Char :=
  ['0', '1', '2', '3', '4', '5', '6', '7', '8', '9', 'A', 'B', 'C', 'D', 'E', 'F']

/-- The character stands at this place in a row of the digits. -/
def IsDigit (c : Char) (n : Nat) : Prop := lowerDigits[n]? = some c ∨ upperDigits[n]? = some c

/-- A digit is worth less than the base. -/
theorem IsDigit.lt {c : Char} {n : Nat} (h : IsDigit c n) : n < 16 := by
  rcases h with h | h
  · exact (List.getElem?_eq_some_iff.1 h).1
  · exact (List.getElem?_eq_some_iff.1 h).1

/-- The characters with a digit's value are ASCII. -/
theorem toNat_lt_of_digit? {c : Char} {n : Nat} (h : digit? c = some n) : c.toNat < 128 := by
  unfold digit? at h
  by_cases hdecimal : '0' ≤ c ∧ c ≤ '9'
  · have hle : c.toNat ≤ 57 := Char.le_def.1 hdecimal.2
    omega
  rw [if_neg hdecimal] at h
  by_cases hlower : 'a' ≤ c ∧ c ≤ 'f'
  · have hle : c.toNat ≤ 102 := Char.le_def.1 hlower.2
    omega
  rw [if_neg hlower] at h
  by_cases hupper : 'A' ≤ c ∧ c ≤ 'F'
  · have hle : c.toNat ≤ 70 := Char.le_def.1 hupper.2
    omega
  rw [if_neg hupper] at h
  exact absurd h (by simp)

/-- The reader takes for a digit what stands in one of the rows, with its place as the value. -/
theorem digit?_eq_some_iff {c : Char} {n : Nat} : digit? c = some n ↔ IsDigit c n := by
  constructor
  · intro h
    -- The ranges and the rows can be compared character by character.
    have htable : ∀ m < 128, ∀ n ∈ digit? (Char.ofNat m),
        lowerDigits[n]? = some (Char.ofNat m) ∨ upperDigits[n]? = some (Char.ofNat m) := by
      decide +kernel
    have hc := htable c.toNat (toNat_lt_of_digit? h) n
    rw [Char.ofNat_toNat] at hc
    exact hc h
  · intro h
    have hn := h.lt
    have htable : ∀ m < 16, lowerDigits[m]?.bind digit? = some m ∧
        upperDigits[m]?.bind digit? = some m := by decide
    obtain ⟨hlower, hupper⟩ := htable n hn
    rcases h with h | h
    · rwa [h] at hlower
    · rwa [h] at hupper

/-- Digits that have values are digits, and their values are below the base. -/
theorem digits_of_forall₂ {digits : List Char} {values : List Nat}
    (h : List.Forall₂ IsDigit digits values) :
    (∀ c ∈ digits, ∃ n, IsDigit c n) ∧ ∀ n ∈ values, n < 16 := by
  induction h with
  | nil => simp
  | @cons c n digits values hd hrest ih =>
    obtain ⟨hdigits, hvalues⟩ := ih
    constructor
    · exact List.forall_mem_cons.2 ⟨⟨n, hd⟩, hdigits⟩
    · exact List.forall_mem_cons.2 ⟨hd.lt, hvalues⟩

/-! ## Section 2: Marks -/

/-- What may stand before the digits. -/
def marks : List String := ["", "0x", "0X"]

/-- A text is its digits behind a mark. -/
theorem exists_mark (cs : List Char) : ∃ mark ∈ marks, cs = mark.toList ++ dropMark cs := by
  unfold dropMark
  split
  · exact ⟨"0x", by simp [marks], rfl⟩
  · exact ⟨"0X", by simp [marks], rfl⟩
  · exact ⟨"", by simp [marks], rfl⟩

/-- Digits do not begin with a mark. -/
theorem dropMark_of_digits {digits : List Char} (h : ∀ c ∈ digits, ∃ n, IsDigit c n) :
    dropMark digits = digits := by
  unfold dropMark
  -- The letter of a mark would have to be a digit.
  split
  · obtain ⟨n, hn⟩ := h 'x' (by simp)
    have hx : digit? 'x' = none := by decide
    rw [digit?_eq_some_iff.2 hn] at hx
    exact absurd hx (by simp)
  · obtain ⟨n, hn⟩ := h 'X' (by simp)
    have hx : digit? 'X' = none := by decide
    rw [digit?_eq_some_iff.2 hn] at hx
    exact absurd hx (by simp)
  · rfl

/-- What is left of digits behind a mark are the digits. -/
theorem dropMark_append {mark : String} {digits : List Char} (hm : mark ∈ marks)
    (h : ∀ c ∈ digits, ∃ n, IsDigit c n) : dropMark (mark.toList ++ digits) = digits := by
  simp only [marks, List.mem_cons, List.not_mem_nil, or_false] at hm
  rcases hm with rfl | rfl | rfl
  · exact dropMark_of_digits h
  · rfl
  · rfl

end ChainGuest.Hex
