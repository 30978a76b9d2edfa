import Mathlib
import ChainGuest.Proofs.Number.Digits
import ChainGuest.Proofs.Number.HexWord

/-! # What hex text says

    The texts that are read as words are a mark or none and one to 64 digits (`HexDigits`), and
    the word is the value of the digits (`hexValue`). Two lists of digits have one value if and
    only if nothing is left to tell them apart once they are in lower case and without the zeros
    they begin with (`canonicalDigits`). Reading is therefore the inverse of writing, and of every
    other way to write the same word (`U256.ofHex_exact`).
-/

namespace ChainGuest

open Hex

/-! ## Section 1: Digits and their value -/

/-- One to 64 digits, of either case. -/
structure HexDigits (digits : List Char) : Prop where
  nonempty : 1 ≤ digits.length
  fits : digits.length ≤ 64
  isDigit : ∀ c ∈ digits, ∃ n, IsDigit c n

/-- The value of a digit is its place in the row that it is found in. -/
def digitValue (c : Char) : Nat := min (lowerDigits.idxOf c) (upperDigits.idxOf c)

/-- The number that digits spell, most significant first. -/
def hexValue (digits : List Char) : Nat := Nat.ofDigits 16 (digits.map digitValue).reverse

/-- What of the digits matters to their value. -/
def canonicalDigits (digits : List Char) : List Char :=
  (digits.map Char.toLower).dropWhile (· == '0')

/-- The character at a place of the rows has this value, and the one in lower case is the digit
    that is written for it. -/
theorem digitValue_of_isDigit {c : Char} {n : Nat} (h : IsDigit c n) :
    digitValue c = n ∧ c.toLower = Nat.digitChar n := by
  have htable : ∀ m < 16,
      lowerDigits[m]?.map (fun c => (digitValue c, c.toLower)) = some (m, m.digitChar) ∧
      upperDigits[m]?.map (fun c => (digitValue c, c.toLower)) = some (m, m.digitChar) := by
    decide
  obtain ⟨hlower, hupper⟩ := htable n h.lt
  rcases h with h | h
  · rw [h, Option.map_some] at hlower
    exact Prod.mk.inj (Option.some.inj hlower)
  · rw [h, Option.map_some] at hupper
    exact Prod.mk.inj (Option.some.inj hupper)

/-- The digit that is written for a value has this value. -/
theorem digitValue_digitChar {d : Nat} (h : d < 16) : digitValue (Nat.digitChar d) = d :=
  (digitValue_of_isDigit (isDigit_digitChar h)).1

/-- The digits that are written are in lower case. -/
theorem digitChar_mem_lowerDigits {d : Nat} (h : d < 16) : Nat.digitChar d ∈ lowerDigits := by
  have htable : ∀ d < 16, Nat.digitChar d ∈ lowerDigits := by decide
  exact htable d h

/-- Digits in lower case are digits, and stay as they are in lower case. -/
theorem isDigit_of_mem_lowerDigits {c : Char} (h : c ∈ lowerDigits) :
    (∃ n, IsDigit c n) ∧ c.toLower = c := by
  obtain ⟨n, hn⟩ := List.mem_iff_getElem?.1 h
  have hdigit : IsDigit c n := .inl hn
  have hwritten : ∀ m < 16, lowerDigits[m]? = some m.digitChar := by decide
  have hc : Nat.digitChar n = c := by
    rw [hwritten n hdigit.lt] at hn
    exact Option.some.inj hn
  exact ⟨⟨n, hdigit⟩, (digitValue_of_isDigit hdigit).2.trans hc⟩

/-- Digits have values exactly if each of them is one, and then the values are theirs. -/
theorem forall₂_isDigit_iff {digits : List Char} {values : List Nat} :
    List.Forall₂ IsDigit digits values ↔
      (∀ c ∈ digits, ∃ n, IsDigit c n) ∧ digits.map digitValue = values := by
  constructor
  · intro h
    refine ⟨(digits_of_forall₂ h).1, ?_⟩
    induction h with
    | nil => rfl
    | cons hd _ ih => exact congrArg₂ List.cons (digitValue_of_isDigit hd).1 ih
  · rintro ⟨hall, rfl⟩
    rw [List.forall₂_map_right_iff, List.forall₂_same]
    intro c hc
    obtain ⟨n, hn⟩ := hall c hc
    rwa [(digitValue_of_isDigit hn).1]

/-- A text spells a number if it is a mark and digits with this value. -/
theorem hexText_iff {s : String} {n : Nat} :
    HexText s n ↔ ∃ mark ∈ marks, ∃ digits, HexDigits digits ∧
      s = mark ++ String.ofList digits ∧ n = hexValue digits := by
  constructor
  · rintro ⟨hm, hl, hu, hd⟩
    obtain ⟨hall, rfl⟩ := forall₂_isDigit_iff.1 hd
    exact ⟨_, hm, _, ⟨hl, hu, hall⟩, rfl, rfl⟩
  · rintro ⟨mark, hm, digits, ⟨hl, hu, hall⟩, rfl, rfl⟩
    exact .mk hm hl hu (forall₂_isDigit_iff.2 ⟨hall, rfl⟩)

/-! ## Section 2: Digits with one value -/

/-- The digits that matter are those of the value. -/
theorem canonicalDigits_eq {digits : List Char}
    (h : ∀ c ∈ digits, ∃ n, IsDigit c n) :
    canonicalDigits digits = (Nat.digits 16 (hexValue digits)).reverse.map Nat.digitChar := by
  have hvalues : ∀ d ∈ digits.map digitValue, d < 16 := by
    intro d hd
    obtain ⟨c, hc, rfl⟩ := List.mem_map.1 hd
    obtain ⟨n, hn⟩ := h c hc
    exact (digitValue_of_isDigit hn).1.trans_lt hn.lt
  have hlower : digits.map Char.toLower = (digits.map digitValue).map Nat.digitChar := by
    rw [List.map_map]
    apply List.map_congr_left
    intro c hc
    obtain ⟨n, hn⟩ := h c hc
    obtain ⟨rfl, hchar⟩ := digitValue_of_isDigit hn
    exact hchar
  -- In lower case the digits are what is written of their values, and only zero is written '0'.
  have hzero : ∀ d < 16, (Nat.digitChar d == '0') = (d == 0) := by decide
  -- Dropping digits that are zeros is dropping the values that are zero.
  have hdrop : ∀ values : List Nat, (∀ d ∈ values, d < 16) →
      (values.map Nat.digitChar).dropWhile (· == '0') =
        (values.dropWhile (· == 0)).map Nat.digitChar := by
    intro values hlt
    induction values with
    | nil => rfl
    | cons d values ih =>
      obtain ⟨hd, hrest⟩ := List.forall_mem_cons.1 hlt
      rw [List.map_cons, List.dropWhile_cons, List.dropWhile_cons, hzero d hd, ih hrest]
      split <;> rfl
  unfold canonicalDigits hexValue
  rw [hlower, hdrop _ hvalues, digits_ofDigits_reverse (by decide) hvalues, List.reverse_reverse]

/-- Digits that are written for values have the value that these weigh. -/
theorem hexValue_map_digitChar {values : List Nat} (h : ∀ d ∈ values, d < 16) :
    hexValue (values.map Nat.digitChar) = Nat.ofDigits 16 values.reverse := by
  unfold hexValue
  rw [List.map_map, List.map_congr_left (g := id), List.map_id]
  intro d hd
  exact digitValue_digitChar (h d hd)

/-- Nothing but what matters is needed for the value. -/
theorem hexValue_canonicalDigits {digits : List Char}
    (h : ∀ c ∈ digits, ∃ n, IsDigit c n) :
    hexValue (canonicalDigits digits) = hexValue digits := by
  rw [canonicalDigits_eq h, hexValue_map_digitChar, List.reverse_reverse, Nat.ofDigits_digits]
  intro d hd
  exact Nat.digits_lt_base (by decide) (List.mem_reverse.1 hd)

/-- Digits have one value if and only if what matters of them is the same.

    What matters of digits are the digits of their value, so either determines the other. -/
theorem hexValue_eq_iff {digits digits' : List Char}
    (h : ∀ c ∈ digits, ∃ n, IsDigit c n)
    (h' : ∀ c ∈ digits', ∃ n, IsDigit c n) :
    hexValue digits = hexValue digits' ↔ canonicalDigits digits = canonicalDigits digits' := by
  constructor
  · intro heq
    rw [canonicalDigits_eq h, canonicalDigits_eq h', heq]
  · intro heq
    rw [← hexValue_canonicalDigits h, ← hexValue_canonicalDigits h', heq]

/-! ## Section 3: Written words -/

/-- The lowercase text of a number: its digits, without a zero in front of others. -/
structure LowerHex (s : String) (n : Nat) : Prop where
  digits : HexDigits s.toList
  lower : ∀ c ∈ s.toList, c ∈ lowerDigits
  leading : s.toList.head? = some '0' → s = "0"
  value : hexValue s.toList = n

/-- What is written of a number that is not zero are its digits in base 16. -/
theorem toDigits_of_ne_zero {n : Nat} (h : n ≠ 0) :
    Nat.toDigits 16 n = (Nat.digits 16 n).reverse.map Nat.digitChar :=
  toDigits_eq_digits (by decide) h

/-- The digits of a word do not begin with a zero, unless it is zero. -/
theorem head?_toDigits {n : Nat} (h : n ≠ 0) : (Nat.toDigits 16 n).head? ≠ some '0' := by
  intro hhead
  have hne : Nat.digits 16 n ≠ [] := Nat.digits_ne_nil_iff_ne_zero.2 h
  have hlast : (Nat.digits 16 n).getLast hne ≠ 0 := Nat.getLast_digit_ne_zero 16 h
  have hlt : (Nat.digits 16 n).getLast hne < 16 :=
    Nat.digits_lt_base (by decide) (List.getLast_mem hne)
  have hzero : ∀ d < 16, Nat.digitChar d = '0' → d = 0 := by decide
  rw [toDigits_of_ne_zero h, List.head?_map, List.head?_reverse,
    List.getLast?_eq_getLast_of_ne_nil hne, Option.map_some] at hhead
  exact hlast (hzero _ hlt (Option.some.inj hhead))

/-- A number is written in lower case. -/
theorem mem_toDigits {n : Nat} {c : Char} (hc : c ∈ Nat.toDigits 16 n) : c ∈ lowerDigits := by
  by_cases hn : n = 0
  · subst hn
    obtain rfl : c = '0' := by simpa using hc
    decide
  · rw [toDigits_of_ne_zero hn] at hc
    obtain ⟨d, hd, rfl⟩ := List.mem_map.1 hc
    exact digitChar_mem_lowerDigits (Nat.digits_lt_base (by decide) (List.mem_reverse.1 hd))

/-- What is written of a number has its value. -/
theorem hexValue_toDigits (n : Nat) : hexValue (Nat.toDigits 16 n) = n := by
  obtain ⟨values, hvalues, hn⟩ := forall₂_toDigits n
  obtain ⟨-, rfl⟩ := forall₂_isDigit_iff.1 hvalues
  exact hn.symm

/-- Lowercase digits that do not begin with a zero are what matters of them. -/
theorem LowerHex.canonicalDigits_eq_self {s : String} {n : Nat} (h : LowerHex s n) (hs : s ≠ "0") :
    canonicalDigits s.toList = s.toList := by
  have hlower : s.toList.map Char.toLower = s.toList := by
    rw [List.map_congr_left (g := id), List.map_id]
    intro c hc
    exact (isDigit_of_mem_lowerDigits (h.lower c hc)).2
  unfold canonicalDigits
  rw [hlower]
  cases hlist : s.toList with
  | nil => rfl
  | cons c digits =>
    apply List.dropWhile_cons_of_neg
    intro hc
    obtain rfl : c = '0' := beq_iff_eq.1 hc
    exact hs (h.leading (by rw [hlist]; rfl))

/-- A word has one lowercase text, and it is what is written. -/
theorem lowerHex_iff {s : String} {u : U256} : LowerHex s u.toNat ↔ s = u.toHex := by
  constructor
  · intro h
    have hvalue := h.value
    -- Zero is the one word whose text begins with a zero.
    by_cases hs : s = "0"
    · subst hs
      have hu : u.toNat = 0 := hvalue.symm.trans (by decide +kernel)
      unfold U256.toHex
      rw [hu]
      rfl
    · -- Nothing of the digits is dropped, so they are those that are written.
      have hcanonical := canonicalDigits_eq h.digits.isDigit
      rw [h.canonicalDigits_eq_self hs, hvalue] at hcanonical
      have hu : u.toNat ≠ 0 := by
        intro hu
        have hpos := h.digits.nonempty
        rw [hcanonical, hu] at hpos
        exact absurd hpos (by simp)
      unfold U256.toHex
      rw [toDigits_of_ne_zero hu, ← hcanonical, String.ofList_toList]
  · rintro rfl
    have hlist : u.toHex.toList = Nat.toDigits 16 u.toNat := String.toList_ofList
    have hlower : ∀ c ∈ u.toHex.toList, c ∈ lowerDigits := by
      intro c hc
      rw [hlist] at hc
      exact mem_toDigits hc
    refine ⟨⟨?_, ?_, fun c hc => (isDigit_of_mem_lowerDigits (hlower c hc)).1⟩, hlower, ?_, ?_⟩
    · rw [hlist]
      exact Nat.length_toDigits_pos
    · rw [hlist]
      exact Nat.toDigits_length 16 u.toNat 64 (by decide) (u.isLt.trans_eq (by decide))
    · intro hhead
      have hu : u.toNat = 0 := by
        by_contra hu
        rw [hlist] at hhead
        exact head?_toDigits hu hhead
      unfold U256.toHex
      rw [hu]
      rfl
    · rw [hlist]
      exact hexValue_toDigits u.toNat

/-! ## Section 4: Reading -/

/-- Digits behind a mark are read as the word with their value. -/
theorem U256.ofHex_append {mark : String} {digits : List Char} (hm : mark ∈ marks)
    (h : HexDigits digits) :
    U256.ofHex (mark ++ String.ofList digits) = .ok (BitVec.ofNat 256 (hexValue digits)) ∧
      hexValue digits < 2 ^ 256 := by
  have htext : HexText (mark ++ String.ofList digits) (hexValue digits) :=
    hexText_iff.2 ⟨mark, hm, digits, h, rfl, rfl⟩
  refine ⟨U256.ofHex_eq_ok_iff.2 ?_, htext.lt⟩
  rwa [BitVec.toNat_ofNat, Nat.mod_eq_of_lt htext.lt]

/-- What is refused is named as it was given. -/
theorem U256.ofHex_eq_error_iff {s : String} {e : Wire.DecodeError} :
    U256.ofHex s = .error e ↔ e = .invalidHex s ∧ ∀ u, U256.ofHex s ≠ .ok u := by
  have hnamed : ∀ e, U256.ofHex s = .error e → e = .invalidHex s := by
    intro e h
    unfold U256.ofHex at h
    simp only at h
    split at h
    · exact (Except.error.inj h).symm
    · split at h
      · exact absurd h (by simp)
      · exact (Except.error.inj h).symm
  constructor
  · intro h
    refine ⟨hnamed e h, fun u hu => ?_⟩
    rw [h] at hu
    exact absurd hu (by simp)
  · rintro ⟨rfl, hnone⟩
    cases h : U256.ofHex s with
    | error e => rw [hnamed e h]
    | ok u => exact absurd h (hnone u)

/-- Exactly the hex texts are read, as the word with the value of their digits, and other texts
    are refused as they are. Of the texts of a word, the mark, the case and the zeros in front do
    not matter, and all else does. What is written of a word is read as the word.

    The parts are about one reader, so they follow from when it succeeds (`hexText_iff`) and from
    when two lists of digits have one value (`hexValue_eq_iff`). That a word has one text in lower
    case without leading zeros is said apart from reading (`lowerHex_iff`). -/
theorem U256.ofHex_exact :
    (∀ s u, U256.ofHex s = .ok u ↔ ∃ mark ∈ marks, ∃ digits, HexDigits digits ∧
      s = mark ++ String.ofList digits ∧ u.toNat = hexValue digits) ∧
    (∀ digits, HexDigits digits → hexValue digits < 2 ^ 256) ∧
    (∀ s e, U256.ofHex s = .error e ↔ e = .invalidHex s ∧ ¬ ∃ mark ∈ marks, ∃ digits,
      HexDigits digits ∧ s = mark ++ String.ofList digits) ∧
    (∀ mark ∈ marks, ∀ mark' ∈ marks, ∀ digits digits', HexDigits digits → HexDigits digits' →
      (U256.ofHex (mark ++ String.ofList digits) = U256.ofHex (mark' ++ String.ofList digits') ↔
        canonicalDigits digits = canonicalDigits digits')) ∧
    (∀ u : U256, ∀ mark ∈ marks, U256.ofHex (mark ++ u.toHex) = .ok u) ∧
    ∀ (u : U256) (s : String), LowerHex s u.toNat ↔ s = u.toHex := by
  refine ⟨?_, ?_, ?_, ?_, ?_, fun u s => lowerHex_iff⟩
  · intro s u
    rw [U256.ofHex_eq_ok_iff, hexText_iff]
  · intro digits h
    have hm : "" ∈ marks := by decide
    exact (U256.ofHex_append hm h).2
  · -- The failure names the text; what remains is when there is one.
    intro s e
    rw [U256.ofHex_eq_error_iff, and_congr_right_iff]
    rintro -
    rw [← not_exists, not_iff_not]
    constructor
    · rintro ⟨u, hu⟩
      rw [U256.ofHex_eq_ok_iff, hexText_iff] at hu
      obtain ⟨mark, hm, digits, h, hs, -⟩ := hu
      exact ⟨mark, hm, digits, h, hs⟩
    · rintro ⟨mark, hm, digits, h, rfl⟩
      exact ⟨_, (U256.ofHex_append hm h).1⟩
  · intro mark hm mark' hm' digits digits' h h'
    obtain ⟨hread, hlt⟩ := U256.ofHex_append hm h
    obtain ⟨hread', hlt'⟩ := U256.ofHex_append hm' h'
    rw [hread, hread', ← hexValue_eq_iff h.isDigit h'.isDigit]
    constructor
    · intro heq
      have hnat := congrArg BitVec.toNat (Except.ok.inj heq)
      rwa [BitVec.toNat_ofNat, BitVec.toNat_ofNat, Nat.mod_eq_of_lt hlt, Nat.mod_eq_of_lt hlt']
        at hnat
    · intro heq
      rw [heq]
  · intro u mark hm
    have hlower : LowerHex u.toHex u.toNat := lowerHex_iff.2 rfl
    have hread := (U256.ofHex_append hm hlower.digits).1
    rwa [String.ofList_toList, hlower.value, BitVec.ofNat_toNat, BitVec.setWidth_eq] at hread

-- A second mark is no digit.
example : U256.ofHex "0x0x5" = .error (.invalidHex "0x0x5") := by decide

end ChainGuest
