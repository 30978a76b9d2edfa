import Mathlib
import ChainGuest.Json.Parser

/-! # Number tokens

    The grammar of numbers in JSON, by the parts of a token. A token is read up to its end if
    what follows could not have been part of it (`parseNumber_append`).
-/

namespace ChainGuest.Json

/-! ## Section 1: The grammar -/

/-- One digit or more. -/
def IsDigits (cs : List Char) : Prop := cs ≠ [] ∧ ∀ c ∈ cs, c.isDigit = true

/-- The whole part: one zero, or digits that do not start with zero. -/
def IsWhole (cs : List Char) : Prop := IsDigits cs ∧ (1 < cs.length → cs.head? ≠ some '0')

/-- A point and digits, or nothing. -/
inductive IsFraction : List Char → Prop where
  | none : IsFraction []
  | some {digits : List Char} (h : IsDigits digits) : IsFraction ('.' :: digits)

/-- A mark, perhaps a sign, and digits; or nothing. -/
inductive IsExponent : List Char → Prop where
  | none : IsExponent []
  | some {mark : Char} {sign digits : List Char} (hm : mark = 'e' ∨ mark = 'E')
      (hs : sign = [] ∨ sign = ['+'] ∨ sign = ['-']) (h : IsDigits digits) :
      IsExponent (mark :: sign ++ digits)

/-- A number without its sign. -/
inductive IsMagnitude : List Char → Prop where
  | mk {whole fraction exponent : List Char} (hw : IsWhole whole) (hf : IsFraction fraction)
      (he : IsExponent exponent) : IsMagnitude (whole ++ fraction ++ exponent)

/-- The tokens of numbers. -/
inductive NumberToken : List Char → Prop where
  | plain {cs : List Char} (h : IsMagnitude cs) : NumberToken cs
  | minus {cs : List Char} (h : IsMagnitude cs) : NumberToken ('-' :: cs)

/-- What may follow a number: nothing that could belong to it. -/
def EndsNumber (rest : List Char) : Prop :=
  ∀ c ∈ rest.head?, c.isDigit = false ∧ c ≠ '.' ∧ c ≠ 'e' ∧ c ≠ 'E'

/-! ## Section 2: Reading tokens -/

/-- Digits are read up to the first character that is none. -/
theorem parseDigits_append {digits rest : List Char} (h : IsDigits digits)
    (hrest : ∀ c ∈ rest.head?, c.isDigit = false) :
    parseDigits (digits ++ rest) = some (digits, rest) := by
  obtain ⟨hne, hall⟩ := h
  have hstop : rest.takeWhile Char.isDigit = [] ∧ rest.dropWhile Char.isDigit = rest := by
    cases rest with
    | nil => exact ⟨rfl, rfl⟩
    | cons c cs =>
      have hc : c.isDigit = false := hrest c rfl
      simp [hc]
  have htake : (digits ++ rest).takeWhile Char.isDigit = digits := by
    rw [List.takeWhile_append_of_pos hall, hstop.1, List.append_nil]
  have hdrop : (digits ++ rest).dropWhile Char.isDigit = rest := by
    rw [List.dropWhile_append_of_pos hall, hstop.2]
  unfold parseDigits
  simp [htake, hdrop, hne]

/-- A whole part is read up to its end, as it does not begin with a zero that another digit
    follows. -/
theorem parseWhole_append {whole rest : List Char} (h : IsWhole whole)
    (hrest : ∀ c ∈ rest.head?, c.isDigit = false) :
    parseWhole (whole ++ rest) = some (whole, rest) := by
  obtain ⟨hdigits, hzero⟩ := h
  unfold parseWhole
  rw [parseDigits_append hdigits hrest]
  exact if_neg fun hbad => hzero hbad.1 hbad.2

/-- A fraction is read up to its end; where there is none, what follows must not be a point. -/
theorem parseFraction_append {fraction rest : List Char} (h : IsFraction fraction)
    (hrest : ∀ c ∈ rest.head?, c.isDigit = false ∧ c ≠ '.') :
    parseFraction (fraction ++ rest) = some (fraction, rest) := by
  cases h with
  | none =>
    unfold parseFraction
    split
    · next cs heq =>
      have hhead : '.' ∈ rest.head? := by
        rw [List.nil_append] at heq
        rw [heq]
        rfl
      exact absurd rfl (hrest '.' hhead).2
    · rfl
  | @some digits hdigits =>
    have hread : parseDigits (digits ++ rest) = Option.some (digits, rest) :=
      parseDigits_append hdigits fun c hc => (hrest c hc).1
    unfold parseFraction
    simp [hread]

/-- A digit is no character that is not a digit. -/
theorem ne_of_isDigit {c other : Char} (hc : c.isDigit = true) (h : other.isDigit = false) :
    c ≠ other := by
  intro heq
  rw [heq, h] at hc
  exact absurd hc (by decide)

/-- There is a first digit. -/
theorem IsDigits.exists_head {digits : List Char} (h : IsDigits digits) :
    ∃ c cs, digits = c :: cs ∧ c.isDigit = true := by
  obtain ⟨hne, hall⟩ := h
  cases digits with
  | nil => exact absurd rfl hne
  | cons c cs => exact ⟨c, cs, rfl, hall c List.mem_cons_self⟩

/-- An exponent is read up to its end; where there is none, what follows must not be a mark. -/
theorem parseExponent_append {exponent rest : List Char} (h : IsExponent exponent)
    (hrest : EndsNumber rest) :
    parseExponent (exponent ++ rest) = some (exponent, rest) := by
  cases h with
  | none =>
    cases rest with
    | nil => rfl
    | cons c cs =>
      obtain ⟨-, -, hlower, hupper⟩ := hrest c rfl
      exact if_neg fun hmark => hmark.elim hlower hupper
  | @some mark sign digits hm hs hdigits =>
    have hread : parseDigits (digits ++ rest) = Option.some (digits, rest) :=
      parseDigits_append hdigits fun c hc => (hrest c hc).1
    have hsplit : mark :: sign ++ digits ++ rest = mark :: (sign ++ (digits ++ rest)) := by simp
    rw [hsplit]
    show (if mark = 'e' ∨ mark = 'E' then _ else _) = _
    rw [if_pos hm]
    rcases hs with rfl | rfl | rfl
    · -- Without a sign, the digits come first, and none of them is one.
      obtain ⟨c, cs, rfl, hc⟩ := hdigits.exists_head
      have hplus : c ≠ '+' := ne_of_isDigit hc (by decide)
      have hminus : c ≠ '-' := ne_of_isDigit hc (by decide)
      rw [List.cons_append] at hread
      simp [hplus, hminus, hread]
    · simp [hread]
    · simp [hread]

/-- No fraction begins with a digit. -/
theorem IsFraction.head_append {fraction rest : List Char} (h : IsFraction fraction)
    (hrest : ∀ c ∈ rest.head?, c.isDigit = false) :
    ∀ c ∈ (fraction ++ rest).head?, c.isDigit = false := by
  cases h with
  | none => exact hrest
  | some =>
    intro c hc
    obtain rfl : '.' = c := by simpa using hc
    decide

/-- No exponent begins with a digit or a point. -/
theorem IsExponent.head_append {exponent rest : List Char} (h : IsExponent exponent)
    (hrest : EndsNumber rest) :
    ∀ c ∈ (exponent ++ rest).head?, c.isDigit = false ∧ c ≠ '.' := by
  cases h with
  | none => exact fun c hc => ⟨(hrest c hc).1, (hrest c hc).2.1⟩
  | @some mark _ _ hm _ _ =>
    intro c hc
    obtain rfl : mark = c := by simpa using hc
    rcases hm with rfl | rfl <;> decide

/-- A number without its sign begins with a digit. -/
theorem IsMagnitude.exists_head {cs : List Char} (h : IsMagnitude cs) :
    ∃ c more, cs = c :: more ∧ c.isDigit = true := by
  obtain ⟨hw, hf, he⟩ := h
  obtain ⟨c, more, rfl, hc⟩ := hw.1.exists_head
  exact ⟨c, _, rfl, hc⟩

/-- A token is read as it is, up to its end.

    The parts of a token are read one after another, and each is read as far as it goes. So what
    is needed of every part is that the next one does not begin with what could have belonged to
    it. -/
theorem parseNumber_append {token rest : List Char} (h : NumberToken token)
    (hrest : EndsNumber rest) : parseNumber (token ++ rest) = some (token, rest) := by
  -- Behind the sign, part by part.
  have hparts {whole fraction exponent : List Char} (hw : IsWhole whole)
      (hf : IsFraction fraction) (he : IsExponent exponent) :
      parseWhole (whole ++ fraction ++ exponent ++ rest) =
          some (whole, fraction ++ (exponent ++ rest)) ∧
        parseFraction (fraction ++ (exponent ++ rest)) = some (fraction, exponent ++ rest) ∧
        parseExponent (exponent ++ rest) = some (exponent, rest) := by
    -- Each part ends where the next one begins, or what follows the token if that part is empty.
    have hexponent := he.head_append hrest
    have hfraction := hf.head_append fun c hc => (hexponent c hc).1
    rw [List.append_assoc, List.append_assoc]
    exact ⟨parseWhole_append hw hfraction, parseFraction_append hf hexponent,
      parseExponent_append he hrest⟩
  unfold parseNumber
  cases h with
  | plain h =>
    obtain ⟨c, more, htoken, hc⟩ := h.exists_head
    have hminus : c ≠ '-' := ne_of_isDigit hc (by decide)
    obtain ⟨hw, hf, he⟩ := h
    obtain ⟨hfirst, hsecond, hthird⟩ := hparts hw hf he
    rw [htoken, List.cons_append] at hfirst ⊢
    simp [hminus, hfirst, hsecond, hthird, ← htoken]
  | minus h =>
    obtain ⟨hw, hf, he⟩ := h
    obtain ⟨hfirst, hsecond, hthird⟩ := hparts hw hf he
    rw [List.append_assoc, List.append_assoc] at hfirst
    simp [hfirst, hsecond, hthird]

theorem IsMagnitude.mem {cs : List Char} (h : IsMagnitude cs) {c : Char} (hc : c ∈ cs) :
    c.isDigit ∨ c ∈ ['.', 'e', 'E', '+', '-'] := by
  obtain ⟨hw, hf, he⟩ := h
  simp only [List.mem_append] at hc
  rcases hc with (hc | hc) | hc
  · exact .inl (hw.1.2 c hc)
  · cases hf with
    | none => exact absurd hc (by simp)
    | some hdigits =>
      rcases List.mem_cons.1 hc with rfl | hc
      · exact .inr (by decide)
      · exact .inl (hdigits.2 c hc)
  · cases he with
    | none => exact absurd hc (by simp)
    | @some mark sign _ hm hs hdigits =>
      have hmarks : mark :: sign ⊆ ['.', 'e', 'E', '+', '-'] := by
        rcases hm with rfl | rfl <;> rcases hs with rfl | rfl | rfl <;> simp
      rcases List.mem_append.1 hc with hc | hc
      · exact .inr (hmarks hc)
      · exact .inl (hdigits.2 c hc)

/-- A token consists of digits, points, marks and signs. -/
theorem NumberToken.mem {token : List Char} (h : NumberToken token) {c : Char}
    (hc : c ∈ token) : c.isDigit ∨ c ∈ ['.', 'e', 'E', '+', '-'] := by
  cases h with
  | plain h => exact h.mem hc
  | minus h =>
    rcases List.mem_cons.1 hc with rfl | hc
    · exact .inr (by decide)
    · exact h.mem hc

/-- A token begins with a digit or a minus. -/
theorem NumberToken.exists_head {token : List Char} (h : NumberToken token) :
    ∃ c more, token = c :: more ∧ (c.isDigit ∨ c = '-') := by
  cases h with
  | plain h =>
    obtain ⟨c, more, rfl, hc⟩ := h.exists_head
    exact ⟨c, more, rfl, .inl hc⟩
  | minus h => exact ⟨'-', _, rfl, .inr rfl⟩

end ChainGuest.Json
