import Mathlib
import ChainGuest.Proofs.Text.Base64

/-! # Canonical base 64

    Among all texts, those of bytes are the ones with a symbol for each value and one pad for
    each byte that the last group lacks (`Base64.Canonical`). A text is not read if and only
    if it has one of four flaws (`Base64.Flaw`): it does not come in groups of four, a character
    is no symbol, a pad does not stand at the end, or the last symbol has bits set that no byte
    has room for.
-/

namespace ChainGuest.Base64

/-! ## Section 1: Canonical texts -/

/-- The text of bytes: the symbols of the values that the bytes are dealt out to, and pads up to
    the end of the last group. -/
def Canonical (s : String) (bytes : List UInt8) : Prop :=
  ∃ symbols values pads, s = String.ofList (symbols ++ List.replicate pads '=') ∧
    List.Forall₂ IsSymbol symbols values ∧ Regrouped bytes values pads

/-- A value has one symbol. -/
theorem IsSymbol.unique {c c' : Char} {n : Nat} (h : IsSymbol c n) (h' : IsSymbol c' n) :
    c = c' :=
  Option.some.inj (h.symm.trans h')

/-- Symbols are in the alphabet. -/
theorem IsSymbol.mem {c : Char} {n : Nat} (h : IsSymbol c n) : c ∈ alphabet :=
  List.mem_of_getElem? h

/-- A symbol has one value, as no character stands in the alphabet twice. -/
theorem IsSymbol.value_unique {c : Char} {n n' : Nat} (h : IsSymbol c n) (h' : IsSymbol c n') :
    n = n' := by
  have hnodup : alphabet.Nodup := by decide
  exact (List.getElem?_inj h.lt hnodup).1 (h.trans h'.symm)

theorem pad_not_mem_alphabet : '=' ∉ alphabet := by decide

/-- Symbols are those that are written for their values. -/
theorem forall₂_isSymbol_iff {symbols : List Char} {values : List Nat} :
    List.Forall₂ IsSymbol symbols values ↔
      (∀ n ∈ values, n < 64) ∧ symbols = values.map fun n => Char.ofNat (symbol n).toNat := by
  constructor
  · intro h
    induction h with
    | nil => exact ⟨List.forall_mem_nil _, rfl⟩
    | cons hc _ ih =>
      refine ⟨List.forall_mem_cons.2 ⟨hc.lt, ih.1⟩, ?_⟩
      rw [ih.2, List.map_cons, hc.unique (isSymbol_symbol hc.lt)]
  · intro h
    obtain ⟨hfits, rfl⟩ := h
    rw [List.forall₂_map_left_iff, List.forall₂_same]
    intro n hn
    exact isSymbol_symbol (hfits n hn)

/-- The characters of a text, for the bytes of it. -/
theorem map_textBytes (values : List Nat) (pads : Nat) :
    ((textBytes values pads).map fun b => Char.ofNat b.toNat) =
      (values.map fun n => Char.ofNat (symbol n).toNat) ++ List.replicate pads '=' := by
  rw [textBytes, List.map_append, List.map_map, List.map_replicate]
  rfl

/-- What is written of bytes is their canonical text, and there is no other. -/
theorem canonical_iff {s : String} {bytes : List UInt8} :
    Canonical s bytes ↔ s = encode bytes := by
  rw [encode_eq_iff]
  constructor
  · intro h
    obtain ⟨symbols, values, pads, rfl, hsymbols, hbytes⟩ := h
    obtain ⟨hfits, rfl⟩ := forall₂_isSymbol_iff.1 hsymbols
    refine ⟨values, pads, hbytes, ?_⟩
    rw [← map_textBytes, Utf8.encode_ofList_map (textBytes_ascii hfits pads)]
  · intro h
    obtain ⟨values, pads, hbytes, htext⟩ := h
    have hascii := textBytes_ascii hbytes.fits pads
    rw [← htext] at hascii
    refine ⟨_, values, pads, ?_, forall₂_isSymbol_iff.2 ⟨hbytes.fits, rfl⟩, hbytes⟩
    rw [Utf8.eq_ofList_map hascii, htext, map_textBytes]

/-! ## Section 2: Flawed texts -/

/-- What keeps a text from being the text of any bytes. -/
inductive Flaw (s : String) : Prop where
  /-- It does not come in groups of four. -/
  | length (h : ¬ 4 ∣ s.length) : Flaw s
  /-- A character is neither a symbol nor a pad. -/
  | symbol {c : Char} (hc : c ∈ s.toList) (hsymbol : c ∉ alphabet) (hpad : c ≠ '=') : Flaw s
  /-- Behind a pad there is something else than the end or one last pad. -/
  | padding {before after : List Char} (hs : s.toList = before ++ '=' :: after)
      (hend : after ≠ []) (hlast : after ≠ ['=']) : Flaw s
  /-- Of the last symbol there are bits left over, two for each pad, that are not zero. -/
  | bits {before : List Char} {c : Char} {n pads : Nat}
      (hs : s.toList = before ++ c :: List.replicate pads '=') (hsymbol : IsSymbol c n)
      (hbits : n % 4 ^ pads ≠ 0) : Flaw s

/-- Behind a pad at the end there are only pads. -/
theorem eq_replicate_of_pad {symbols before after : List Char} {pads : Nat}
    (hsymbols : '=' ∉ symbols)
    (h : symbols ++ List.replicate pads '=' = before ++ '=' :: after) :
    ∃ more, more < pads ∧ after = List.replicate more '=' := by
  -- The pad is one of those at the end, or it would be among the symbols.
  rcases List.append_eq_append_iff.1 h with ⟨middle, -, hpads⟩ | ⟨middle, hmiddle, hpads⟩
  · have hall : ∀ c ∈ after, c = '=' := by
      intro c hc
      apply List.eq_of_mem_replicate (n := pads)
      rw [hpads]
      exact List.mem_append_right _ (List.mem_cons_of_mem _ hc)
    have hcount := congrArg List.length hpads
    rw [List.length_replicate, List.length_append, List.length_cons] at hcount
    exact ⟨after.length, by omega, List.eq_replicate_iff.2 ⟨rfl, hall⟩⟩
  · cases middle with
    | nil =>
      cases pads with
      | zero => exact absurd hpads (by simp)
      | succ more => exact ⟨more, Nat.lt_succ_self more, (List.cons.inj hpads).2⟩
    | cons c middle =>
      obtain rfl : '=' = c := (List.cons.inj hpads).1
      rw [hmiddle] at hsymbols
      exact absurd (List.mem_append_right _ List.mem_cons_self) hsymbols

/-- The symbols end where the pads begin. -/
theorem append_pads_inj {xs ys : List Char} {m n : Nat} (hxs : '=' ∉ xs) (hys : '=' ∉ ys)
    (h : xs ++ List.replicate m '=' = ys ++ List.replicate n '=') : xs = ys ∧ m = n := by
  have hcount := congrArg (List.count '=') h
  rw [List.count_append, List.count_append, List.count_eq_zero.2 hxs, List.count_eq_zero.2 hys,
    List.count_replicate_self, List.count_replicate_self, Nat.zero_add, Nat.zero_add] at hcount
  obtain rfl := hcount
  exact ⟨List.append_cancel_right h, rfl⟩

/-- Characters that have values are in the alphabet. -/
theorem isSymbol_of_mem {symbols : List Char} {values : List Nat}
    (h : List.Forall₂ IsSymbol symbols values) {c : Char} (hc : c ∈ symbols) : c ∈ alphabet := by
  induction h with
  | nil => exact absurd hc List.not_mem_nil
  | cons hd _ ih =>
    rcases List.mem_cons.1 hc with rfl | hc
    · exact hd.mem
    · exact ih hc

/-- The last value has as many zero bits as the pads stand for. -/
theorem Regrouped.last_mod {bytes : List UInt8} {values : List Nat} {n pads : Nat}
    (h : Regrouped bytes (values ++ [n]) pads) : n % 4 ^ pads = 0 := by
  have hvalue := h.value
  rw [List.reverse_append, List.reverse_singleton, List.singleton_append,
    Nat.ofDigits_cons] at hvalue
  have hfew := h.few
  have hdvd : 4 ^ pads ∣ 64 := (Nat.pow_dvd_pow 4 hfew).trans (by decide)
  apply Nat.mod_eq_zero_of_dvd
  rw [← Nat.dvd_add_left (hdvd.mul_right _), hvalue]
  exact Nat.dvd_mul_left _ _

/-- The symbol in front of the pads is that of the last value. -/
theorem last_symbol {symbols before : List Char} {values : List Nat} {c : Char}
    {n pads pads' : Nat} (hsymbols : List.Forall₂ IsSymbol symbols values) (hc : IsSymbol c n)
    (h : symbols ++ List.replicate pads '=' = before ++ c :: List.replicate pads' '=') :
    pads = pads' ∧ ∃ vs, values = vs ++ [n] := by
  have hclean : '=' ∉ symbols := fun hmem => pad_not_mem_alphabet (isSymbol_of_mem hsymbols hmem)
  have hne : c ≠ '=' := fun heq => pad_not_mem_alphabet (heq ▸ hc.mem)
  -- No pad stands before the last symbol, because behind a pad there are only pads.
  have hbefore : '=' ∉ before := by
    intro hmem
    obtain ⟨front, back, rfl⟩ := List.append_of_mem hmem
    rw [List.append_assoc, List.cons_append] at h
    obtain ⟨more, -, hafter⟩ := eq_replicate_of_pad hclean h
    have hmem : c ∈ List.replicate more '=' := by
      rw [← hafter]
      exact List.mem_append_right _ List.mem_cons_self
    exact hne (List.eq_of_mem_replicate hmem)
  have hfront : '=' ∉ before ++ [c] := by
    simp [hbefore, hne.symm]
  rw [List.append_cons] at h
  obtain ⟨rfl, rfl⟩ := append_pads_inj hclean hfront h
  obtain ⟨hfits, hvalues⟩ := forall₂_isSymbol_iff.1 hsymbols
  obtain ⟨vs, ws, rfl, -, hlast⟩ := List.append_eq_map_iff.1 hvalues
  obtain ⟨n', rfl, hsame⟩ := List.map_eq_singleton_iff.1 hlast
  have hn' : n' < 64 := hfits n' (List.mem_append_right _ (List.mem_singleton_self n'))
  obtain rfl : n = n' := hc.value_unique (hsame ▸ isSymbol_symbol hn')
  exact ⟨rfl, vs, rfl⟩

/-- The text of bytes has no flaw. -/
theorem not_flaw_of_canonical {s : String} {bytes : List UInt8} (h : Canonical s bytes) :
    ¬ Flaw s := by
  obtain ⟨symbols, values, pads, rfl, hsymbols, hbytes⟩ := h
  obtain ⟨groups, hvalues, -⟩ := hbytes.groups
  have hfew := hbytes.few
  have hclean : '=' ∉ symbols := fun hmem => pad_not_mem_alphabet (isSymbol_of_mem hsymbols hmem)
  intro hflaw
  -- Each of the four flaws contradicts the form of the text.
  cases hflaw with
  | length h =>
    rw [String.length_ofList, List.length_append, List.length_replicate, hsymbols.length_eq,
      hvalues] at h
    exact h (Nat.dvd_mul_right 4 groups)
  | symbol hc hsymbol hpad =>
    rw [String.toList_ofList] at hc
    rcases List.mem_append.1 hc with hc | hc
    · exact hsymbol (isSymbol_of_mem hsymbols hc)
    · exact hpad (List.eq_of_mem_replicate hc)
  | padding hs hend hlast =>
    rw [String.toList_ofList] at hs
    obtain ⟨more, hmore, rfl⟩ := eq_replicate_of_pad hclean hs
    obtain rfl | rfl : more = 0 ∨ more = 1 := by omega
    · exact hend rfl
    · exact hlast rfl
  | bits hs hsymbol hbits =>
    rw [String.toList_ofList] at hs
    obtain ⟨rfl, vs, rfl⟩ := last_symbol hsymbols hsymbol hs
    exact hbits hbytes.last_mod

/-- The symbols before the first pad, and the pads. -/
theorem exists_pads {s : String} (h : ¬ Flaw s) :
    ∃ symbols pads, s.toList = symbols ++ List.replicate pads '=' ∧ '=' ∉ symbols ∧ pads ≤ 2 := by
  have hclean : '=' ∉ s.toList.takeWhile (· ≠ '=') := by
    intro hmem
    exact absurd (List.mem_takeWhile_imp hmem) (by simp)
  have hsplit := List.takeWhile_append_dropWhile (p := (· ≠ '=')) (l := s.toList)
  cases hrest : s.toList.dropWhile (· ≠ '=') with
  | nil =>
    rw [hrest] at hsplit
    exact ⟨_, 0, hsplit.symm, hclean, by decide⟩
  | cons c after =>
    have hc : c = '=' := by
      have hhead := List.head?_dropWhile_not (· ≠ '=') s.toList
      rw [hrest] at hhead
      simpa using hhead
    rw [hrest, hc] at hsplit
    by_cases hend : after = []
    · rw [hend] at hsplit
      exact ⟨_, 1, hsplit.symm, hclean, by decide⟩
    · by_cases hlast : after = ['=']
      · rw [hlast] at hsplit
        exact ⟨_, 2, hsplit.symm, hclean, le_rfl⟩
      · exact absurd (.padding hsplit.symm hend hlast) h

/-- Characters of the alphabet have values. -/
theorem exists_values {symbols : List Char} (h : ∀ c ∈ symbols, c ∈ alphabet) :
    ∃ values, List.Forall₂ IsSymbol symbols values := by
  induction symbols with
  | nil => exact ⟨[], .nil⟩
  | cons c symbols ih =>
    obtain ⟨hc, hrest⟩ := List.forall_mem_cons.1 h
    obtain ⟨n, hn⟩ := List.mem_iff_getElem?.1 hc
    obtain ⟨values, hvalues⟩ := ih hrest
    exact ⟨n :: values, .cons hn hvalues⟩

/-- Values that fill groups up to some pads, with zero bits where the pads are, are those of
    some bytes. -/
theorem exists_bytes {values : List Nat} {groups pads : Nat} (hfits : ∀ n ∈ values, n < 64)
    (hfew : pads ≤ 2) (hgroups : values.length + pads = 4 * groups)
    (hbits : 4 ^ pads ∣ Nat.ofDigits 64 values.reverse) : ∃ bytes, Regrouped bytes values pads := by
  obtain ⟨m, hm⟩ := hbits
  refine ⟨Wire.bigEndianBytes (3 * groups - pads) m, hfits, hfew, ⟨groups, hgroups, ?_⟩, ?_⟩
  · rw [Wire.length_bigEndianBytes]
    omega
  -- What the pads stand for is divided out; what is left has room in the bytes.
  · have hlt : Nat.ofDigits 64 values.reverse < 64 ^ values.reverse.length :=
      Nat.ofDigits_lt_base_pow_length (by decide) fun n hn => hfits n (List.mem_reverse.1 hn)
    have hweight : 64 ^ values.reverse.length = 256 ^ (3 * groups - pads) * 4 ^ pads := by
      rw [List.length_reverse]
      exact pow_eq_of_bits (by omega)
    rw [hm, hweight, Nat.mul_comm] at hlt
    have hroom : m < 256 ^ (3 * groups - pads) := Nat.lt_of_mul_lt_mul_right hlt
    rw [Wire.bigEndian_bigEndianBytes, Nat.mod_eq_of_lt hroom, hm, Nat.mul_comm]

/-- A text without flaws is the text of some bytes.

    Each flaw that is absent gives a part of the form: pads only at the end and two at most,
    symbols before them, groups that are full, and zero bits where the pads are. -/
theorem canonical_of_not_flaw {s : String} (h : ¬ Flaw s) : ∃ bytes, Canonical s bytes := by
  obtain ⟨symbols, pads, hs, hclean, hfew⟩ := exists_pads h
  have hmem : ∀ c ∈ symbols, c ∈ alphabet := by
    intro c hc
    by_contra hsymbol
    refine h (.symbol (c := c) ?_ hsymbol fun hpad => hclean (hpad ▸ hc))
    rw [hs]
    exact List.mem_append_left _ hc
  obtain ⟨values, hvalues⟩ := exists_values hmem
  obtain ⟨groups, hgroups⟩ : 4 ∣ values.length + pads := by
    by_contra hlength
    refine h (.length ?_)
    rwa [← String.length_toList, hs, List.length_append, List.length_replicate,
      hvalues.length_eq]
  obtain ⟨hfits, hsymbols⟩ := forall₂_isSymbol_iff.1 hvalues
  have hbits : 4 ^ pads ∣ Nat.ofDigits 64 values.reverse := by
    rcases List.eq_nil_or_concat values with rfl | ⟨front, n, rfl⟩
    · exact Nat.dvd_zero _
    · have hdvd : 4 ^ pads ∣ 64 := (Nat.pow_dvd_pow 4 hfew).trans (by decide)
      have hlast : n % 4 ^ pads = 0 := by
        by_contra hbits
        have hn : n < 64 := hfits n (by simp)
        have htext : s.toList = front.map (fun n => Char.ofNat (symbol n).toNat) ++
            Char.ofNat (symbol n).toNat :: List.replicate pads '=' := by
          rw [hs, hsymbols, List.concat_eq_append, List.map_append, List.map_singleton,
            List.append_assoc, List.singleton_append]
        exact h (.bits htext (isSymbol_symbol hn) hbits)
      rw [List.concat_eq_append, List.reverse_append, List.reverse_singleton,
        List.singleton_append, Nat.ofDigits_cons]
      exact Nat.dvd_add (Nat.dvd_of_mod_eq_zero hlast) (hdvd.mul_right _)
  obtain ⟨bytes, hbytes⟩ := exists_bytes hfits hfew hgroups hbits
  refine ⟨bytes, symbols, values, pads, ?_, hvalues, hbytes⟩
  rw [← hs, String.ofList_toList]

/-- A text is refused if and only if it has a flaw.

    The texts that are read are the canonical ones, so it is enough that a text is canonical
    exactly if it has none of the flaws. -/
theorem decode_eq_error_iff {s : String} : (∃ e, decode s = .error e) ↔ Flaw s := by
  constructor
  · intro h
    obtain ⟨e, he⟩ := h
    by_contra hflaw
    obtain ⟨bytes, hbytes⟩ := canonical_of_not_flaw hflaw
    rw [decode_eq_ok_iff.2 (canonical_iff.1 hbytes)] at he
    exact absurd he (by simp)
  · intro h
    cases hs : decode s with
    | error e => exact ⟨e, rfl⟩
    | ok bytes =>
      have hbytes : Canonical s bytes := canonical_iff.2 (decode_eq_ok_iff.1 hs)
      exact absurd h (not_flaw_of_canonical hbytes)

/-- A bit that the bytes have no room for is not ignored. -/
example : decode "/+4=" = .ok [0xff, 0xee] ∧
    decode "/+5=" = .error (.invalidLastSymbol '5'.toUInt8 2) := by
  constructor <;> cbv

end ChainGuest.Base64
