import Mathlib
import ChainGuest.Proofs.Text.Regrouping
import ChainGuest.Proofs.Text.Symbols

/-! # Base 64 is read as it is written

    A text is read in two pieces. The groups in front must be symbols throughout; the last group
    may end in pads, and then the symbols before them have bits that must be zero. Either piece
    is read exactly if its values are those of some bytes (`Base64.finishGroup_eq_ok_iff`), and
    the values of bytes are unique, so the texts that are read are the ones that are written
    (`Base64.decode_eq_ok_iff`).
-/

namespace ChainGuest.Base64

/-! ## Section 1: Symbol by symbol -/

/-- A byte has a value if it is a symbol. Where it stands is for errors only. -/
theorem valueAt_eq_ok_iff (b : UInt8) (offset n : Nat) :
    valueAt b offset = .ok n ↔ symbolValue? b = some n := by
  unfold valueAt
  cases symbolValue? b <;> simp

/-- Bytes have values exactly if they are the symbols of the values. -/
theorem forall₂_symbolValue?_iff {bytes : List UInt8} {values : List Nat} :
    List.Forall₂ (fun b n => symbolValue? b = some n) bytes values ↔
      (∀ n ∈ values, n < 64) ∧ bytes = values.map symbol := by
  constructor
  · intro h
    induction h with
    | nil => exact ⟨List.forall_mem_nil _, rfl⟩
    | cons hd _ ih =>
      obtain ⟨hn, rfl⟩ := symbolValue?_eq_some_iff.1 hd
      exact ⟨List.forall_mem_cons.2 ⟨hn, ih.1⟩, by rw [ih.2, List.map_cons]⟩
  · intro h
    obtain ⟨hfits, rfl⟩ := h
    rw [List.forall₂_map_left_iff, List.forall₂_same]
    intro n hn
    exact symbolValue?_eq_some_iff.2 ⟨hfits n hn, rfl⟩

/-- What is read symbol by symbol are the values, each of which has its symbol. -/
theorem mapM_valueAt_eq_ok_iff {bytes : List UInt8} {values : List Nat} :
    (bytes.zipIdx.mapM fun (b, offset) => valueAt b offset) = .ok values ↔
      (∀ n ∈ values, n < 64) ∧ bytes = values.map symbol := by
  exact (mapM_zipIdx_eq_ok_iff valueAt_eq_ok_iff 0).trans forall₂_symbolValue?_iff

/-- One more pad in front. -/
theorem map_pad_eq_ok_iff {x : Except Fault (List Nat × Nat)} {values : List Nat} {pads : Nat} :
    (x.map fun (values, pads) => (values, pads + 1)) = .ok (values, pads) ↔
      ∃ more, pads = more + 1 ∧ x = .ok (values, more) := by
  rw [map_eq_ok_iff]
  constructor
  · intro h
    obtain ⟨⟨values', more⟩, hx, hpair⟩ := h
    obtain ⟨rfl, rfl⟩ := Prod.mk.inj hpair
    exact ⟨more, rfl, hx⟩
  · intro h
    obtain ⟨more, rfl, hx⟩ := h
    exact ⟨(values, more), hx, rfl⟩

/-- Behind a pad there are only pads. -/
theorem lastGroup_some_eq_ok_iff {start first : Nat} {group : List UInt8} {values : List Nat}
    {index pads : Nat} (hindex : 2 ≤ index) :
    lastGroup start index (some first) group = .ok (values, pads) ↔
      values = [] ∧ group = List.replicate pads pad := by
  -- On the group, from any index behind the second.
  induction group generalizing index values pads with
  | nil =>
    rw [lastGroup]
    constructor
    · intro h
      simp only [Except.ok.injEq, Prod.mk.injEq] at h
      obtain ⟨rfl, rfl⟩ := h
      exact ⟨rfl, rfl⟩
    · intro h
      obtain ⟨rfl, hpads⟩ := h
      obtain rfl : pads = 0 := by simpa using hpads.symm
      rfl
  | cons b rest ih =>
    rw [lastGroup]
    by_cases hb : b = pad
    · rw [if_pos hb, if_neg (by omega), map_pad_eq_ok_iff, hb]
      constructor
      · intro h
        obtain ⟨more, rfl, hrest⟩ := h
        obtain ⟨rfl, rfl⟩ := (ih (by omega)).1 hrest
        exact ⟨rfl, rfl⟩
      · intro h
        obtain ⟨rfl, hpads⟩ := h
        cases pads with
        | zero => exact absurd hpads (by simp)
        | succ more =>
          rw [List.replicate_succ] at hpads
          exact ⟨more, rfl, (ih (by omega)).2 ⟨rfl, (List.cons.inj hpads).2⟩⟩
    · rw [if_neg hb]
      constructor
      · intro h
        exact absurd h (by simp)
      · intro h
        have hmem : b ∈ List.replicate pads pad := h.2 ▸ List.mem_cons_self
        exact absurd (List.eq_of_mem_replicate hmem) hb

/-- A byte that is no pad is read as a symbol. -/
theorem lastGroup_symbol_eq_ok_iff {start index : Nat} {b : UInt8} {rest : List UInt8}
    {values : List Nat} {pads : Nat} (hb : b ≠ pad) :
    lastGroup start index none (b :: rest) = .ok (values, pads) ↔
      ∃ n more, values = n :: more ∧ (n < 64 ∧ b = symbol n) ∧
        lastGroup start (index + 1) none rest = .ok (more, pads) := by
  have hread (n : Nat) : valueAt b (start + index) = .ok n ↔ n < 64 ∧ b = symbol n := by
    rw [valueAt_eq_ok_iff, symbolValue?_eq_some_iff]
  rw [lastGroup, if_neg hb]
  constructor
  · intro h
    cases hn : valueAt b (start + index) with
    | error e =>
      rw [hn] at h
      exact absurd h (by simp [bind, Except.bind])
    | ok n =>
      cases hrest : lastGroup start (index + 1) none rest with
      | error e =>
        rw [hn, hrest] at h
        exact absurd h (by simp [bind, Except.bind])
      | ok tail =>
        rw [hn, hrest] at h
        obtain ⟨rfl, rfl⟩ := Prod.mk.inj (Except.ok.inj h)
        exact ⟨n, tail.1, rfl, (hread n).1 hn, rfl⟩
  · intro h
    obtain ⟨n, more, rfl, hn, hrest⟩ := h
    rw [(hread n).2 hn, hrest]
    rfl

/-- The last group are symbols and the pads behind them, none of which stands before the third
    place. -/
theorem lastGroup_none_eq_ok_iff {start : Nat} {group : List UInt8} {values : List Nat}
    {index pads : Nat} :
    lastGroup start index none group = .ok (values, pads) ↔
      group = textBytes values pads ∧ (∀ n ∈ values, n < 64) ∧
        (pads ≠ 0 → 2 ≤ index + values.length) := by
  -- On the group: a pad must stand at its end, and a symbol may go on.
  induction group generalizing index values pads with
  | nil =>
    rw [lastGroup]
    constructor
    · intro h
      simp only [Except.ok.injEq, Prod.mk.injEq] at h
      obtain ⟨rfl, rfl⟩ := h
      exact ⟨rfl, List.forall_mem_nil _, fun hpads => absurd rfl hpads⟩
    · intro h
      have hempty := List.append_eq_nil_iff.1 h.1.symm
      obtain rfl := List.map_eq_nil_iff.1 hempty.1
      obtain rfl : pads = 0 := by simpa using hempty.2
      rfl
  | cons b rest ih =>
    by_cases hb : b = pad
    · rw [lastGroup, if_pos hb, hb]
      constructor
      · intro h
        by_cases hindex : index < 2
        · rw [if_pos hindex] at h
          exact absurd h (by simp)
        · rw [if_neg hindex] at h
          obtain ⟨more, rfl, hrest⟩ := map_pad_eq_ok_iff.1 h
          obtain ⟨rfl, rfl⟩ := (lastGroup_some_eq_ok_iff (by omega)).1 hrest
          exact ⟨rfl, List.forall_mem_nil _, fun _ => by omega⟩
      · intro h
        obtain ⟨hgroup, hfits, hpads⟩ := h
        cases values with
        | nil =>
          cases pads with
          | zero => exact absurd hgroup (by simp [textBytes])
          | succ more =>
            have hindex : 2 ≤ index := by simpa using hpads (Nat.succ_ne_zero more)
            rw [if_neg (by omega), map_pad_eq_ok_iff]
            have hrest : rest = List.replicate more pad := (List.cons.inj hgroup).2
            exact ⟨more, rfl, (lastGroup_some_eq_ok_iff (by omega)).2 ⟨rfl, hrest⟩⟩
        | cons n values =>
          have hn : pad = symbol n := (List.cons.inj hgroup).1
          exact absurd hn.symm (symbol_ascii (hfits n List.mem_cons_self)).2
    · rw [lastGroup_symbol_eq_ok_iff hb]
      constructor
      · intro h
        obtain ⟨n, more, rfl, ⟨hlt, rfl⟩, hrest⟩ := h
        obtain ⟨rfl, hfits, hpads⟩ := ih.1 hrest
        refine ⟨rfl, List.forall_mem_cons.2 ⟨hlt, hfits⟩, ?_⟩
        intro hne
        have htwo := hpads hne
        rw [List.length_cons]
        omega
      · intro h
        obtain ⟨hgroup, hfits, hpads⟩ := h
        cases values with
        | nil =>
          have hmem : b ∈ List.replicate pads pad := by
            rw [textBytes, List.map_nil, List.nil_append] at hgroup
            rw [← hgroup]
            exact List.mem_cons_self
          exact absurd (List.eq_of_mem_replicate hmem) hb
        | cons n more =>
          obtain ⟨hlt, hfits⟩ := List.forall_mem_cons.1 hfits
          obtain ⟨hn, hrest⟩ : b = symbol n ∧ rest = textBytes more pads := List.cons.inj hgroup
          refine ⟨n, more, rfl, ⟨hlt, hn⟩, ih.2 ⟨hrest, hfits, ?_⟩⟩
          intro hne
          have htwo := hpads hne
          rw [List.length_cons] at htwo
          omega

/-! ## Section 2: The last group -/

/-- A text has a byte for each value and each pad. -/
theorem length_textBytes (values : List Nat) (pads : Nat) :
    (textBytes values pads).length = values.length + pads := by
  rw [textBytes, List.length_append, List.length_map, List.length_replicate]

/-- If values hold bytes under a condition and none without it, checking the condition is checking
    whether they hold bytes. -/
theorem checked_eq_ok_iff {P : Prop} [Decidable P] {e : Fault} {bytes tail : List UInt8}
    {values : List Nat} {pads : Nat} (hbytes : P → Regrouped bytes values pads)
    (hbits : ∀ more, Regrouped more values pads → P) :
    (if ¬ P then .error e else .ok bytes) = Except.ok tail ↔ Regrouped tail values pads := by
  by_cases hP : P
  · rw [if_neg (not_not.2 hP)]
    constructor
    · intro h
      rw [← Except.ok.inj h]
      exact hbytes hP
    · intro h
      rw [(hbytes hP).bytes_unique h]
  · rw [if_pos hP]
    constructor
    · intro h
      exact absurd h (by simp)
    · intro h
      exact absurd (hbits tail h) hP

/-- A full group is read as the bytes that it holds. -/
theorem finishGroup_full_eq_ok_iff {start pads : Nat} {values : List Nat}
    (hfits : ∀ n ∈ values, n < 64) (hfew : pads ≤ 2) (hfull : values.length + pads = 4)
    {tail : List UInt8} :
    finishGroup start (textBytes values pads) = .ok tail ↔ Regrouped tail values pads := by
  have hread : lastGroup start 0 none (textBytes values pads) = .ok (values, pads) :=
    lastGroup_none_eq_ok_iff.2 ⟨rfl, hfits, fun _ => by omega⟩
  have hcount : ¬ (start + (textBytes values pads).length ≠ 0 ∧ values.length < 2) := by omega
  have hgroup : ¬ (values.length + pads) % 4 ≠ 0 := by omega
  unfold finishGroup
  rw [hread]
  simp only [bind, Except.bind]
  rw [if_neg hcount, if_neg hgroup]
  -- Four, three or two values; fewer are not a group, and more would not fit one.
  match values, hfits with
  | [a, b, c, d], hfits =>
    obtain rfl : pads = 0 := by simpa using hfull
    simp only [List.forall_mem_cons] at hfits
    obtain ⟨ha, hb, hc, hd, -⟩ := hfits
    have hbytes := regrouped_four ha hb hc hd
    constructor
    · intro h
      rw [← Except.ok.inj h]
      exact hbytes
    · intro h
      rw [← hbytes.bytes_unique h]
  | [a, b, c], hfits =>
    obtain rfl : pads = 1 := by simpa [Nat.add_comm] using hfull
    simp only [List.forall_mem_cons] at hfits
    obtain ⟨ha, hb, hc, -⟩ := hfits
    obtain ⟨hbytes, hbits⟩ := regrouped_three ha hb hc
    exact checked_eq_ok_iff hbytes hbits
  | [a, b], hfits =>
    obtain rfl : pads = 2 := by simpa [Nat.add_comm] using hfull
    simp only [List.forall_mem_cons] at hfits
    obtain ⟨ha, hb, -⟩ := hfits
    obtain ⟨hbytes, hbits⟩ := regrouped_two ha hb
    exact checked_eq_ok_iff hbytes hbits
  | [_], _ =>
    rw [List.length_singleton] at hfull
    omega
  | [], _ =>
    rw [List.length_nil] at hfull
    omega
  | _ :: _ :: _ :: _ :: _ :: _, _ =>
    simp only [List.length_cons] at hfull
    omega

/-- What is left of a text is read if it is a group, or nothing at all. -/
theorem finishGroup_eq_ok_iff {start : Nat} {group tail : List UInt8}
    (hstart : group = [] → start = 0) (hlength : group.length ≤ 4) :
    finishGroup start group = .ok tail ↔
      ∃ values pads, group = textBytes values pads ∧ Regrouped tail values pads := by
  constructor
  · intro h
    cases hread : lastGroup start 0 none group with
    | error e =>
      rw [finishGroup, hread] at h
      exact absurd h (by simp [bind, Except.bind])
    | ok last =>
      obtain ⟨values, pads⟩ := last
      obtain ⟨hgroup, hfits, hpads⟩ := lastGroup_none_eq_ok_iff.1 hread
      refine ⟨values, pads, hgroup, ?_⟩
      have hsize := length_textBytes values pads
      rw [← hgroup] at hsize
      by_cases hfull : values.length + pads = 4
      · have hfew : pads ≤ 2 := by omega
        exact (finishGroup_full_eq_ok_iff hfits hfew hfull).1 (hgroup ▸ h)
      · -- A group that is not full is only read if the text is empty.
        unfold finishGroup at h
        rw [hread] at h
        simp only [bind, Except.bind] at h
        by_cases hcount : start + group.length ≠ 0 ∧ values.length < 2
        · rw [if_pos hcount] at h
          exact absurd h (by simp)
        · rw [if_neg hcount] at h
          by_cases hpadding : (values.length + pads) % 4 = 0
          · have hnone : values.length = 0 ∧ pads = 0 := by omega
            obtain rfl := List.eq_nil_of_length_eq_zero hnone.1
            rw [if_neg (not_not.2 hpadding)] at h
            rw [hnone.2, ← Except.ok.inj h]
            exact regrouped_nil
          · rw [if_pos hpadding] at h
            exact absurd h (by simp)
  · intro h
    obtain ⟨values, pads, rfl, hbytes⟩ := h
    obtain ⟨groups, hvalues, htail⟩ := hbytes.groups
    have hfew := hbytes.few
    rw [length_textBytes] at hlength
    by_cases hfull : values.length + pads = 4
    · exact (finishGroup_full_eq_ok_iff hbytes.fits hfew hfull).2 hbytes
    · have hnone : values.length = 0 ∧ pads = 0 ∧ tail.length = 0 := by omega
      obtain rfl := List.eq_nil_of_length_eq_zero hnone.1
      obtain rfl := List.eq_nil_of_length_eq_zero hnone.2.2
      obtain rfl := hnone.2.1
      rw [hstart rfl]
      rfl

/-! ## Section 3: The whole text -/

/-- What stands before the last group, and the last group, as they are read. -/
def ReadsGroups (text bytes : List UInt8) : Prop :=
  let start := (text.length - 1) / 4 * 4
  ∃ values tail, (text.take start).zipIdx.mapM (fun (b, offset) => valueAt b offset) = .ok values ∧
    finishGroup start (text.drop start) = .ok tail ∧ bytes = quads values ++ tail

/-- A text that is read is read in its two pieces. What is checked before that only refuses. -/
theorem readsGroups_of_decode {s : String} {bytes : List UInt8} (h : decode s = .ok bytes) :
    ReadsGroups (Utf8.encode s) bytes := by
  have hrest : (do
      let start := ((Utf8.encode s).length - 1) / 4 * 4
      let values ← ((Utf8.encode s).take start).zipIdx.mapM fun (b, offset) => valueAt b offset
      let tail ← finishGroup start ((Utf8.encode s).drop start)
      return quads values ++ tail) = Except.ok bytes := by
    unfold decode at h
    simp only at h
    split at h
    · split at h
      · split at h
        · exact absurd h (by simp [bind, Except.bind])
        · exact h
      · exact h
    · exact h
  simp only at hrest
  unfold ReadsGroups
  cases hvalues : ((Utf8.encode s).take (((Utf8.encode s).length - 1) / 4 * 4)).zipIdx.mapM
      fun (b, offset) => valueAt b offset with
  | error e =>
    rw [hvalues] at hrest
    exact absurd hrest (by simp [bind, Except.bind])
  | ok values =>
    cases htail : finishGroup (((Utf8.encode s).length - 1) / 4 * 4)
        ((Utf8.encode s).drop (((Utf8.encode s).length - 1) / 4 * 4)) with
    | error e =>
      rw [hvalues, htail] at hrest
      exact absurd hrest (by simp [bind, Except.bind])
    | ok tail =>
      rw [hvalues, htail] at hrest
      exact ⟨values, tail, hvalues, htail, (Except.ok.inj hrest).symm⟩

/-- A text whose two pieces are read is read, if its length is not one that no groups have. -/
theorem decode_of_readsGroups {s : String} {bytes : List UInt8}
    (hlength : (Utf8.encode s).length % 4 ≠ 1) (h : ReadsGroups (Utf8.encode s) bytes) :
    decode s = .ok bytes := by
  obtain ⟨values, tail, hvalues, htail, rfl⟩ := h
  unfold decode
  simp only [if_neg hlength, hvalues, htail]
  rfl

/-- Bytes are regrouped group by group.

    Nothing is cut: what is written of the groups in front and of the rest is put together, and as
    the values of bytes are unique, these are the values that were given. -/
theorem Regrouped.split {bytes : List UInt8} {values : List Nat} {pads : Nat}
    (h : Regrouped bytes values pads) (groups : Nat) (hgroups : 3 * groups ≤ bytes.length) :
    ∃ vs ws, values = vs ++ ws ∧ vs.length = 4 * groups ∧
      Regrouped (bytes.take (3 * groups)) vs 0 ∧ Regrouped (bytes.drop (3 * groups)) ws pads := by
  obtain ⟨vs, pads₁, hfront, -⟩ := exists_symbols (bytes.take (3 * groups))
  obtain ⟨ws, pads₂, htail, -⟩ := exists_symbols (bytes.drop (3 * groups))
  obtain ⟨m, hvs, hbytes⟩ := hfront.groups
  have hfew := hfront.few
  rw [List.length_take, Nat.min_eq_left hgroups] at hbytes
  obtain rfl : pads₁ = 0 := by omega
  have hboth := hfront.append htail
  rw [List.take_append_drop] at hboth
  obtain ⟨hvalues, rfl⟩ := h.values_unique hboth
  exact ⟨vs, ws, hvalues, by omega, hfront, htail⟩

/-- The symbols of the values in front stand in front. -/
theorem textBytes_append (vs ws : List Nat) (pads : Nat) :
    textBytes (vs ++ ws) pads = vs.map symbol ++ textBytes ws pads := by
  rw [textBytes, List.map_append, List.append_assoc, ← textBytes]

/-- What is read of two pieces are the bytes whose values are in them. -/
theorem regrouped_of_readsGroups {text bytes : List UInt8} (h : ReadsGroups text bytes) :
    ∃ values pads, Regrouped bytes values pads ∧ text = textBytes values pads := by
  obtain ⟨values, tail, hread, htail, rfl⟩ := h
  obtain ⟨hfits, hvalues⟩ := mapM_valueAt_eq_ok_iff.1 hread
  have hcount := congrArg List.length hvalues
  rw [List.length_take, List.length_map, Nat.min_eq_left (by omega)] at hcount
  rw [finishGroup_eq_ok_iff] at htail
  · obtain ⟨vs, pads, hgroup, hvs⟩ := htail
    have hfront := regrouped_quads values (by omega) hfits
    refine ⟨values ++ vs, pads, hfront.append hvs, ?_⟩
    rw [textBytes_append, ← hgroup, ← hvalues, List.take_append_drop]
  · intro hnone
    rw [List.drop_eq_nil_iff] at hnone
    omega
  · rw [List.length_drop]
    omega

/-- The text of the values of bytes is read in two pieces. All groups but the last one are full,
    so the pads are in the last piece. -/
theorem Regrouped.readsGroups {bytes : List UInt8} {values : List Nat} {pads : Nat}
    (h : Regrouped bytes values pads) : ReadsGroups (textBytes values pads) bytes := by
  obtain ⟨groups, hvalues, hlength⟩ := h.groups
  have hfew := h.few
  have hstart : ((textBytes values pads).length - 1) / 4 * 4 = 4 * (groups - 1) := by
    rw [length_textBytes]
    omega
  obtain ⟨vs, ws, rfl, hvs, hfront, htail⟩ := h.split (groups - 1) (by omega)
  have hsize : (vs.map symbol).length = 4 * (groups - 1) := by rw [List.length_map, hvs]
  rw [List.length_append] at hvalues
  unfold ReadsGroups
  dsimp only
  rw [hstart, textBytes_append, List.take_left' hsize, List.drop_left' hsize]
  refine ⟨vs, bytes.drop (3 * (groups - 1)), mapM_valueAt_eq_ok_iff.2 ⟨hfront.fits, rfl⟩, ?_, ?_⟩
  · rw [finishGroup_eq_ok_iff]
    · exact ⟨ws, pads, rfl, htail⟩
    · intro hnone
      have hempty := congrArg List.length hnone
      rw [length_textBytes, List.length_nil] at hempty
      omega
    · rw [length_textBytes]
      omega
  · have hquads := regrouped_quads vs (by omega) hfront.fits
    rw [hquads.bytes_unique hfront, List.take_append_drop]

/-- The texts that are read are those of the values and pads of some bytes. -/
theorem decode_eq_ok_iff_textBytes {s : String} {bytes : List UInt8} :
    decode s = .ok bytes ↔
      ∃ values pads, Regrouped bytes values pads ∧ Utf8.encode s = textBytes values pads := by
  constructor
  · intro h
    exact regrouped_of_readsGroups (readsGroups_of_decode h)
  · intro h
    obtain ⟨values, pads, hbytes, htext⟩ := h
    obtain ⟨groups, hvalues, -⟩ := hbytes.groups
    apply decode_of_readsGroups
    · rw [htext, length_textBytes]
      omega
    · rw [htext]
      exact hbytes.readsGroups

/-! ## Section 4: Texts of bytes -/

/-- Symbols and pads are ASCII. -/
theorem textBytes_ascii {values : List Nat} (hfits : ∀ n ∈ values, n < 64) (pads : Nat) :
    ∀ b ∈ textBytes values pads, b.toNat < 128 := by
  intro b hb
  rcases List.mem_append.1 hb with hb | hb
  · obtain ⟨n, hn, rfl⟩ := List.mem_map.1 hb
    exact (symbol_ascii (hfits n hn)).1
  · rw [List.eq_of_mem_replicate hb]
    decide

/-- Bytes and their text, in terms of the values: every value has its symbol in the text, and
    pads fill up the last group. -/
theorem encode_eq_iff {s : String} {bytes : List UInt8} :
    s = encode bytes ↔
      ∃ values pads, Regrouped bytes values pads ∧ Utf8.encode s = textBytes values pads := by
  obtain ⟨values, pads, hbytes, hsymbols⟩ := exists_symbols bytes
  have hencode : Utf8.encode (encode bytes) = textBytes values pads := by
    rw [encode, Utf8.encode_ofList_map, hsymbols]
    rw [hsymbols]
    exact textBytes_ascii hbytes.fits pads
  constructor
  · intro h
    exact ⟨values, pads, hbytes, h ▸ hencode⟩
  · intro h
    obtain ⟨values', pads', hbytes', htext⟩ := h
    obtain ⟨rfl, rfl⟩ := hbytes.values_unique hbytes'
    exact Utf8.encode_injective (htext.trans hencode.symm)

/-- A text is read as bytes if and only if it is the text that is written of these bytes. -/
theorem decode_eq_ok_iff {s : String} {bytes : List UInt8} :
    decode s = .ok bytes ↔ s = encode bytes := by
  rw [decode_eq_ok_iff_textBytes, encode_eq_iff]

end ChainGuest.Base64
