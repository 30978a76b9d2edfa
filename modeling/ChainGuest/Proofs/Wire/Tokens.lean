import Mathlib
import ChainGuest.Proofs.Wire.Accepts
import ChainGuest.Proofs.Wire.BigEndian

/-! # Token readers against the token grammar

    Each reader of a single token accepts exactly the forms of that token: every admitted
    form is read, and nothing else is. A marker's form is one row of a table, so the proof
    for a kind of token is an inversion of its table (`tokenForm_headerTable` for headers,
    `integerForm?_cases` for integers) and the arithmetic of big-endian numbers.
-/

namespace ChainGuest.Wire

/-! ## Section 1: Markers and payloads -/

/-- The bytes of a token by its table of markers: a marker, and the payload it asks for. -/
def TokenForm {α : Type} (form? : UInt8 → Option (Form α)) : Grammar α := fun bytes a =>
  ∃ marker form payload, bytes = marker :: payload ∧ form? marker = some form ∧
    payload.length = form.width ∧ a = form.value payload

protected theorem Reader.Accepts.token {α : Type} {depth : Nat} (shape : Shape)
    (form? : UInt8 → Option (Form α)) : Accepts depth (token shape form?) (TokenForm form?) := by
  intro c _ a c'
  constructor
  · intro h
    -- The reader stops in three places: at the end, at a marker without a row, and at a payload
    -- that is cut short. Only the way past all of them succeeds.
    unfold Reader.token at h
    split at h
    · simp at h
    · next marker tail hrest =>
      split at h
      · simp at h
      · next form hform =>
        split at h
        · simp at h
        · next payload back hsplit =>
          obtain ⟨rfl, hwidth⟩ := splitFront?_eq_some_iff.1 hsplit
          obtain ⟨ha, rfl⟩ := by simpa using h
          refine ⟨marker :: payload, back, hrest, ⟨marker, form, payload, rfl, hform, hwidth,
            ha.symm⟩, ?_⟩
          rw [List.length_cons, hwidth, Nat.add_comm]
  · rintro ⟨front, back, hrest, ⟨marker, form, payload, rfl, hform, hwidth, rfl⟩, rfl⟩
    have hsplit : splitFront? form.width (payload ++ back) = some (payload, back) :=
      splitFront?_eq_some_iff.2 ⟨rfl, hwidth⟩
    unfold Reader.token
    simp only [hrest, List.cons_append, hform, hsplit, List.length_cons, hwidth, Nat.add_comm]

/-! ## Section 2: Headers -/

/-- The table of the markers of headers: a range for the counts that stand in the marker,
    and one row for each width of the others. -/
def headerTable (base room : Nat) (wide : List (UInt8 × Nat)) (marker : UInt8) :
    Option (Form Nat) :=
  if base ≤ marker.toNat ∧ marker.toNat < base + room then some (.bare (marker.toNat - base))
  else (wide.lookup marker).map Form.count

theorem arrayForm?_eq_headerTable :
    arrayForm? = headerTable 0x90 16 [(0xdc, 2), (0xdd, 4)] := by
  funext marker
  simp [arrayForm?, headerTable, List.lookup, UInt8.le_iff_toNat_le]
  grind

theorem mapForm?_eq_headerTable : mapForm? = headerTable 0x80 16 [(0xde, 2), (0xdf, 4)] := by
  funext marker
  simp [mapForm?, headerTable, List.lookup, UInt8.le_iff_toNat_le]
  grind

theorem stringForm?_eq_headerTable :
    stringForm? = headerTable 0xa0 32 [(0xd9, 1), (0xda, 2), (0xdb, 4)] := by
  funext marker
  simp [stringForm?, headerTable, List.lookup, UInt8.le_iff_toNat_le]
  grind

theorem binaryForm?_eq_headerTable :
    binaryForm? = headerTable 0 0 [(0xc4, 1), (0xc5, 2), (0xc6, 4)] := by
  funext marker
  simp [binaryForm?, headerTable, List.lookup]
  grind

theorem mem_of_lookup {wide : List (UInt8 × Nat)} {marker : UInt8} {width : Nat}
    (h : wide.lookup marker = some width) : (marker, width) ∈ wide := by
  obtain ⟨above, below, rfl, -⟩ := List.lookup_eq_some_iff.1 h
  simp

/-- A table spells the headers of its parameters, if no wide marker lies in the range of the
    others and no marker has two rows. All four kinds of headers are instances of this: what is
    particular to them is their table, and `decide` looks over its rows. -/
theorem tokenForm_headerTable {base room : Nat} {wide : List (UInt8 × Nat)}
    (hroom : base + room ≤ 256)
    (hwide : ∀ row ∈ wide, base + room ≤ row.1.toNat ∧ wide.lookup row.1 = some row.2)
    (bytes : List UInt8) (n : Nat) :
    TokenForm (headerTable base room wide) bytes n ↔ Header base room wide bytes n := by
  constructor
  · rintro ⟨marker, form, payload, rfl, hform, hwidth, rfl⟩
    unfold headerTable at hform
    -- Either the count stands in the marker, or the marker has a row of its own.
    split at hform
    · next hrange =>
      obtain rfl := Option.some.inj hform
      obtain rfl : payload = [] := List.length_eq_zero_iff.1 hwidth
      have hheader : Header base room wide [UInt8.ofNat (base + (marker.toNat - base))]
          (marker.toNat - base) := .fixed (by omega)
      rwa [Nat.add_sub_cancel' hrange.1, UInt8.ofNat_toNat] at hheader
    · obtain ⟨width, hlookup, rfl⟩ := Option.map_eq_some_iff.1 hform
      -- The payload is the count written in as many bytes.
      have hwidth : payload.length = width := hwidth
      have hheader : Header base room wide
          (marker :: bigEndianBytes payload.length (bigEndian payload)) (bigEndian payload) :=
        .wide (hwidth ▸ mem_of_lookup hlookup) (bigEndian_lt payload)
      rwa [bigEndianBytes_bigEndian] at hheader
  · intro hg
    cases hg with
    | fixed hn =>
      have htoNat : (UInt8.ofNat (base + n)).toNat = base + n :=
        UInt8.toNat_ofNat_of_lt' (by rw [UInt8.size]; omega)
      refine ⟨_, .bare n, [], rfl, ?_, rfl, rfl⟩
      unfold headerTable
      rw [htoNat, if_pos (by omega), Nat.add_sub_cancel_left]
    | @wide marker width _ hm hn =>
      obtain ⟨hlow, hlookup⟩ := hwide (marker, width) hm
      refine ⟨marker, .count width, bigEndianBytes width n, rfl, ?_,
        length_bigEndianBytes width n, ?_⟩
      · unfold headerTable
        -- The range of the fixed form ends below every wide marker, so its test fails.
        rw [if_neg (by simp only at hlow; omega), hlookup]
        rfl
      · change n = bigEndian (bigEndianBytes width n)
        rw [bigEndian_bigEndianBytes, Nat.mod_eq_of_lt hn]

namespace Reader.Accepts

variable {depth : Nat}

protected theorem arrayLength : Accepts depth arrayLength ArrayHeader := by
  refine (Accepts.token .array arrayForm?).congr ?_
  rw [arrayForm?_eq_headerTable]
  exact tokenForm_headerTable (by decide) (by decide)

protected theorem mapLength : Accepts depth mapLength MapHeader := by
  refine (Accepts.token .map mapForm?).congr ?_
  rw [mapForm?_eq_headerTable]
  exact tokenForm_headerTable (by decide) (by decide)

theorem stringLength : Accepts depth (token .string stringForm?) StringHeader := by
  refine (Accepts.token .string stringForm?).congr ?_
  rw [stringForm?_eq_headerTable]
  exact tokenForm_headerTable (by decide) (by decide)

theorem binaryLength : Accepts depth (token .binary binaryForm?) BinaryHeader := by
  refine (Accepts.token .binary binaryForm?).congr ?_
  rw [binaryForm?_eq_headerTable]
  exact tokenForm_headerTable (by decide) (by decide)

end Reader.Accepts

/-! ## Section 3: Scalars -/

/-- What the table of integers can say of a marker, one case for each kind of form. This is the
    one place where the tests of the table are gone through; whatever is said of integers below
    goes through these four cases. -/
theorem integerForm?_cases {marker : UInt8} {form : Form Int}
    (h : integerForm? marker = some form) :
    (marker.toNat < 0x80 ∧ form = .bare marker.toNat) ∨
      (0xe0 ≤ marker.toNat ∧ form = .bare ((marker.toNat : Int) - 256)) ∨
      (∃ width, (marker, width) ∈ unsignedForms ∧
        form = ⟨width, fun payload => bigEndian payload⟩) ∨
      ∃ width, (marker, width) ∈ signedForms ∧ form = ⟨width, bigEndianSigned⟩ := by
  unfold integerForm? at h
  -- One test after another, as the table makes them; splitting all of them at once would
  -- carry every earlier test into every case.
  by_cases hpos : marker < 0x80
  · rw [if_pos hpos] at h
    exact .inl ⟨UInt8.lt_iff_toNat_lt.1 hpos, (Option.some.inj h).symm⟩
  rw [if_neg hpos] at h
  by_cases hneg : 0xe0 ≤ marker
  · rw [if_pos hneg] at h
    exact .inr (.inl ⟨UInt8.le_iff_toNat_le.1 hneg, (Option.some.inj h).symm⟩)
  rw [if_neg hneg] at h
  right
  right
  by_cases hcc : marker = 0xcc
  · rw [if_pos hcc] at h
    exact .inl ⟨1, by simp [hcc, unsignedForms], (Option.some.inj h).symm⟩
  rw [if_neg hcc] at h
  by_cases hcd : marker = 0xcd
  · rw [if_pos hcd] at h
    exact .inl ⟨2, by simp [hcd, unsignedForms], (Option.some.inj h).symm⟩
  rw [if_neg hcd] at h
  by_cases hce : marker = 0xce
  · rw [if_pos hce] at h
    exact .inl ⟨4, by simp [hce, unsignedForms], (Option.some.inj h).symm⟩
  rw [if_neg hce] at h
  by_cases hcf : marker = 0xcf
  · rw [if_pos hcf] at h
    exact .inl ⟨8, by simp [hcf, unsignedForms], (Option.some.inj h).symm⟩
  rw [if_neg hcf] at h
  by_cases hd0 : marker = 0xd0
  · rw [if_pos hd0] at h
    exact .inr ⟨1, by simp [hd0, signedForms], (Option.some.inj h).symm⟩
  rw [if_neg hd0] at h
  by_cases hd1 : marker = 0xd1
  · rw [if_pos hd1] at h
    exact .inr ⟨2, by simp [hd1, signedForms], (Option.some.inj h).symm⟩
  rw [if_neg hd1] at h
  by_cases hd2 : marker = 0xd2
  · rw [if_pos hd2] at h
    exact .inr ⟨4, by simp [hd2, signedForms], (Option.some.inj h).symm⟩
  rw [if_neg hd2] at h
  by_cases hd3 : marker = 0xd3
  · rw [if_pos hd3] at h
    exact .inr ⟨8, by simp [hd3, signedForms], (Option.some.inj h).symm⟩
  rw [if_neg hd3] at h
  exact absurd h (by simp)

theorem integerForm?_unsigned {marker : UInt8} {width : Nat}
    (h : (marker, width) ∈ unsignedForms) :
    integerForm? marker = some ⟨width, fun payload => bigEndian payload⟩ := by
  simp only [unsignedForms, List.mem_cons, Prod.mk.injEq, List.not_mem_nil, or_false] at h
  rcases h with ⟨rfl, rfl⟩ | ⟨rfl, rfl⟩ | ⟨rfl, rfl⟩ | ⟨rfl, rfl⟩ <;> rfl

theorem integerForm?_signed {marker : UInt8} {width : Nat}
    (h : (marker, width) ∈ signedForms) :
    integerForm? marker = some ⟨width, bigEndianSigned⟩ := by
  simp only [signedForms, List.mem_cons, Prod.mk.injEq, List.not_mem_nil, or_false] at h
  rcases h with ⟨rfl, rfl⟩ | ⟨rfl, rfl⟩ | ⟨rfl, rfl⟩ | ⟨rfl, rfl⟩ <;> rfl

theorem integerForm_of_tokenForm {bytes : List UInt8} {n : Int}
    (h : TokenForm integerForm? bytes n) : IntegerForm bytes n := by
  obtain ⟨marker, form, payload, rfl, hform, hwidth, rfl⟩ := h
  have hmarker : marker.toNat < 256 := marker.toNat_lt
  -- One case for each kind of form that the table knows.
  rcases integerForm?_cases hform with ⟨hsmall, rfl⟩ | ⟨hlarge, rfl⟩ | ⟨width, hm, rfl⟩ |
    ⟨width, hm, rfl⟩
  · obtain rfl : payload = [] := List.length_eq_zero_iff.1 hwidth
    have hpositive := IntegerForm.positive hsmall
    rwa [UInt8.ofNat_toNat] at hpositive
  · obtain rfl : payload = [] := List.length_eq_zero_iff.1 hwidth
    -- The marker is the residue of the number it stands for.
    have hnegative : IntegerForm [UInt8.ofNat (0x100 + ((marker.toNat : Int) - 256)).toNat]
        ((marker.toNat : Int) - 256) := .negative (by omega) (by omega)
    have hbyte : (0x100 + ((marker.toNat : Int) - 256)).toNat = marker.toNat := by omega
    rwa [hbyte, UInt8.ofNat_toNat] at hnegative
  · have hwidth : payload.length = width := hwidth
    have hunsigned := IntegerForm.unsigned (hwidth ▸ hm) (bigEndian_lt payload)
    rwa [bigEndianBytes_bigEndian] at hunsigned
  · have hwidth : payload.length = width := hwidth
    -- In two's complement the payload is the residue of what it says.
    obtain ⟨hl, hu, hresidue⟩ := bigEndianSigned_spec payload
    have hsigned := IntegerForm.signed (hwidth ▸ hm) hl hu
    rwa [hresidue, bigEndianBytes_bigEndian] at hsigned

theorem tokenForm_of_integerForm {bytes : List UInt8} {n : Int} (h : IntegerForm bytes n) :
    TokenForm integerForm? bytes n := by
  cases h with
  | @positive n hn =>
    have htoNat : (UInt8.ofNat n).toNat = n :=
      UInt8.toNat_ofNat_of_lt' (by rw [UInt8.size]; omega)
    have hlt : UInt8.ofNat n < 0x80 := by
      rw [UInt8.lt_iff_toNat_lt, htoNat]
      exact hn
    refine ⟨_, .bare n, [], rfl, ?_, rfl, rfl⟩
    unfold integerForm?
    rw [if_pos hlt, htoNat]
  | negative hl hu =>
    have htoNat : (UInt8.ofNat (0x100 + n).toNat).toNat = (0x100 + n).toNat :=
      UInt8.toNat_ofNat_of_lt' (by rw [UInt8.size]; omega)
    -- A residue of a small negative number lies in the upper range of the markers.
    have hnot : ¬ UInt8.ofNat (0x100 + n).toNat < 0x80 := by
      rw [UInt8.lt_iff_toNat_lt, htoNat]
      change ¬ (0x100 + n).toNat < 0x80
      omega
    have hle : 0xe0 ≤ UInt8.ofNat (0x100 + n).toNat := by
      rw [UInt8.le_iff_toNat_le, htoNat]
      change 0xe0 ≤ (0x100 + n).toNat
      omega
    refine ⟨_, .bare n, [], rfl, ?_, rfl, rfl⟩
    unfold integerForm?
    rw [if_neg hnot, if_pos hle, htoNat]
    congr 2
    omega
  | @unsigned marker width n hm hn =>
    refine ⟨marker, _, bigEndianBytes width n, rfl, integerForm?_unsigned hm,
      length_bigEndianBytes width n, ?_⟩
    change (n : Int) = (bigEndian (bigEndianBytes width n) : Nat)
    rw [bigEndian_bigEndianBytes, Nat.mod_eq_of_lt hn]
  | @signed marker width _ hm hl hu =>
    exact ⟨marker, _, bigEndianBytes width (n % 256 ^ width).toNat, rfl, integerForm?_signed hm,
      length_bigEndianBytes width _, (bigEndianSigned_bigEndianBytes hl hu).symm⟩

/-- The token of an integer, whatever its type will be. -/
theorem Reader.Accepts.integerToken {depth : Nat} :
    Accepts depth (token .integer integerForm?) IntegerForm :=
  (Accepts.token .integer integerForm?).congr fun _ _ =>
    ⟨integerForm_of_tokenForm, tokenForm_of_integerForm⟩

/-- An integer reader reads every form of every integer of its type, and nothing else. -/
protected theorem Reader.Accepts.integer {depth : Nat} (kind : IntKind) :
    Accepts depth (integer kind) fun bytes n => IntegerForm bytes n ∧ kind.Holds n := by
  intro c hd n c'
  have htoken : Accepts depth (token .integer integerForm?) IntegerForm := integerToken
  unfold Reader.integer
  -- The range is looked at behind the token, so the token is read either way.
  constructor
  · intro h
    split at h
    · next m c₁ hm =>
      split at h
      · next hholds =>
        obtain ⟨rfl, rfl⟩ : m = n ∧ c₁ = c' := by simpa using h
        obtain ⟨front, back, hr, hg, rfl⟩ := (htoken c hd m c₁).1 hm
        exact ⟨front, back, hr, ⟨hg, hholds⟩, rfl⟩
      · simp at h
    · simp at h
  · rintro ⟨front, back, hr, ⟨hg, hholds⟩, rfl⟩
    have hrun := htoken.run hd hr hg
    simp only [hrun, if_pos hholds]

namespace Reader.Accepts

variable {α : Type} {depth : Nat}

/-- Words of a type are the integers of its kind, by `toInt`. -/
theorem word (kind : IntKind) {ofInt : Int → α} {toInt : α → Int}
    (hto : ∀ n, kind.Holds n → toInt (ofInt n) = n) (hof : ∀ a, ofInt (toInt a) = a)
    (hholds : ∀ a, kind.Holds (toInt a)) :
    Accepts depth (integer kind >>= fun n => pure (ofInt n)) fun bytes a =>
      IntegerForm bytes (toInt a) := by
  refine ((Accepts.integer kind).map ofInt).congr fun bytes a => ?_
  constructor
  · rintro ⟨n, ⟨hg, hn⟩, rfl⟩
    rwa [hto n hn]
  · intro hg
    exact ⟨toInt a, ⟨hg, hholds a⟩, (hof a).symm⟩

protected theorem u8 : Accepts depth u8 ByteForm := by
  refine word .u8 (fun n hn => ?_) (fun b => ?_) (fun b => ?_)
  · obtain ⟨hl, hu⟩ : 0 ≤ n ∧ n ≤ 0xff := hn
    simp only [UInt8.toNat_ofNat']
    omega
  · simp
  · have := b.toNat_lt
    exact ⟨by simp [IntKind.least], by simp only [IntKind.greatest]; omega⟩

protected theorem u32 : Accepts depth u32 fun bytes n => IntegerForm bytes n.toNat := by
  refine word .u32 (fun n hn => ?_) (fun m => ?_) (fun m => ?_)
  · obtain ⟨hl, hu⟩ : 0 ≤ n ∧ n ≤ 0xffffffff := hn
    simp only [UInt32.toNat_ofNat']
    omega
  · simp
  · have := m.toNat_lt
    exact ⟨by simp [IntKind.least], by simp only [IntKind.greatest]; omega⟩

protected theorem u64 : Accepts depth u64 fun bytes n => IntegerForm bytes n.toNat := by
  refine word .u64 (fun n hn => ?_) (fun m => ?_) (fun m => ?_)
  · obtain ⟨hl, hu⟩ : 0 ≤ n ∧ n ≤ 0xffffffffffffffff := hn
    simp only [UInt64.toNat_ofNat']
    omega
  · simp
  · have := m.toNat_lt
    exact ⟨by simp [IntKind.least], by simp only [IntKind.greatest]; omega⟩

protected theorem i64 : Accepts depth i64 fun bytes n => IntegerForm bytes n.toInt := by
  refine word .i64 (fun n hn => ?_) (fun m => ?_) (fun m => ?_)
  · obtain ⟨hl, hu⟩ : -0x8000000000000000 ≤ n ∧ n ≤ 0x7fffffffffffffff := hn
    exact Int64.toInt_ofInt_of_le hl (by omega)
  · simp
  · have hl := m.le_toInt
    have hu := m.toInt_lt
    exact ⟨by simp only [IntKind.least]; omega, by simp only [IntKind.greatest]; omega⟩

protected theorem nil : Accepts depth nil NilForm := by
  refine (Accepts.token .nil nilForm?).congr fun bytes a => ?_
  constructor
  · rintro ⟨marker, form, payload, rfl, hform, hwidth, rfl⟩
    unfold nilForm? at hform
    split at hform
    · next hm =>
      obtain rfl := Option.some.inj hform
      obtain rfl : payload = [] := List.length_eq_zero_iff.1 hwidth
      rw [hm]
      exact .nil
    · simp at hform
  · rintro ⟨⟩
    exact ⟨0xc0, .bare (), [], rfl, rfl, rfl, rfl⟩

protected theorem bool : Accepts depth bool BoolForm := by
  refine (Accepts.token .bool boolForm?).congr fun bytes a => ?_
  constructor
  · rintro ⟨marker, form, payload, rfl, hform, hwidth, rfl⟩
    unfold boolForm? at hform
    split at hform
    · next hm =>
      obtain rfl := Option.some.inj hform
      obtain rfl : payload = [] := List.length_eq_zero_iff.1 hwidth
      rw [hm]
      exact .false
    split at hform
    · next hm =>
      obtain rfl := Option.some.inj hform
      obtain rfl : payload = [] := List.length_eq_zero_iff.1 hwidth
      rw [hm]
      exact .true
    · simp at hform
  · rintro (_ | _)
    · exact ⟨0xc2, .bare false, [], rfl, rfl, rfl, rfl⟩
    · exact ⟨0xc3, .bare true, [], rfl, rfl, rfl, rfl⟩

protected theorem float : Accepts depth float FloatForm := by
  refine (Accepts.token .float floatForm?).congr fun bytes x => ?_
  constructor
  · rintro ⟨marker, form, payload, rfl, hform, hwidth, rfl⟩
    unfold floatForm? at hform
    split at hform
    · next hm =>
      obtain rfl := Option.some.inj hform
      have hwidth : payload.length = 4 := hwidth
      have hsingle := FloatForm.single (hwidth ▸ bigEndian_lt payload)
      rw [← hwidth, bigEndianBytes_bigEndian] at hsingle
      rwa [hm]
    split at hform
    · next hm =>
      obtain rfl := Option.some.inj hform
      have hwidth : payload.length = 8 := hwidth
      -- Eight bytes are a word, so no bit of the double is lost.
      have hlt : bigEndian payload < 256 ^ 8 := hwidth ▸ bigEndian_lt payload
      have hdouble := FloatForm.double ⟨UInt64.ofNat (bigEndian payload)⟩
      rw [UInt64.toNat_ofNat_of_lt' hlt, ← hwidth, bigEndianBytes_bigEndian] at hdouble
      rwa [hm]
    · simp at hform
  · intro hg
    cases hg with
    | double x =>
      refine ⟨0xcb, _, bigEndianBytes 8 x.bits.toNat, rfl, rfl, length_bigEndianBytes 8 _, ?_⟩
      have hlt : x.bits.toNat < 256 ^ 8 := x.bits.toNat_lt
      change x = ⟨UInt64.ofNat (bigEndian (bigEndianBytes 8 x.bits.toNat))⟩
      rw [bigEndian_bigEndianBytes, Nat.mod_eq_of_lt hlt, UInt64.ofNat_toNat]
    | @single n hn =>
      refine ⟨0xca, _, bigEndianBytes 4 n, rfl, rfl, length_bigEndianBytes 4 n, ?_⟩
      change Binary64.ofBinary32 n = .ofBinary32 (bigEndian (bigEndianBytes 4 n))
      rw [bigEndian_bigEndianBytes, Nat.mod_eq_of_lt hn]

/-! ## Section 4: Strings, bytes and arrays -/

protected theorem text : Accepts depth text TextForm := by
  refine (stringLength.bind (H := fun length bytes s => bytes = Utf8.encode s ∧
    bytes.length = length) fun length => position_bind fun start =>
      ((Accepts.take length).bind (H := fun payload bytes s => bytes = [] ∧
        Utf8.decode? payload = some s) fun payload => ?_).congr fun bytes s => ?_).congr
    fun bytes s => ?_
  · -- The payload is read already; it is a text or it is not.
    cases hs : Utf8.decode? payload with
    | some s => exact (Accepts.pure s).congr (by simp [Grammar.done, eq_comm])
    | none => exact (Accepts.fail _).congr (by simp)
  -- A payload is a text exactly if it is the encoding of one.
  · constructor
    · rintro ⟨payload, back, answer, rfl, ⟨rfl, hl⟩, rfl, hs⟩
      rw [List.append_nil]
      exact ⟨Utf8.decode?_eq_some_iff.1 hs, hl⟩
    · rintro ⟨rfl, hl⟩
      exact ⟨_, [], _, (List.append_nil _).symm, ⟨rfl, hl⟩, rfl, Utf8.decode?_encode s⟩
  · constructor
    · rintro ⟨header, payload, length, rfl, hh, rfl, rfl⟩
      exact .mk hh
    · rintro ⟨hh⟩
      exact ⟨_, _, _, rfl, hh, rfl, rfl⟩

protected theorem binary : Accepts depth binary BinaryForm := by
  refine (binaryLength.bind fun length => Accepts.take length).congr fun bytes payload => ?_
  constructor
  · rintro ⟨header, bytes, length, rfl, hh, rfl, rfl⟩
    exact .mk hh
  · rintro ⟨hh⟩
    exact ⟨_, _, _, rfl, hh, rfl, rfl⟩

protected theorem array {r : Reader α} {G : Grammar α} (h : Accepts depth r G) :
    Accepts depth (array r) (ArrayForm G) := by
  refine (Accepts.arrayLength.bind fun length => h.times length).congr fun bytes answers => ?_
  constructor
  · rintro ⟨header, elements, length, rfl, hh, he, rfl⟩
    exact .mk hh he
  · rintro ⟨hh, he⟩
    exact ⟨_, _, _, rfl, hh, he, rfl⟩

protected theorem byteList : Accepts depth byteList ByteListForm := Accepts.u8.array

protected theorem valueTag : Accepts depth valueTag TagForm := by
  refine position_bind fun start => (Accepts.mapLength.bind (H := fun length bytes tag =>
    length = 1 ∧ TextForm bytes tag) fun length => ?_).congr fun bytes tag => ?_
  -- Any other length of the map is refused before the tag is looked at.
  · by_cases hl : length = 1
    · simpa [hl] using Accepts.text
    · simpa [hl] using Accepts.fail (.invalidTagMap start length)
  · constructor
    · rintro ⟨header, key, length, rfl, hh, rfl, hk⟩
      exact .mk hh hk
    · rintro ⟨hh, hk⟩
      exact ⟨_, _, _, rfl, hh, rfl, hk⟩

end Reader.Accepts

/-! ## Section 5: Nil or not -/

namespace Reader

theorem tryNil_of_nil {c : Cursor} {tail : List UInt8} (h : c.rest = 0xc0 :: tail) :
    tryNil c = (.ok true, c.advance 1 tail) := by
  have hpeek : peekNil c = (.ok true, c) := by
    unfold peekNil
    simp [h]
  have hnil : nil c = (.ok (), c.advance 1 tail) :=
    Accepts.nil.run rfl (show c.rest = [0xc0] ++ tail from h) .nil
  unfold tryNil
  rw [Attempt.bind_of_ok _ hpeek, if_pos rfl, Attempt.bind_of_ok _ hnil]
  rfl

theorem tryNil_of_ne {c : Cursor} (h : c.rest.head? ≠ some 0xc0) : tryNil c = (.ok false, c) := by
  have hpeek : peekNil c = (.ok false, c) := by
    unfold peekNil
    simp [h]
  unfold tryNil
  rw [Attempt.bind_of_ok _ hpeek]
  rfl

variable {α : Type}

theorem optional_of_nil (r : Reader α) {c : Cursor} {tail : List UInt8}
    (h : c.rest = 0xc0 :: tail) : optional r c = (.ok none, c.advance 1 tail) := by
  unfold optional
  rw [Attempt.bind_of_ok _ (tryNil_of_nil h)]
  rfl

theorem optional_of_ne (r : Reader α) {c : Cursor} (h : c.rest.head? ≠ some 0xc0) :
    optional r c = (r >>= fun a => pure (some a)) c := by
  unfold optional
  rw [Attempt.bind_of_ok _ (tryNil_of_ne h)]
  rfl

/-- Nil or not is told by the first byte, so what stands for something must not begin as
    nil does. -/
protected theorem Accepts.optional {depth : Nat} {r : Reader α} {G : Grammar α}
    (h : Accepts depth r G) (hG : ∀ bytes a, G bytes a → bytes ≠ [] ∧ bytes.head? ≠ some 0xc0) :
    Accepts depth (optional r) (OptionForm G) := by
  intro c hd answer c'
  -- The first byte decides, for the reader as for the grammar.
  by_cases hnil : c.rest.head? = some 0xc0
  · obtain ⟨tail, hrest⟩ : ∃ tail, c.rest = 0xc0 :: tail := List.head?_eq_some_iff.1 hnil
    rw [optional_of_nil r hrest]
    constructor
    · intro hrun
      obtain ⟨rfl, rfl⟩ : none = answer ∧ c.advance 1 tail = c' := by simpa using hrun
      exact ⟨[0xc0], tail, hrest, .none, rfl⟩
    · rintro ⟨front, back, hr, hg, rfl⟩
      cases hg with
      | none =>
        obtain rfl : tail = back := by simpa [hrest] using hr
        rfl
      | some hg =>
        -- The derivation is not empty, so its first byte is the nil.
        obtain ⟨hne, hhead⟩ := hG _ _ hg
        rw [hr, List.head?_append_of_ne_nil _ hne] at hnil
        exact absurd hnil hhead
  · rw [optional_of_ne r hnil, h.map some c hd answer c']
    constructor
    · rintro ⟨front, back, hr, ⟨a, hg, rfl⟩, rfl⟩
      exact ⟨front, back, hr, .some hg, rfl⟩
    · rintro ⟨front, back, hr, hg, rfl⟩
      cases hg with
      | none => exact absurd (by rw [hr]; rfl) hnil
      | some hg => exact ⟨front, back, hr, ⟨_, hg, rfl⟩, rfl⟩

end Reader

/-- A text does not begin as nil does. -/
theorem TextForm.head?_ne_nil {bytes : List UInt8} {s : String} (h : TextForm bytes s) :
    bytes ≠ [] ∧ bytes.head? ≠ some 0xc0 := by
  obtain ⟨hh⟩ := h
  -- No marker of a string's header is the marker of nil.
  cases hh with
  | fixed hn =>
    generalize (Utf8.encode s).length = n at hn ⊢
    interval_cases n <;> simp
  | wide hm hn =>
    simp only [List.mem_cons, Prod.mk.injEq, List.not_mem_nil, or_false] at hm
    rcases hm with ⟨rfl, rfl⟩ | ⟨rfl, rfl⟩ | ⟨rfl, rfl⟩ <;> simp

end ChainGuest.Wire
