import Mathlib
import ChainGuest.Proofs.Evm.Grammar
import ChainGuest.Proofs.Record.Grammar
import ChainGuest.Proofs.Value.Grammar
import ChainGuest.Proofs.Wire.Cost

/-! # Answers are linear in the bytes read

    The headers of a buffer may announce as much as they like: what is read off `n` bytes is no
    larger than they pay for. A generic value costs four bytes for each of its nodes, one of a
    contract call seven, a record one for each of its fields and one for itself, and texts and
    bytes cost themselves (`BufferKind.cost`).

    A container that announces more elements than there are bytes behind its header fails, and
    it fails before it has begun more elements than there are bytes and one (`Overrun`).
-/

namespace ChainGuest

open Wire

/-! ## Section 1: Generic values -/

namespace Value

mutual

/-- The number of values in a value, itself included. -/
def nodes : Value → Nat
  | .bool _ | .u64 _ | .text _ => 1
  | .list items => 1 + itemNodes items
  | .struct _ fields => 1 + fieldNodes fields

def itemNodes : List Value → Nat
  | [] => 0
  | v :: vs => nodes v + itemNodes vs

def fieldNodes : List (String × Value) → Nat
  | [] => 0
  | (_, v) :: fields => nodes v + fieldNodes fields

end

mutual

/-- The bytes of the strings, the names of types and the names of fields in a value. -/
def textBytes : Value → Nat
  | .bool _ | .u64 _ => 0
  | .text s => s.utf8ByteSize
  | .list items => itemTextBytes items
  | .struct typeName fields => typeName.utf8ByteSize + fieldTextBytes fields

def itemTextBytes : List Value → Nat
  | [] => 0
  | v :: vs => textBytes v + itemTextBytes vs

def fieldTextBytes : List (String × Value) → Nat
  | [] => 0
  | (name, v) :: fields => name.utf8ByteSize + textBytes v + fieldTextBytes fields

end

mutual

/-- A value costs four bytes for each of its nodes, and its texts. -/
theorem Form.cost_le : (v : Value) → {bytes : List UInt8} → Form bytes v →
    4 * v.nodes + v.textBytes ≤ bytes.length
  | .bool b, _, h => by
    obtain ⟨hkey, hpayload⟩ := h
    cases hpayload with
    | bool hb =>
      -- The tag is one letter behind two headers, and the payload is a byte.
      have htag : 3 ≤ _ := hkey.cost_le
      have hbool := hb.one_le_length
      simp only [nodes, textBytes, List.length_append]
      omega
    | struct hs => nomatch hs
  | .u64 n, _, h => by
    obtain ⟨hkey, hpayload⟩ := h
    cases hpayload with
    | u64 hn =>
      have htag : 5 ≤ _ := hkey.cost_le
      have hinteger := hn.one_le_length
      simp only [nodes, textBytes, List.length_append]
      omega
    | struct hs => nomatch hs
  | .text s, _, h => by
    obtain ⟨hkey, hpayload⟩ := h
    cases hpayload with
    | text hs =>
      have htag : 3 ≤ _ := hkey.cost_le
      have htext := hs.cost_le
      simp only [nodes, textBytes, List.length_append]
      omega
    | struct hs => nomatch hs
  | .list items, _, h => by
    obtain ⟨hkey, hpayload⟩ := h
    cases hpayload with
    | list hi =>
      obtain ⟨hheader, heach⟩ := hi
      have htag : 3 ≤ _ := hkey.cost_le
      have hpos := hheader.one_le_length
      have hitems := Form.itemCost_le items heach
      simp only [nodes, textBytes, List.length_append]
      omega
    | struct hs => nomatch hs
  | .struct typeName fields, _, h => by
    obtain ⟨hkey, hpayload⟩ := h
    cases hpayload with
    | struct hs =>
      obtain ⟨hpair, hname, hcount, hfields⟩ := hs
      have htag : 4 ≤ _ := hkey.cost_le
      have htext := hname.cost_le
      have hfields := Form.fieldCost_le fields hfields
      simp only [nodes, textBytes, List.length_append]
      omega

theorem Form.itemCost_le : (items : List Value) → {bytes : List UInt8} →
    Grammar.Each Form bytes items → 4 * itemNodes items + itemTextBytes items ≤ bytes.length
  | [], _, _ => Nat.zero_le _
  | v :: vs, _, h => by
    obtain ⟨front, back, rfl, hv, hvs⟩ := Grammar.each_cons.1 h
    have hfirst := Form.cost_le v hv
    have hrest := Form.itemCost_le vs hvs
    simp only [itemNodes, itemTextBytes, List.length_append]
    omega

theorem Form.fieldCost_le : (fields : List (String × Value)) → {bytes : List UInt8} →
    Grammar.Each (FieldForm Form) bytes fields →
    4 * fieldNodes fields + fieldTextBytes fields ≤ bytes.length
  | [], _, _ => Nat.zero_le _
  | (name, v) :: fields, _, h => by
    obtain ⟨front, back, rfl, hfield, hrest⟩ := Grammar.each_cons.1 h
    obtain ⟨hname, hv⟩ := hfield
    have htext := hname.cost_le
    have hfirst := Form.cost_le v hv
    have hrest := Form.fieldCost_le fields hrest
    simp only [fieldNodes, fieldTextBytes, List.length_append]
    omega

end

theorem Form.one_le_length {bytes : List UInt8} {v : Value} (h : Form bytes v) :
    1 ≤ bytes.length := by
  obtain ⟨hkey, -⟩ := h
  have htag := hkey.cost_le
  rw [List.length_append]
  omega

theorem readWithin_spends (limit room : Nat) : (readWithin limit room).Spends :=
  .of_accepts (fun _ => readWithin_accepts limit room) fun _ _ _ h => h.1.one_le_length

theorem readField_spends (limit room : Nat) : (readField (readWithin limit room)).Spends :=
  .of_accepts (fun _ => Reader.Accepts.text.bind fun name =>
    (readWithin_accepts limit room).map fun v => (name, v))
    fun _ => .seq (fun _ _ h => Nat.le_of_add_right_le h.cost_le) _

end Value

/-! ## Section 2: Values of contract calls -/

theorem HexText.one_le_utf8ByteSize {s : String} {n : Nat} (h : HexText s n) :
    1 ≤ s.utf8ByteSize := by
  cases h with
  | @mk mark digits values hm hl hu hd =>
    obtain ⟨c, cs, rfl⟩ := List.exists_cons_of_length_pos hl
    have hc : 0 < c.utf8Size := c.utf8Size_pos
    rw [String.utf8ByteSize_append, String.utf8ByteSize_ofList, String.utf8Len_cons]
    omega

namespace Evm.Value

mutual

/-- The number of values in a value, itself included. -/
def nodes : Value → Nat
  | .array items | .fixedArray items | .tuple items => 1 + itemNodes items
  | _ => 1

def itemNodes : List Value → Nat
  | [] => 0
  | v :: vs => nodes v + itemNodes vs

end

mutual

/-- The bytes of the texts, addresses and bytes in a value. -/
def payloadBytes : Value → Nat
  | .bool _ | .uint _ | .int _ => 0
  | .text s | .address s => s.utf8ByteSize
  | .bytes b | .fixedBytes b => b.length
  | .array items | .fixedArray items | .tuple items => itemPayloadBytes items

def itemPayloadBytes : List Value → Nat
  | [] => 0
  | v :: vs => payloadBytes v + itemPayloadBytes vs

end

/-- A word costs a header and a digit. -/
theorem WordForm.two_le_length {bytes : List UInt8} {u : U256} (h : WordForm bytes u) :
    2 ≤ bytes.length := by
  obtain ⟨ht, hs⟩ := h
  have htext := ht.cost_le
  have hdigit := hs.one_le_utf8ByteSize
  omega

mutual

/-- A value costs seven bytes for each of its nodes, and its payloads. -/
theorem Form.cost_le : (v : Value) → {bytes : List UInt8} → Form bytes v →
    7 * v.nodes + v.payloadBytes ≤ bytes.length
  | .bool b, _, h => by
    obtain ⟨hkey, hpayload⟩ := h
    cases hpayload with
    | bool hb =>
      -- The tag is a name of four letters behind two headers, and the payload is a byte.
      have htag : 6 ≤ _ := hkey.cost_le
      have hbool := hb.one_le_length
      simp only [nodes, payloadBytes, List.length_append]
      omega
  | .uint u, _, h => by
    obtain ⟨hkey, hpayload⟩ := h
    cases hpayload with
    | uint hu =>
      have htag : 6 ≤ _ := hkey.cost_le
      have hword := hu.two_le_length
      simp only [nodes, payloadBytes, List.length_append]
      omega
  | .int x, _, h => by
    obtain ⟨hkey, hpayload⟩ := h
    cases hpayload with
    | int hx =>
      have htag : 5 ≤ _ := hkey.cost_le
      have hword := hx.two_le_length
      simp only [nodes, payloadBytes, List.length_append]
      omega
  | .text s, _, h => by
    obtain ⟨hkey, hpayload⟩ := h
    cases hpayload with
    | text hs =>
      have htag : 8 ≤ _ := hkey.cost_le
      have htext := hs.cost_le
      simp only [nodes, payloadBytes, List.length_append]
      omega
  | .address s, _, h => by
    obtain ⟨hkey, hpayload⟩ := h
    cases hpayload with
    | address hs =>
      have htag : 9 ≤ _ := hkey.cost_le
      have htext := hs.cost_le
      simp only [nodes, payloadBytes, List.length_append]
      omega
  | .bytes b, _, h => by
    obtain ⟨hkey, hpayload⟩ := h
    cases hpayload with
    | bytes hb =>
      have htag : 7 ≤ _ := hkey.cost_le
      have hlist := hb.cost_le
      simp only [nodes, payloadBytes, List.length_append]
      omega
  | .fixedBytes b, _, h => by
    obtain ⟨hkey, hpayload⟩ := h
    cases hpayload with
    | fixedBytes hb =>
      have htag : 12 ≤ _ := hkey.cost_le
      have hlist := hb.cost_le
      simp only [nodes, payloadBytes, List.length_append]
      omega
  | .array items, _, h => by
    obtain ⟨hkey, hpayload⟩ := h
    cases hpayload with
    | array hi =>
      obtain ⟨hheader, heach⟩ := hi
      have htag : 7 ≤ _ := hkey.cost_le
      have hitems := Form.itemCost_le items heach
      simp only [nodes, payloadBytes, List.length_append]
      omega
  | .fixedArray items, _, h => by
    obtain ⟨hkey, hpayload⟩ := h
    cases hpayload with
    | fixedArray hi =>
      obtain ⟨hheader, heach⟩ := hi
      have htag : 12 ≤ _ := hkey.cost_le
      have hitems := Form.itemCost_le items heach
      simp only [nodes, payloadBytes, List.length_append]
      omega
  | .tuple items, _, h => by
    obtain ⟨hkey, hpayload⟩ := h
    cases hpayload with
    | tuple hi =>
      obtain ⟨hheader, heach⟩ := hi
      have htag : 7 ≤ _ := hkey.cost_le
      have hitems := Form.itemCost_le items heach
      simp only [nodes, payloadBytes, List.length_append]
      omega

theorem Form.itemCost_le : (items : List Value) → {bytes : List UInt8} →
    Grammar.Each Form bytes items → 7 * itemNodes items + itemPayloadBytes items ≤ bytes.length
  | [], _, _ => Nat.zero_le _
  | v :: vs, _, h => by
    obtain ⟨front, back, rfl, hv, hvs⟩ := Grammar.each_cons.1 h
    have hfirst := Form.cost_le v hv
    have hrest := Form.itemCost_le vs hvs
    simp only [itemNodes, itemPayloadBytes, List.length_append]
    omega

end

theorem Form.one_le_length {bytes : List UInt8} {v : Value} (h : Form bytes v) :
    1 ≤ bytes.length := by
  obtain ⟨hkey, -⟩ := h
  have htag := hkey.cost_le
  rw [List.length_append]
  omega

theorem readWithin_spends (limit room : Nat) : (readWithin limit room).Spends :=
  .of_accepts (fun _ => readWithin_accepts limit room) fun _ _ _ h => h.1.one_le_length

theorem read_spends (limit : Nat) : (read limit).Spends :=
  .of_accepts (fun _ => read_accepts limit) fun _ _ _ h => h.1.one_le_length

end Evm.Value

/-! ## Section 3: Records -/

theorem Reader.u8_spends : Reader.u8.Spends :=
  .of_accepts (fun _ => Reader.Accepts.u8) fun _ _ _ => IntegerForm.one_le_length

theorem FieldType.form_costs (t : FieldType) : t.Form.Costs fun _ => 1 := by
  have htext : TextForm.Costs fun _ => 1 := fun _ _ h => Nat.le_of_add_right_le h.cost_le
  intro bytes a h
  cases t with
  | u64 => exact IntegerForm.one_le_length h
  | u32 => exact IntegerForm.one_le_length h
  | u8 => exact IntegerForm.one_le_length h
  | i64 => exact IntegerForm.one_le_length h
  | float => exact FloatForm.one_le_length h
  | text => exact htext bytes a h
  | optText => exact OptionForm.one_le_length htext h
  | binary => exact Nat.le_of_add_right_le (BinaryForm.cost_le h)
  | byteList => exact Nat.le_of_add_right_le (ByteListForm.cost_le h)

/-- A row costs a byte for each of its fields. -/
theorem Row.form_cost_le {schema : Schema} {bytes : List UInt8} {row : Row schema}
    (h : Row.Form schema bytes row) : schema.length ≤ bytes.length := by
  -- On the fields: the first one costs a byte, and the others cost theirs.
  induction schema generalizing bytes with
  | nil => exact Nat.zero_le _
  | cons field schema ih =>
    obtain ⟨front, back, value, rfl, hvalue, rest, hrest, -⟩ := h
    have hfirst : 1 ≤ front.length := field.2.form_costs front value hvalue
    have hfields := ih hrest
    rw [List.length_cons, List.length_append]
    omega

/-- A record costs its fields and a header. -/
theorem RecordForm.cost_le {α : Type} [Entity α] {bytes : List UInt8} {a : α}
    (h : RecordForm α bytes a) : (Entity.schema α).length + 1 ≤ bytes.length := by
  obtain ⟨hheader, hfields⟩ := h
  have hpos := hheader.one_le_length
  have hrow := Row.form_cost_le hfields
  rw [List.length_append]
  omega

theorem Entity.readRecord_spends (α : Type) [Entity α] :
    (Reader.arrayLength >>= fun _ => (Entity.read : Reader α)).Spends :=
  .of_accepts (fun _ => Reader.Accepts.arrayLength.bind fun _ =>
    (Row.read_accepts (Entity.schema α)).map Entity.ofRow)
    fun _ => .seq (fun _ _ h => h.one_le_length) _

theorem CollectionForm.cost_le {α : Type} [Entity α] {bytes : List UInt8} {records : List α}
    (h : CollectionForm α bytes records) :
    1 + ((Entity.schema α).length + 1) * records.length ≤ bytes.length := by
  have hrecord : (RecordForm α).Costs fun _ => (Entity.schema α).length + 1 :=
    fun _ _ => RecordForm.cost_le
  have hsum := ArrayForm.cost_le hrecord h
  rwa [List.map_const', List.sum_replicate, smul_eq_mul, Nat.mul_comm] at hsum

/-! ## Section 4: Buffers -/

/-- What a buffer is decoded to was read off its first bytes, and they pay for it. -/
def PaidFor {α : Type} (decode : Config → List UInt8 → Except DecodeError α)
    (reader : Config → Reader α) (cost : α → Nat) : Prop :=
  ∀ config bytes a, decode config bytes = .ok a → ∃ c,
    reader config (.start bytes) = (.ok a, c) ∧ cost a ≤ c.position ∧ c.position ≤ bytes.length

/-- Whether bytes may be left over has no part in it. -/
theorem PaidFor.of_accepts {α : Type} {content : Content} {reader : Config → Reader α}
    {G : Config → Grammar α} {cost : α → Nat} (h : ∀ config, (reader config).Accepts 0 (G config))
    (hcost : ∀ config, (G config).Costs cost) :
    PaidFor (fun config bytes => (decodeBuffer config content (reader config) bytes).1) reader
      cost := by
  intro config bytes a hok
  obtain ⟨front, back, rfl, hform, -⟩ :=
    (decodeBuffer_eq_ok_iff (h config) config content bytes a).1 hok
  refine ⟨_, (h config).run rfl rfl hform, ?_, ?_⟩
  · have hle := hcost config front a hform
    simpa [Cursor.start, Cursor.advance] using hle
  · simp [Cursor.start, Cursor.advance]

theorem Value.ofBytes_paidFor :
    PaidFor (fun config bytes => (Value.ofBytes config bytes).1)
      (fun config => Value.read config.maxValueDepth) fun v => 4 * v.nodes + v.textBytes :=
  .of_accepts (fun config => Value.read_accepts config.maxValueDepth)
    fun _ _ _ h => h.1.cost_le

theorem Evm.Value.listOfBytes_paidFor :
    PaidFor (fun config bytes => (Evm.Value.listOfBytes config bytes).1)
      (fun config => Reader.array (Evm.Value.read config.maxValueDepth))
      fun vs => 1 + 7 * itemNodes vs + itemPayloadBytes vs := by
  refine .of_accepts (fun config => (Evm.Value.read_accepts config.maxValueDepth).array)
    fun config bytes vs h => ?_
  obtain ⟨⟨hheader, heach⟩, -⟩ := arrayForm_and.1 h
  have hpos := hheader.one_le_length
  have hitems := Form.itemCost_le vs heach
  simp only [List.length_append]
  omega

theorem decodeCollection_paidFor (α : Type) [Entity α] :
    PaidFor (fun config bytes => (decodeCollection config bytes : Except _ (List α) × _).1)
      (fun _ => Entity.readAll) fun records =>
        1 + ((Entity.schema α).length + 1) * records.length :=
  .of_accepts (fun _ => Entity.readAll_accepts α) fun _ _ _ => CollectionForm.cost_le

/-! ## Section 5: Headers that announce too much -/

/-- From `c` on, the reader `whole` of a container reads a header that announces `count`
    elements; they are to be read by `element`, the first of them at `first`. -/
inductive Announces : {α β : Type} → (whole : Reader β) → (c : Cursor) → (element : Reader α) →
    (count : Nat) → (first : Cursor) → Prop where
  | byteList {c first : Cursor} {count : Nat} (hh : Reader.arrayLength c = (.ok count, first)) :
      Announces Reader.byteList c Reader.u8 count first
  /-- The elements of a list stand one level deeper than the list. -/
  | list {limit : Nat} {c inner first : Cursor} {count : Nat}
      (ht : Reader.valueTag c = (.ok Value.Variant.list.tag, inner))
      (hh : Reader.arrayLength { inner with depth := inner.depth + 1 } = (.ok count, first)) :
      Announces (Value.read limit) c (Value.readWithin limit (limit - first.depth)) count first
  /-- The fields of a struct are counted behind the name of its type. -/
  | struct {limit : Nat} {c inner name map first : Cursor} {typeName : String} {count : Nat}
      (ht : Reader.valueTag c = (.ok Value.Variant.struct.tag, inner))
      (hp : Reader.arrayLength { inner with depth := inner.depth + 1 } = (.ok 2, name))
      (hn : Reader.text name = (.ok typeName, map))
      (hh : Reader.mapLength map = (.ok count, first)) :
      Announces (Value.read limit) c
        (Value.readField (Value.readWithin limit (limit - first.depth))) count first
  /-- The children of an array or a tuple stand one level deeper than the container. -/
  | children {limit : Nat} {variant : Evm.Value.Variant} {c inner first : Cursor} {count : Nat}
      (hv : variant ∈ [.array, .fixedArray, .tuple])
      (ht : Reader.valueTag c = (.ok variant.name, inner))
      (hh : Reader.arrayLength { inner with depth := inner.depth + 1 } = (.ok count, first)) :
      Announces (Evm.Value.read limit) c (Evm.Value.readWithin limit (limit - first.depth))
        count first
  /-- The values of a whole buffer. -/
  | values {limit : Nat} {c first : Cursor} {count : Nat}
      (hh : Reader.arrayLength c = (.ok count, first)) :
      Announces (Reader.array (Evm.Value.read limit)) c (Evm.Value.read limit) count first
  | collection {α : Type} [Entity α] {c first : Cursor} {count : Nat}
      (hh : Reader.arrayLength c = (.ok count, first)) :
      Announces (Entity.readAll : Reader (List α)) c
        (Reader.arrayLength >>= fun _ => (Entity.read : Reader α)) count first

/-- A container that announces more than there is fails, and few of its elements are begun:
    those that are read, and one that fails. -/
structure Overrun {α β : Type} (whole : Reader β) (c : Cursor) (element : Reader α) (count : Nat)
    (first : Cursor) : Prop where
  fails : whole.Fails c
  few : Reader.attempts element count first ≤ first.remaining + 1
  last : ∃ done answers c₁ e c₂, Reader.attempts element count first = done + 1 ∧
    Reader.times done element first = (.ok answers, c₁) ∧ element c₁ = (.error e, c₂)

/-- It is enough that each element takes a byte, and that the container fails with them. -/
theorem Overrun.of_spends {α β : Type} {whole : Reader β} {c first : Cursor} {element : Reader α}
    {count : Nat} (h : element.Spends) (hcount : first.remaining < count)
    (hwhole : (Reader.times count element).Fails first → whole.Fails c) :
    Overrun whole c element count first := by
  -- More elements than bytes cannot all be read, so the run of them fails.
  obtain ⟨e, c', hrun⟩ : (Reader.times count element).Fails first := h.times_fails hcount
  obtain ⟨done, answers, c₁, hattempts, hdone, hfails⟩ := Reader.times_of_error hrun
  exact ⟨hwhole ⟨e, c', hrun⟩, h.attempts_le count first,
    done, answers, c₁, e, c', hattempts, hdone, hfails⟩

/-- Inside a value the elements are read one level deeper, if there is a level left. -/
theorem Value.read_eq_readLevel (limit : Nat) (c : Cursor) : ∃ inner,
    Value.read limit c = Value.readLevel limit inner c ∧
      ∀ r ∈ inner, r = Value.readWithin limit (limit - (c.depth + 1)) :=
  Reader.exists_inner (Value.readWithin limit) (Value.readLevel limit) rfl (fun _ => rfl) limit c

theorem Evm.Value.read_eq_readLevel (limit : Nat) (c : Cursor) : ∃ inner,
    Evm.Value.read limit c = Evm.Value.readLevel limit inner c ∧
      ∀ r ∈ inner, r = Evm.Value.readWithin limit (limit - (c.depth + 1)) :=
  Reader.exists_inner (Evm.Value.readWithin limit) (Evm.Value.readLevel limit) rfl
    (fun _ => rfl) limit c

theorem Value.list_fails {limit : Nat} {c inner first : Cursor} {count : Nat}
    (ht : Reader.valueTag c = (.ok Value.Variant.list.tag, inner))
    (hh : Reader.arrayLength { inner with depth := inner.depth + 1 } = (.ok count, first))
    (hitems : (Reader.times count (Value.readWithin limit (limit - first.depth))).Fails first) :
    (Value.read limit).Fails c := by
  have hdepth : first.depth = c.depth + 1 := by
    rw [Reader.Accepts.arrayLength.depth_eq hh, Reader.Accepts.valueTag.depth_eq ht]
  obtain ⟨reader, hread, hreader⟩ := Value.read_eq_readLevel limit c
  -- The array fails if there is a level for it, and is refused if there is none.
  have hlist : (Reader.inside limit reader Reader.array).Fails inner := by
    refine .inside fun r hr => ?_
    rw [hreader r hr, ← hdepth]
    exact .bind_of_ok hh hitems
  refine .congr hread ?_
  unfold Value.readLevel
  refine .bind_of_ok ht ?_
  rw [Value.Variant.ofTag?_tag]
  exact hlist.bind _

theorem Value.struct_fails {limit : Nat} {c inner name map first : Cursor} {typeName : String}
    {count : Nat} (ht : Reader.valueTag c = (.ok Value.Variant.struct.tag, inner))
    (hp : Reader.arrayLength { inner with depth := inner.depth + 1 } = (.ok 2, name))
    (hn : Reader.text name = (.ok typeName, map)) (hh : Reader.mapLength map = (.ok count, first))
    (hfields : (Reader.times count
      (Value.readField (Value.readWithin limit (limit - first.depth)))).Fails first) :
    (Value.read limit).Fails c := by
  have hdepth : first.depth = c.depth + 1 := by
    rw [Reader.Accepts.mapLength.depth_eq hh, Reader.Accepts.text.depth_eq hn,
      Reader.Accepts.arrayLength.depth_eq hp, Reader.Accepts.valueTag.depth_eq ht]
  obtain ⟨reader, hread, hreader⟩ := Value.read_eq_readLevel limit c
  have hstruct : (Reader.inside limit reader Value.readStruct).Fails inner := by
    refine .inside fun r hr => ?_
    rw [hreader r hr, ← hdepth]
    -- The pair and the name are read, and then the fields fail.
    unfold Value.readStruct
    refine .bind_of_ok rfl (.bind_of_ok hp ?_)
    rw [if_neg (not_not.2 rfl)]
    exact .bind_of_ok hn (.bind_of_ok hh (hfields.bind _))
  refine .congr hread ?_
  unfold Value.readLevel
  refine .bind_of_ok ht ?_
  rw [Value.Variant.ofTag?_tag]
  exact hstruct

theorem Evm.Value.children_fail {limit : Nat} {variant : Evm.Value.Variant}
    {c inner first : Cursor} {count : Nat} (hv : variant ∈ [.array, .fixedArray, .tuple])
    (ht : Reader.valueTag c = (.ok variant.name, inner))
    (hh : Reader.arrayLength { inner with depth := inner.depth + 1 } = (.ok count, first))
    (hitems : (Reader.times count
      (Evm.Value.readWithin limit (limit - first.depth))).Fails first) :
    (Evm.Value.read limit).Fails c := by
  have hdepth : first.depth = c.depth + 1 := by
    rw [Reader.Accepts.arrayLength.depth_eq hh, Reader.Accepts.valueTag.depth_eq ht]
  obtain ⟨reader, hread, hreader⟩ := Evm.Value.read_eq_readLevel limit c
  -- A level deeper the header is read and the run of children fails; without a level, all does.
  have hchildren : (Evm.Value.readChildren limit reader).Fails inner := by
    refine .inside fun r hr => ?_
    rw [hreader r hr, ← hdepth]
    exact .bind_of_ok hh hitems
  refine .congr hread ?_
  unfold Evm.Value.readLevel
  refine .bind_of_ok ht ?_
  rw [Evm.Value.Variant.ofTag?_name]
  simp only [List.mem_cons, List.not_mem_nil, or_false] at hv
  rcases hv with rfl | rfl | rfl
  · exact hchildren.bind _
  · exact hchildren.bind _
  · exact hchildren.bind _

/-- Whatever the container, more elements than bytes overrun it. Each element takes a byte at
    least, so they cannot all be read; what is particular to a container is only how a failure
    among its elements becomes its own. -/
theorem Announces.overrun {α β : Type} {whole : Reader β} {c first : Cursor} {element : Reader α}
    {count : Nat} (h : Announces whole c element count first) (hcount : first.remaining < count) :
    Overrun whole c element count first := by
  -- One case for each container: its elements spend, and it fails when they do.
  cases h with
  | byteList hh =>
    exact .of_spends Reader.u8_spends hcount fun hbytes => .bind_of_ok hh hbytes
  | list ht hh =>
    exact .of_spends (Value.readWithin_spends _ _) hcount (Value.list_fails ht hh)
  | struct ht hp hn hh =>
    exact .of_spends (Value.readField_spends _ _) hcount (Value.struct_fails ht hp hn hh)
  | children hv ht hh =>
    exact .of_spends (Evm.Value.readWithin_spends _ _) hcount (Evm.Value.children_fail hv ht hh)
  | values hh =>
    exact .of_spends (Evm.Value.read_spends _) hcount fun hvalues => .bind_of_ok hh hvalues
  | collection hh =>
    exact .of_spends (Entity.readRecord_spends _) hcount fun hrecords => .bind_of_ok hh hrecords

/-- What is decoded is linear in the bytes that it is read off, whatever the limit and the
    headers, and headers that announce more than there are bytes are found out by them.

    The costs are those of the shortest forms: a generic value has a tag of one letter at least, a
    value of a contract call one of three, and a record a header. The last part is about every
    container that a header opens, at any cursor and at any depth: it fails, and the elements that
    were begun before are counted by the bytes and not by the header. -/
theorem decoded_linear :
    PaidFor (fun config bytes => (Value.ofBytes config bytes).1)
      (fun config => Value.read config.maxValueDepth)
      (fun v => 4 * v.nodes + v.textBytes) ∧
    PaidFor (fun config bytes => (Evm.Value.listOfBytes config bytes).1)
      (fun config => Reader.array (Evm.Value.read config.maxValueDepth))
      (fun vs => 1 + 7 * Evm.Value.itemNodes vs + Evm.Value.itemPayloadBytes vs) ∧
    (∀ (α : Type) [Entity α],
      PaidFor (fun config bytes => (decodeCollection config bytes : Except _ (List α) × _).1)
        (fun _ => Entity.readAll)
        (fun records => 1 + ((Entity.schema α).length + 1) * records.length)) ∧
    ∀ {α β : Type} (whole : Reader β) (c : Cursor) (element : Reader α) (count : Nat)
      (first : Cursor), Announces whole c element count first → first.remaining < count →
      Overrun whole c element count first := by
  refine ⟨Value.ofBytes_paidFor, Evm.Value.listOfBytes_paidFor, ?_, ?_⟩
  · intro α _
    exact decodeCollection_paidFor α
  · intro α β whole c element count first h hcount
    exact h.overrun hcount

-- Four thousand million bytes are announced, and the second of them is missing.
example : (Reader.byteList (.start [0xdd, 0xff, 0xff, 0xff, 0xff, 7])).1 =
    .error (.unexpectedEof 6 1 0) := rfl

end ChainGuest
