/-! # UTF-8 text

    Texts as bytes and back. A text is its UTF-8 bytes, so reading accepts exactly
    the well-formed sequences and no two sequences give one text.
-/

namespace ChainGuest.Utf8

/-- The bytes of a text. -/
def encode (s : String) : List UInt8 := s.toByteArray.data.toList

/-- The text that has these bytes, if there is one. -/
def decode? (bytes : List UInt8) : Option String := String.fromUTF8? ⟨bytes.toArray⟩

theorem decode?_eq_some_iff {bytes : List UInt8} {s : String} :
    decode? bytes = some s ↔ bytes = encode s := by
  unfold decode? String.fromUTF8? encode
  constructor
  · intro h
    split at h
    · cases h
      rfl
    · simp at h
  · rintro rfl
    have hs : (⟨s.toByteArray.data.toList.toArray⟩ : ByteArray) = s.toByteArray := by simp
    rw [dif_pos (hs ▸ s.isValidUTF8)]
    congr 1

@[simp] theorem decode?_encode (s : String) : decode? (encode s) = some s :=
  decode?_eq_some_iff.2 rfl

end ChainGuest.Utf8
