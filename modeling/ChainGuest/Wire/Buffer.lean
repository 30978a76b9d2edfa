import ChainGuest.Config
import ChainGuest.Wire.Reader

/-! # Whole buffers

    A buffer from the host holds one content. It is read from its first byte, and
    then the configuration decides about bytes that are left.
-/

namespace ChainGuest.Wire

/-- Read a buffer that holds `content`; the answer, and the notices given. -/
def decodeBuffer {α : Type} (config : Config) (content : Content) (r : Reader α)
    (bytes : List UInt8) : Except DecodeError α × List Leftover :=
  let whole : Reader α := do
    let a ← r
    Reader.checkTrailing config.rejectTrailing content
    return a
  let (answer, c) := whole (.start bytes)
  (answer, c.notices)

end ChainGuest.Wire
