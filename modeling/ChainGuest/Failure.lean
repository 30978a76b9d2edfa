import ChainGuest.Host.Handle
import ChainGuest.Text.Base64
import ChainGuest.Text.Hex
import ChainGuest.Value

/-! # Failures

    Why a call through the bridge failed: a cause, and what was being done when it
    arose, the outermost first.
-/

namespace ChainGuest

/-- What went wrong at the bottom. -/
inductive Cause where
  | decode (e : Wire.DecodeError)
  | value (e : ValueError)
  | host (e : HostError)
  /-- A text is not the JSON that was expected. -/
  | json
  /-- A record was looked up at a position that its collection does not have, as when a view is
      used with a context that did not hand it out. -/
  | strayView
  /-- A cause that has no more than its text. -/
  | plain (text : String)

structure Failure where
  /-- What was being done, the outermost first. -/
  contexts : List String
  cause : Cause

namespace Cause

/-- The text of a cause. That of a text that is no JSON is left to its context. -/
def message? : Cause → Option String
  | .decode e => some e.message
  | .value e => some e.message
  | .host e => some e.message
  | .json => none
  | .strayView => some "view of another context"
  | .plain text => some text

end Cause

namespace Failure

/-- A failure that says nothing but its cause. -/
def of (cause : Cause) : Failure := ⟨[], cause⟩

/-- A failure told with what was being done around it. -/
def within (context : String) (f : Failure) : Failure :=
  { f with contexts := context :: f.contexts }

/-- All texts of a failure, the outermost first. -/
def chain (f : Failure) : List String := f.contexts ++ f.cause.message?.toList

/-- The outermost text. -/
def message (f : Failure) : String := f.chain.headD ""

end Failure

/-! ## Texts with a subject -/

/-- The bytes that a hex text spells; `subject` says what they are meant to be. -/
def parseHexBytes (s subject : String) : Except Failure (List UInt8) :=
  (Hex.decode s).mapError fun e =>
    .of (.plain ("Invalid " ++ subject ++ " hex '" ++ s ++ "': " ++ e.message))

/-- The bytes of a base64 text; `subject` says what they are meant to be. -/
def decodeBase64 (s subject : String) : Except Failure (List UInt8) :=
  (Base64.decode s).mapError fun e =>
    .of (.plain ("Failed to decode " ++ subject ++ " from base64: " ++ e.message))

end ChainGuest
