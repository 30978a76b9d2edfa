import ChainGuest.Wire.Cursor

/-! # Log entries

    What is told while calls run: a span where a call begins, and events between.
    Fields are texts.
-/

namespace ChainGuest

inductive LogLevel where
  | trace
  | debug
  | warn
  deriving DecidableEq

def LogLevel.name : LogLevel → String
  | .trace => "TRACE"
  | .debug => "DEBUG"
  | .warn => "WARN"

inductive LogEntry where
  /-- A call begins. -/
  | span (name : String) (fields : List (String × String))
  | event (level : LogLevel) (message : String) (fields : List (String × String))
  deriving DecidableEq

/-- The notice that bytes were left after a buffer's content. -/
def Wire.Leftover.entry (l : Wire.Leftover) : LogEntry :=
  .event .warn ("trailing bytes after " ++ l.content.name)
    [("position", toString l.position), ("remaining", toString l.remaining)]

end ChainGuest
