import ElementQuery.Text

/-!
# Log levels

Logging is set up at most once in a process, and the first call decides. The level is the one that
the call gives, or else the one that the environment gives to all programs, or else the one that it
gives to this library. A blank text counts as given but chooses the usual level.
-/

namespace ElementQuery

open Text

inductive LogLevel where
  | off
  | error
  | warn
  | info
  | debug
  | trace
  deriving DecidableEq, Inhabited

namespace LogLevel

def all : List LogLevel := [.off, .error, .warn, .info, .debug, .trace]

def name : LogLevel → String
  | .off => "off"
  | .error => "error"
  | .warn => "warn"
  | .info => "info"
  | .debug => "debug"
  | .trace => "trace"

/-- Reads the name of a level in any case; another text names none and turns logging off. -/
def read (s : String) : LogLevel :=
  (all.find? fun level => equalsIgnoringAsciiCase s level.name).getD .off

/-- The level that one call chooses. -/
def choose (given shared own : Option String) : LogLevel :=
  match (given <|> shared <|> own).filter fun s => !isAllBlank s with
  | some s => read s
  | none => .info

/-- The level in force after several calls. -/
def inForce (calls : List (Option String)) (shared own : Option String) : LogLevel :=
  match calls with
  | [] => .off
  | given :: _ => choose given shared own

end LogLevel

end ElementQuery
