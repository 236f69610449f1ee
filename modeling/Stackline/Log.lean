import Stackline.Text.Visible

/-!
# Logs

A log is a list of records, each a level and a message.
-/

namespace Stackline

/-- How much a record matters. -/
inductive Level where
  | trace
  | debug
  | info
  | warn
  | error
  deriving DecidableEq, Repr

/-- The name of a level. -/
def Level.name : Level → String
  | .trace => "TRACE"
  | .debug => "DEBUG"
  | .info => "INFO"
  | .warn => "WARN"
  | .error => "ERROR"

/-- One entry of a log. -/
structure Record where
  level : Level
  message : String
  deriving DecidableEq, Repr

/-- The level and the message, as a log keeps them. -/
def Record.line (r : Record) : String :=
  r.level.name ++ " " ++ r.message

/-- The level and the message, as a terminal shows them. -/
def Record.shown (r : Record) : String :=
  r.level.name ++ " " ++ Text.visible r.message

end Stackline
