/-!
# Settings

The limits and switches that a session is set up with.
-/

namespace Stackline

/-- How a session is set up. -/
structure Settings where
  /-- The most values that an operand stack holds. -/
  maxStackSize : Nat := 1024
  /-- The most frames that are active at a time. -/
  maxCallDepth : Nat := 256
  /-- Whether the first of several programs that fails is the last to run. -/
  haltOnError : Bool := true
  /-- Whether every instruction is reported before it runs. -/
  trace : Bool := false
  deriving DecidableEq, Repr

namespace Settings

/-- Switches things on: tracing, and going on after a failure.  Neither switch
can turn anything off that the settings have. -/
def withFlags (s : Settings) (trace keepGoing : Bool) : Settings :=
  { s with trace := trace || s.trace, haltOnError := s.haltOnError && !keepGoing }

end Settings
end Stackline
