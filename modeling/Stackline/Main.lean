import Stackline.Command.Report

/-!
# The program

The command line on the files of the system: standard output gets what a command
prints, standard error the lines of its log.
-/

namespace Stackline

/-- The fault behind an error of the system. -/
def FileFault.ofError : IO.Error → FileFault
  | .noFileOrDirectory _ _ _ => .notFound
  | .inappropriateType _ 21 _ => .isDirectory
  | .inappropriateType _ 20 _ => .notDirectory
  | e => .other (toString e)

/-- Runs an action on files and catches what the system reports. -/
def catchFault {α : Type} (act : IO α) : IO (Except FileFault α) := do
  try
    return .ok (← act)
  catch e =>
    return .error (.ofError e)

instance : MonadFiles IO where
  readFile path := catchFault (IO.FS.readBinFile path)
  writeFile path content := catchFault (IO.FS.writeBinFile path content)

/-- More steps than a run can take in any length of time. -/
def unbounded : Nat := 1 <<< 62

end Stackline

/-- Answers the command line. -/
def main (args : List String) : IO UInt32 := do
  let report ← Stackline.Command.respond Stackline.unbounded args
  (← IO.getStdout).putStr report.printed
  (← IO.getStderr).putStr report.diagnostics
  return UInt32.ofNat report.exitCode
