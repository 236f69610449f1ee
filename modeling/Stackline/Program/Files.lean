import Stackline.Files.Basic
import Stackline.Log
import Stackline.Program.Listing
import Stackline.Program.Source

/-!
# Program files

Programs read from files, listed, and written back in canonical form.
-/

namespace Stackline

/-- Why a file gives no program. -/
inductive SourceError where
  | unreadable (path : String) (fault : FileFault)
  | faulty (fault : SourceFault)
  deriving DecidableEq, Repr

/-- The wording of an error. -/
def SourceError.message : SourceError → String
  | .unreadable path fault => s!"failed to read {path}: {fault.message}"
  | .faulty fault => fault.message

/-- Why a file could not be assembled into another. -/
inductive AssembleError where
  | source (error : SourceError)
  | unwritable (path : String) (fault : FileFault)
  deriving DecidableEq, Repr

/-- The wording of an error. -/
def AssembleError.message : AssembleError → String
  | .source error => error.message
  | .unwritable path fault => s!"failed to write {path}: {fault.message}"

namespace Source

variable {m : Type → Type} [Monad m] [MonadFiles m]

/-- Reads the text of a program file. -/
def readSource (path : String) : m (Except SourceError String) := do
  return (← readText path).mapError (.unreadable path)

/-- Reads the code lines of a program file. -/
def loadFile (path : String) : m (Except SourceError (List String)) := do
  return (← readSource path).map load

/-- Reads a program file and lists it. -/
def listFile (path : String) : m (Except SourceError String) := do
  match ← loadFile path with
  | .error e => return .error e
  | .ok lines => return (parse lines).mapError .faulty |>.map Listing.render

/-- Reads a program file and assembles it. -/
def assembleText (path : String) : m (Except SourceError (List String)) := do
  match ← readSource path with
  | .error e => return .error e
  | .ok text => return (assemble text).mapError .faulty

/-- The text of an assembled file: its lines, separated and closed by line feeds. -/
def fileText (lines : List String) : String :=
  String.intercalate "\n" lines ++ "\n"

/-- Assembles a file into another, which may be the same: the number of
instructions, and the record of it. -/
def assembleFile (input output : String) : m (Except AssembleError Nat × List Record) := do
  match ← assembleText input with
  | .error e => return (.error (.source e), [])
  | .ok lines =>
    match ← MonadFiles.writeFile output (fileText lines).toUTF8 with
    | .error fault => return (.error (.unwritable output fault), [])
    | .ok () =>
      let count := Decimal.ofNat lines.length
      return (.ok lines.length, [⟨.debug, s!"assembled {count} instructions into {output}"⟩])

end Source
end Stackline
