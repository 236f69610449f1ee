/-!
# Files

What the program needs of a file system: reading a file and writing one.  It is
asked of the monad that a command runs in, so that the files of the system and
files held in memory serve alike.
-/

namespace Stackline

/-- Why a file cannot be read or written. -/
inductive FileFault where
  | notFound
  | isDirectory
  | notDirectory
  /-- The bytes are no text. -/
  | notText
  /-- Any other reason, in the system's words. -/
  | other (reason : String)
  deriving DecidableEq, Repr

/-- The wording of a fault. -/
def FileFault.message : FileFault → String
  | .notFound => "No such file or directory (os error 2)"
  | .isDirectory => "Is a directory (os error 21)"
  | .notDirectory => "Not a directory (os error 20)"
  | .notText => "stream did not contain valid UTF-8"
  | .other reason => reason

/-- A monad in which files can be read and written. -/
class MonadFiles (m : Type → Type) where
  readFile : String → m (Except FileFault ByteArray)
  writeFile : String → ByteArray → m (Except FileFault Unit)

/-- The text that bytes encode. -/
def decodeText (bytes : ByteArray) : Except FileFault String :=
  match String.fromUTF8? bytes with
  | some s => .ok s
  | none => .error .notText

/-- Reads a text file. -/
def readText {m : Type → Type} [Monad m] [MonadFiles m] (path : String) :
    m (Except FileFault String) := do
  match ← MonadFiles.readFile path with
  | .ok bytes => return decodeText bytes
  | .error e => return .error e

end Stackline
