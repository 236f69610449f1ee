import Stackline.Files.Basic

/-!
# Trees of files

A file system held in memory.  Paths are walked from the working directory; a
step through something that is no directory fails, and so does a step through
something that is not there.

A place is the list of the names that lead to it.  Steps up and out of the
working directory are kept as `..`, and `/` stands for the root; both lead to
directories.
-/

namespace Stackline

/-- Something that a path can lead to. -/
inductive FileTree.Entry where
  | file (content : ByteArray)
  | directory

/-- The files and directories below the working directory, each with the names
that lead to it. -/
structure FileTree where
  entries : List (List String × FileTree.Entry)

namespace FileTree

/-- The tree that holds nothing. -/
def empty : FileTree :=
  { entries := [] }

/-- Whether a place is the working directory, one above it, or the root. -/
def isAbove (place : List String) : Bool :=
  place == ["/"] || place.all (· == "..")

/-- What stands at a place.  The working directory and those above it are always
there. -/
def entry? (t : FileTree) (place : List String) : Option Entry :=
  if isAbove place then some .directory else t.entries.lookup place

/-- Sets what stands at a place. -/
def put (t : FileTree) (place : List String) (e : Entry) : FileTree :=
  if (t.entries.lookup place).isSome then
    { entries := t.entries.map fun (p, old) => if p = place then (p, e) else (p, old) }
  else { entries := t.entries ++ [(place, e)] }

/-- The names between slashes, where `name` holds the characters of the one that
is still open, last one first. -/
def splitFrom (name : List Char) : List Char → List String
  | [] => [String.ofList name.reverse]
  | c :: cs =>
    if c = '/' then String.ofList name.reverse :: splitFrom [] cs else splitFrom (c :: name) cs

/-- The names of a path.  The root of an absolute path counts as a name. -/
def names (path : String) : List String :=
  match splitFrom [] path.toList with
  | "" :: rest => "/" :: rest
  | ns => ns

/-- One directory up.  Nothing lies above the root. -/
def parent (place : List String) : List String :=
  match place.getLast? with
  | none | some ".." => place ++ [".."]
  | some "/" => place
  | some _ => place.dropLast

/-- Follows names from a place. -/
def walk (t : FileTree) : (place : List String) → List String → Except FileFault (List String)
  | place, [] => .ok place
  | place, name :: rest =>
    match t.entry? place with
    | none => .error .notFound
    | some (.file _) => .error .notDirectory
    | some .directory =>
      if name = "" ∨ name = "." then t.walk place rest
      else if name = ".." then t.walk (parent place) rest
      else t.walk (place ++ [name]) rest

/-- Reads a file of the tree. -/
def read (t : FileTree) (path : String) : Except FileFault ByteArray := do
  if path.isEmpty then throw .notFound
  match t.entry? (← t.walk [] (names path)) with
  | some (.file content) => return content
  | some .directory => throw .isDirectory
  | none => throw .notFound

/-- The place at which a path would put a file.  The directory must be there, and
a name that ends in a slash can only be one. -/
def target (t : FileTree) (path : String) : Except FileFault (List String) := do
  if path.isEmpty then throw .notFound
  let given := names path
  let ns := (given.reverse.dropWhile (· == "")).reverse
  let place ← t.walk [] ns.dropLast
  match t.entry? place, ns.getLast? with
  | none, _ => throw .notFound
  | some (.file _), _ => throw .notDirectory
  | some .directory, none => throw .isDirectory
  | some .directory, some name =>
    if ns.length < given.length ∨ name = "." ∨ name = ".." then throw .isDirectory
    match t.entry? (place ++ [name]) with
    | some .directory => throw .isDirectory
    | _ => return place ++ [name]

/-- Writes a file of the tree, over what it held before. -/
def write (t : FileTree) (path : String) (content : ByteArray) : Except FileFault FileTree := do
  return t.put (← t.target path) (.file content)

instance : MonadFiles (StateM FileTree) where
  readFile path := do return (← get).read path
  writeFile path content := do
    match (← get).write path content with
    | .ok t =>
      set t
      return .ok ()
    | .error e => return .error e

end FileTree
end Stackline
