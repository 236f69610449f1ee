import Stackline.Toml.Quoted

/-!
# TOML documents

A document is a list of statements, one a line: headers, which open tables, and
assignments to keys of the table that is open.  Values nest at most eighty deep,
and so do dotted keys.
-/

namespace Stackline
namespace Toml

/-- A reader takes what it reads off the front of the text, or fails. -/
abbrev Reader := StateT (List Char) Option

/-- Takes a leading run off the text. -/
def takeRun (p : Char → Bool) : Reader (List Char) :=
  fun cs => some (cs.takeWhile p, cs.dropWhile p)

/-- Skips spaces and tabs. -/
def skipSpaces : Reader Unit :=
  fun cs => some ((), cs.dropWhile isSpace)

/-- The next character, left where it is. -/
def peek : Reader (Option Char) :=
  fun cs => some (cs.head?, cs)

/-- Takes one given character. -/
def expect (c : Char) : Reader Unit := fun
  | [] => none
  | d :: cs => if d = c then some ((), cs) else none

/-- Takes a line break, or nothing at the end of the text. -/
def lineEnd : Reader Unit := fun
  | [] => some ((), [])
  | cs => (afterNewline? cs).map ((), ·)

/-- Takes what may stand behind a statement: spaces, a comment, and the end of
the line. -/
def trailing : Reader Unit := do
  skipSpaces
  if (← peek) = some '#' then
    let _ ← takeRun isPrintable
  lineEnd

/-- Drops what may stand between the items of an array: spaces, line breaks and
comments, each up to the end of its line. -/
def skipFiller (inComment : Bool) : List Char → Option (List Char)
  | [] => if inComment then none else some []
  | '\r' :: '\n' :: cs => skipFiller false cs
  | c :: cs =>
    if c = '\n' then skipFiller false cs
    else if inComment then if isPrintable c then skipFiller true cs else none
    else if isSpace c then skipFiller false cs
    else if c = '#' then skipFiller true cs
    else some (c :: cs)

/-- Reads past the filler between the items of an array. -/
def filler : Reader Unit :=
  fun cs => (skipFiller false cs).map ((), ·)

/-- A character of a bare key. -/
def isBare (c : Char) : Bool :=
  c.isAlphanum || c = '_' || c = '-'

/-- Reads a key that is not dotted. -/
def simpleKey : Reader String := do
  match ← peek with
  | some '"' | some '\'' => quotedLine?
  | _ =>
    let cs ← takeRun isBare
    if cs.isEmpty then failure else return String.ofList cs

/-- The deepest nesting of values, and one more than the longest dotted key. -/
def nestingLimit : Nat := 80

/-- Reads a dotted key of at most `limit` parts, with the spaces around them. -/
def dottedKey : (limit : Nat) → Reader (List String)
  | 0 => failure
  | limit + 1 => do
    skipSpaces
    let key ← simpleKey
    skipSpaces
    if (← peek) = some '.' then
      expect '.'
      return key :: (← dottedKey limit)
    else return [key]

/-- Reads the key of a statement. -/
def keyPath : Reader (List String) :=
  dottedKey (nestingLimit - 1)

/-- A character of a word. -/
def isWordChar (c : Char) : Bool :=
  c.isAlphanum || c = '_' || c = '+' || c = '-' || c = '.' || c = ':'

/-- Reads a word.  A date may be followed by a space and a time. -/
def scalar : Reader Toml := do
  let word ← takeRun isWordChar
  let cs ← get
  match cs with
  | ' ' :: rest =>
    let time := rest.takeWhile isWordChar
    if isDate word && isTimeOfDate time then
      set (rest.dropWhile isWordChar)
      return .datetime (String.ofList (word ++ ' ' :: time))
    else (scalar? word : Option Toml)
  | _ => (scalar? word : Option Toml)

mutual

/-- Reads a value that nests at most `depth` deep. -/
def value : (fuel depth : Nat) → Reader Toml
  | 0, _ => failure
  | fuel + 1, depth => do
    match ← peek, depth with
    | some '"', _ | some '\'', _ => return .string (← quotedText?)
    | some '[', depth + 1 =>
      expect '['
      return .array (← arrayItems fuel depth)
    | some '\x7b', depth + 1 =>
      expect '\x7b'
      skipSpaces
      if (← peek) = some '\x7d' then
        expect '\x7d'
        return .table .inline []
      else return .table .inline (← inlineEntries fuel depth [])
    | _, _ => scalar

/-- Reads the items of an array up to its closing bracket. -/
def arrayItems : (fuel depth : Nat) → Reader (List Toml)
  | 0, _ => failure
  | fuel + 1, depth => do
    filler
    if (← peek) = some ']' then
      expect ']'
      return []
    else
      let item ← value fuel depth
      filler
      if (← peek) = some ',' then
        expect ','
        return item :: (← arrayItems fuel depth)
      else
        expect ']'
        return [item]

/-- Reads the assignments of an inline table up to its closing brace, after
those already read. -/
def inlineEntries : (fuel depth : Nat) → Entries → Reader Entries
  | 0, _, _ => failure
  | fuel + 1, depth, entries => do
    let path ← keyPath
    expect '='
    skipSpaces
    let entries ← (entries.assign (← value fuel depth) path : Option Entries)
    skipSpaces
    if (← peek) = some ',' then
      expect ','
      inlineEntries fuel depth entries
    else
      expect '\x7d'
      return entries

end

/-- A line of a document that says something. -/
inductive Statement where
  | assign (path : List String) (value : Toml)
  | header (path : List String)
  | elementHeader (path : List String)

/-- Reads a header. -/
def header : Reader Statement := do
  expect '['
  if (← peek) = some '[' then
    expect '['
    let path ← keyPath
    expect ']'
    expect ']'
    return .elementHeader path
  else
    let path ← keyPath
    expect ']'
    return .header path

/-- Reads an assignment. -/
def assignment : Reader Statement := do
  let path ← keyPath
  expect '='
  skipSpaces
  let length := (← get).length
  return .assign path (← value (length + 1) (nestingLimit - 1))

/-- Reads statements up to the end of the text. -/
def statements : (fuel : Nat) → Reader (List Statement)
  | 0 => failure
  | fuel + 1 => do
    skipSpaces
    match ← peek with
    | none => return []
    | some c =>
      if c = '#' ∨ c = '\n' ∨ c = '\r' then
        trailing
        statements fuel
      else
        let s ← if c = '[' then header else assignment
        trailing
        return s :: (← statements fuel)

/-- Follows statements, where `current` leads to the table that is open. -/
def build : (current : List String) → Entries → List Statement → Option Entries
  | _, entries, [] => some entries
  | current, entries, .assign path value :: rest => do
    build current (← entries.descend (Entries.assign value path) current) rest
  | _, entries, .header path :: rest => do
    let key ← path.getLast?
    build path (← entries.descend (Entries.openTable key) path.dropLast) rest
  | _, entries, .elementHeader path :: rest => do
    let key ← path.getLast?
    build path (← entries.descend (Entries.openElement key) path.dropLast) rest

/-- The table that a document describes.  A byte order mark in front is left
out. -/
def document? (text : String) : Option Entries :=
  let cs := match text.toList with
    | '\uFEFF' :: cs => cs
    | cs => cs
  match (statements (cs.length + 1)).run cs with
  | some (ss, []) => build [] [] ss
  | _ => none

end Toml
end Stackline
