/-!
# TOML values

The data that a TOML document describes.  A table remembers how it came to be,
because a document may not define the same table twice: one written inline is
closed for good, one opened by a header may not be opened again, and one that
only dotted keys brought about may grow by dotted keys alone.
-/

namespace Stackline

/-- How a table came to be. -/
inductive Toml.Origin where
  /-- Written between braces. -/
  | inline
  /-- Opened by a header of its own. -/
  | header
  /-- Implied by the header of a table inside it. -/
  | implied
  /-- Brought about by a dotted key. -/
  | dotted
  deriving DecidableEq, Repr

/-- A TOML value. -/
inductive Toml where
  | boolean (b : Bool)
  | integer (n : Int64)
  | float (x : Float)
  | string (s : String)
  | datetime (text : String)
  | array (items : List Toml)
  | table (origin : Toml.Origin) (entries : List (String × Toml))
  /-- The tables of an array that is written with headers, the last one first. -/
  | tables (elements : List (List (String × Toml)))

namespace Toml

/-- The entries of a table. -/
abbrev Entries := List (String × Toml)

/-- The entries with the value of a key replaced. -/
def Entries.replace (key : String) (value : Toml) (entries : Entries) : Entries :=
  entries.map fun (k, v) => if k = key then (k, value) else (k, v)

/-- Sets a key, which must be new.  The keys in front of the last one lead
through tables that dotted keys brought about. -/
def Entries.assign (value : Toml) : (path : List String) → Entries → Option Entries
  | [], _ => none
  | [key], entries =>
    match entries.lookup key with
    | some _ => none
    | none => some (entries ++ [(key, value)])
  | key :: path, entries =>
    match entries.lookup key with
    | none => do return entries ++ [(key, .table .dotted (← assign value path []))]
    | some (.table .dotted inner) => do
      return Entries.replace key (.table .dotted (← assign value path inner)) entries
    | some _ => none

/-- Changes the entries of the table at the end of a path.  Tables on the way are
implied if they are missing, and of an array of tables the last is meant. -/
def Entries.descend (act : Entries → Option Entries) :
    (path : List String) → Entries → Option Entries
  | [], entries => act entries
  | key :: path, entries =>
    match entries.lookup key with
    | none => do return entries ++ [(key, .table .implied (← descend act path []))]
    | some (.table origin inner) =>
      if origin = .inline then none
      else do return Entries.replace key (.table origin (← descend act path inner)) entries
    | some (.tables (last :: earlier)) => do
      return Entries.replace key (.tables ((← descend act path last) :: earlier)) entries
    | some _ => none

/-- Opens a table by its header. -/
def Entries.openTable (key : String) (entries : Entries) : Option Entries :=
  match entries.lookup key with
  | none => some (entries ++ [(key, .table .header [])])
  | some (.table .implied inner) => some (Entries.replace key (.table .header inner) entries)
  | some _ => none

/-- Opens one more table of an array by its header. -/
def Entries.openElement (key : String) (entries : Entries) : Option Entries :=
  match entries.lookup key with
  | none => some (entries ++ [(key, .tables [[]])])
  | some (.tables elements) => some (Entries.replace key (.tables ([] :: elements)) entries)
  | some _ => none

end Toml
end Stackline
