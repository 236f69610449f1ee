import Stackline.Files.Basic
import Stackline.Settings.Basic
import Stackline.Toml.Document

/-!
# Settings documents

Settings written as a TOML document with two sections, `limits` and `flags`.
Every section and every key may be left out, but no other may be there.  A
section may also be given as an array, whose items are the values of its keys in
order; items beyond the last key say nothing.
-/

namespace Stackline

/-- Why a document gives no settings. -/
inductive SettingsError where
  | unreadable (path : String) (fault : FileFault)
  /-- It is no TOML, or says something else than settings. -/
  | malformed
  /-- A limit is zero. -/
  | zeroLimit (path field : String)
  deriving DecidableEq, Repr

/-- The wording of an error. -/
def SettingsError.message : SettingsError → String
  | .unreadable path fault => s!"failed to read config at {path}: {fault.message}"
  | .malformed => "failed to parse config"
  | .zeroLimit path field => s!"'{field}' in {path} must be at least 1"

namespace Settings

/-- The values of a section's two keys, as far as they are given. -/
def section? (first second : String) : Option Toml → Option (Option Toml × Option Toml)
  | none => some (none, none)
  | some (.table _ entries) =>
    if entries.all fun (key, _) => key = first || key = second then
      some (entries.lookup first, entries.lookup second)
    else none
  | some (.array items) => some (items[0]?, items[1]?)
  | some (.tables elements) =>
    let items := elements.reverse.map (Toml.table .header)
    some (items[0]?, items[1]?)
  | some _ => none

/-- A limit, or its default. -/
def limit? (default : Nat) : Option Toml → Option Nat
  | none => some default
  | some (.integer n) => if n.toInt < 0 then none else some n.toInt.toNat
  | some _ => none

/-- A switch, or its default. -/
def switch? (default : Bool) : Option Toml → Option Bool
  | none => some default
  | some (.boolean b) => some b
  | some _ => none

/-- The settings that a table describes. -/
def ofEntries? (entries : Toml.Entries) : Option Settings := do
  if entries.any fun (key, _) => key ≠ "limits" && key ≠ "flags" then none
  let defaults : Settings := {}
  let (stack, depth) ← section? "max_stack_size" "max_call_depth" (entries.lookup "limits")
  let (halt, trace) ← section? "halt_on_error" "trace" (entries.lookup "flags")
  return {
    maxStackSize := ← limit? defaults.maxStackSize stack
    maxCallDepth := ← limit? defaults.maxCallDepth depth
    haltOnError := ← switch? defaults.haltOnError halt
    trace := ← switch? defaults.trace trace }

/-- Settings whose limits leave room for something. -/
def validate (path : String) (s : Settings) : Except SettingsError Settings :=
  if s.maxStackSize = 0 then .error (.zeroLimit path "limits.max_stack_size")
  else if s.maxCallDepth = 0 then .error (.zeroLimit path "limits.max_call_depth")
  else .ok s

/-- Reads settings from a document.  The path serves the wording of errors. -/
def parse (path text : String) : Except SettingsError Settings :=
  match (Toml.document? text).bind ofEntries? with
  | none => .error .malformed
  | some s => validate path s

/-- Reads settings from a file. -/
def load {m : Type → Type} [Monad m] [MonadFiles m] (path : String) :
    m (Except SettingsError Settings) := do
  match ← readText path with
  | .ok text => return parse path text
  | .error fault => return .error (.unreadable path fault)

end Settings
end Stackline
