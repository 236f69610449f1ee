import Stackline.Command.Basic
import Stackline.Session
import Stackline.Settings.Document

/-!
# Reports

What a command comes to: an exit code, the text on standard output and the
records of the log.  Without tracing the log keeps what is meant for users and
leaves out what the machine reports about itself.
-/

namespace Stackline

/-- The outcome of a command. -/
structure Report where
  exitCode : Nat
  printed : String
  log : List Record

namespace Report

/-- The command did what it was asked. -/
def success (printed : String) : Report :=
  { exitCode := 0, printed, log := [] }

/-- The command failed for a reason that the log tells. -/
def failure (message : String) : Report :=
  { exitCode := 1, printed := "", log := [⟨.error, message⟩] }

/-- The arguments ask for nothing that the program does. -/
def usage : Report :=
  { exitCode := 2, printed := "", log := [] }

/-- The text on standard error: the records of the log, made fit for a terminal. -/
def diagnostics (r : Report) : String :=
  Text.unlines (r.log.map Record.shown)

end Report

/-- Whether a log keeps a record. -/
def Record.kept (tracing : Bool) (r : Record) : Bool :=
  tracing || (r.level ≠ .trace && r.level ≠ .debug)

/-- Several programs run in one session, and what they put out so far. -/
structure Batch (β : Type) where
  session : Session β
  printed : String
  log : List Record
  /-- Whether one of the programs failed. -/
  failed : Bool

namespace Batch

variable {β : Type}

/-- A batch that has run nothing yet. -/
def start (session : Session β) : Batch β :=
  { session, printed := "", log := [], failed := false }

/-- The failure that a run ended with, in words.  A run that its fuel does not carry
to the end has words of its own and counts as failed, whatever more fuel would
show.  A report is thus what the command comes to at fuel that is enough for every
run that it attempts. -/
def failure? : Ending ProgramError β → Option String
  | .finished _ => none
  | .failed e => some e.message
  | .unfinished => some "gave up before the program ended"

/-- What a run shows of its value. -/
def valueLine : Ending ProgramError β → String
  | .finished (some v) => v.text ++ "\n"
  | _ => ""

/-- The level of a failure: an error if it ends the batch, else a warning. -/
def failureLevel (settings : Settings) : Level :=
  if settings.haltOnError then .error else .warn

/-- The batch after the run of a file. -/
def follow (b : Batch β) (path : String) (r : Run ProgramError β) : Batch β :=
  let told : List Record := match failure? r.ending with
    | none => []
    | some message => [⟨failureLevel b.session.settings, s!"{path}: {message}"⟩]
  let records := ⟨.info, s!"running {path}"⟩ :: r.output.events.toList.map Event.record ++ told
  { session := r.session
    printed := b.printed ++ r.output.printed ++ valueLine r.ending
    log := b.log ++ records.filter (Record.kept b.session.settings.trace)
    failed := b.failed || (failure? r.ending).isSome }

/-- Runs files one after the other.  The first that fails is the last one if the
settings say so. -/
def runFiles {m : Type → Type} [Monad m] [MonadFiles m] [Host β] (fuel : Nat) :
    List String → Batch β → m (Batch β)
  | [], b => pure b
  | path :: rest, b => do
    let r ← b.session.runFile fuel path
    let next := b.follow path r
    if (failure? r.ending).isSome && b.session.settings.haltOnError then return next
    else runFiles fuel rest next

/-- The globals that are no functions, a line each. -/
def globalLines (globals : Bindings β) : String :=
  let shown := globals.filter fun b => b.2.kind ≠ .native
  Text.unlines (shown.map fun (name, v) => name ++ " = " ++ v.text)

/-- The report of a batch that has come to its end. -/
def report (b : Batch β) (showGlobals : Bool) : Report :=
  { exitCode := if b.failed then 1 else 0
    printed := b.printed ++ if showGlobals then globalLines b.session.globals else ""
    log := b.log }

end Batch

namespace Command

/-- One line of the catalogue. -/
def opcodeLine (op : Opcode) : String :=
  let effect := match op.entry.effect with
    | .fixed consumes produces => s!"{Decimal.ofNat consumes} -> {Decimal.ofNat produces}"
    | .dynamic => "dynamic"
  let name := Text.padEnd 14 op.mnemonic
  s!"{name} {Decimal.ofNat op.operandCount}  {Text.padEnd 8 effect}  {op.entry.description}"

/-- How the program is called. -/
def usageText : String :=
  Text.unlines [
    "Run and inspect bcvm bytecode programs",
    "",
    "Usage:",
    "  bcvm run <FILES>... [--config <CONFIG>] [--trace] [--keep-going] [--globals]",
    "  bcvm asm <INPUT> [-o <OUTPUT>]",
    "  bcvm disasm <INPUT>",
    "  bcvm opcodes"]

variable {m : Type → Type} [Monad m] [MonadFiles m]

/-- The settings of a run: those of its file, or the usual ones, and its flags. -/
def runSettings (o : RunOptions) : m (Except SettingsError Settings) := do
  let base ← match o.config with
    | some path => Settings.load path
    | none => pure (.ok {})
  return base.map (·.withFlags o.trace o.keepGoing)

/-- Runs program files in one session with the standard functions. -/
def runReport (fuel : Nat) (o : RunOptions) : m Report := do
  match ← runSettings o with
  | .error e => return .failure e.message
  | .ok settings =>
    let b ← Batch.runFiles fuel o.files (.start (Session.standard settings))
    return b.report o.globals

/-- Assembles a file onto standard output or into another file. -/
def assembleReport (input : String) (output : Option String) : m Report := do
  match output with
  | none =>
    match ← Source.assembleText input with
    | .ok lines => return .success (Text.unlines lines)
    | .error e => return .failure e.message
  | some path =>
    match (← Source.assembleFile input path).1 with
    | .ok count =>
      let message := s!"wrote {Decimal.ofNat count} instructions to {path}"
      return { Report.success "" with log := [⟨.info, message⟩] }
    | .error e => return .failure e.message

/-- Lists a program file.  A program without instructions has no lines. -/
def listReport (input : String) : m Report := do
  match ← Source.listFile input with
  | .ok listing => return .success (if listing.isEmpty then "" else listing ++ "\n")
  | .error e => return .failure e.message

/-- Does what a command asks for. -/
def perform (fuel : Nat) : Command → m Report
  | .run o => runReport fuel o
  | .assemble input output => assembleReport input output
  | .list input => listReport input
  | .opcodes => return .success (Text.unlines (Opcode.all.map opcodeLine))
  | .version => return .success "bcvm 0.1.0\n"
  | .help => return .success usageText

/-- Does what the arguments ask for. -/
def respond (fuel : Nat) (args : List String) : m Report :=
  match parse args with
  | some c => c.perform fuel
  | none => return .usage

end Command
end Stackline
