import Stackline.Machine.Execution
import Stackline.Program.Files
import Stackline.Settings.Basic
import Stackline.Value.Standard

/-!
# Sessions

A session runs programs one after the other over the same global scope.
Variables outlive a run; frames and their private scopes do not, whether the run
comes to its end or fails.
-/

namespace Stackline

/-- A machine and how it was set up. -/
structure Session (β : Type) where
  settings : Settings
  machine : Machine β

/-- The session after a run, how the run ended and what it put out. -/
structure Run (ε β : Type) where
  session : Session β
  ending : Ending ε β
  output : Output β

/-- Why a program given as text did not come to its end. -/
inductive ProgramError where
  | source (error : SourceError)
  | run (error : RunError)
  deriving DecidableEq, Repr

/-- The wording of an error. -/
def ProgramError.message : ProgramError → String
  | .source error => error.message
  | .run error => error.message

/-- The run with one event reported before everything else. -/
def Run.precededBy {ε β : Type} (r : Run ε β) (e : Event β) : Run ε β :=
  { r with output := { r.output with events := #[e] ++ r.output.events } }

/-- Puts the errors of an ending under a wider type. -/
def Ending.mapError {ε δ β : Type} (f : ε → δ) : Ending ε β → Ending δ β
  | .finished v => .finished v
  | .failed e => .failed (f e)
  | .unfinished => .unfinished

namespace Session

variable {β : Type}

/-- A session whose global scope binds nothing. -/
def new (settings : Settings) : Session β :=
  { settings, machine := .idle settings.maxCallDepth settings.trace }

/-- The bindings of the global scope. -/
def globals (s : Session β) : Bindings β :=
  s.machine.scopes.globals

/-- The session with other scopes. -/
def withScopes (s : Session β) (scopes : Arena β) : Session β :=
  { s with machine := { s.machine with scopes } }

/-- Binds a native function as a global under its own name. -/
def register (s : Session β) (f : Native β) : Session β :=
  let scopes := s.machine.scopes
  s.withScopes { scopes with globals := scopes.globals.set f.name (.native f) }

/-- Binds native functions one after the other. -/
def registerAll (s : Session β) (fs : List (Native β)) : Session β :=
  fs.foldl register s

/-- A session with the standard functions bound. -/
def standard (settings : Settings) : Session Standard :=
  (new settings).registerAll (Standard.all.map fun f => f.native f)

/-- A frame whose variables are the globals. -/
def globalFrame (s : Session β) (code : Code β) : Frame β :=
  .start code .global s.settings.maxStackSize

/-- A frame with a private scope of its own, which falls back on `parent`. -/
def scopedFrame (s : Session β) (code : Code β) (parent : ScopeId) : Frame β × Session β :=
  let (id, scopes) := s.machine.scopes.push (some parent)
  (.start code id s.settings.maxStackSize, s.withScopes scopes)

/-- Activates a frame without running it. -/
def seed (s : Session β) (f : Frame β) : Except Fault (Session β) := do
  return { s with machine := { s.machine with calls := ← s.machine.calls.push f } }

/-- Ends all frames, the bottom one first, and releases their scopes. -/
def unwind (m : Machine β) : Machine β :=
  let (frames, calls) := m.calls.drain
  { m with calls, scopes := m.scopes.releaseAll (frames.map Frame.scope) }

/-- Activates a frame and runs until no frame is left.  If that fails, all
frames are ended; what had been stored in the globals stays. -/
def run [Host β] (fuel : Nat) (s : Session β) (f : Frame β) : Run RunError β :=
  let output := Output.empty.report (.started f.code.length (s.machine.calls.depth + 1))
  match s.machine.calls.push f with
  | .error cause =>
    { session := { s with machine := unwind s.machine }
      ending := .failed (.setup cause), output }
  | .ok calls =>
    let x := { s.machine with calls }.execute fuel output
    match x.ending with
    | .finished v =>
      { session := { s with machine := x.machine }
        ending := .finished v, output := x.output.report .completed }
    | .failed e =>
      { session := { s with machine := unwind x.machine }
        ending := .failed e, output := x.output.report (.aborted e) }
    | .unfinished =>
      { session := { s with machine := x.machine }, ending := .unfinished, output := x.output }

/-- Runs a program on the globals. -/
def runProgram [Host β] (fuel : Nat) (s : Session β) (program : List Instruction) :
    Run ProgramError β :=
  let r := s.run fuel (s.globalFrame (.ofInstructions program))
  { session := r.session, ending := r.ending.mapError .run, output := r.output }

/-- Reads lines that must all be instructions and runs them. -/
def runLines [Host β] (fuel : Nat) (s : Session β) (lines : List String) :
    Run ProgramError β :=
  match Source.parse lines with
  | .ok program => s.runProgram fuel program
  | .error fault =>
    { session := s, ending := .failed (.source (.faulty fault)), output := .empty }

/-- Reads a program text and runs it. -/
def runText [Host β] (fuel : Nat) (s : Session β) (text : String) : Run ProgramError β :=
  s.runLines fuel (Source.load text)

/-- Reads a program file and runs it. -/
def runFile {m : Type → Type} [Monad m] [MonadFiles m] [Host β] (fuel : Nat) (s : Session β)
    (path : String) : m (Run ProgramError β) := do
  let r ← match ← Source.loadFile path with
    | .ok lines => pure (s.runLines fuel lines)
    | .error e => pure { session := s, ending := .failed (.source e), output := .empty }
  return r.precededBy (.loading path)

end Session
end Stackline
