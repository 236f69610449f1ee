import Stackline.Command.Arguments

/-!
# Commands

What the program can be asked to do, and how it is asked.
-/

namespace Stackline

/-- The choices of a run. -/
structure RunOptions where
  files : List String
  config : Option String
  trace : Bool
  keepGoing : Bool
  /-- Whether the globals are shown at the end. -/
  globals : Bool
  deriving DecidableEq, Repr

/-- Something that the program can be asked to do. -/
inductive Command where
  /-- Run program files in one session. -/
  | run (options : RunOptions)
  /-- Check a program and write it in canonical form. -/
  | assemble (input : String) (output : Option String)
  /-- Show a program with its indices. -/
  | list (input : String)
  /-- Show the catalogue of operations. -/
  | opcodes
  | version
  | help
  deriving DecidableEq, Repr

namespace Command

/-- What `run` accepts. -/
def runSynopsis : Synopsis :=
  { switches := ["trace", "keep-going", "globals"]
    options := [("config", none)]
    maxValues := none }

/-- What `asm` accepts. -/
def assembleSynopsis : Synopsis :=
  { switches := [], options := [("output", some 'o')], maxValues := some 1 }

/-- What `disasm` accepts. -/
def listSynopsis : Synopsis :=
  { switches := [], options := [], maxValues := some 1 }

/-- What `opcodes` accepts. -/
def opcodesSynopsis : Synopsis :=
  { switches := [], options := [], maxValues := some 0 }

/-- The names by which help can be asked for. -/
def names : List String :=
  ["run", "asm", "disasm", "opcodes", "help"]

/-- Reads the arguments of a command and makes the command of them.  A request
for help wins over what is still missing. -/
def ofArguments (syn : Synopsis) (args : List String) (make : Arguments → Option Command) :
    Option Command :=
  match Arguments.none.read syn args with
  | .ok a => make a
  | .error .help => some .help
  | .error .usage => none

/-- The command that a list of arguments asks for, if it asks for one. -/
def parse : List String → Option Command
  | "run" :: args =>
    ofArguments runSynopsis args fun a =>
      if a.values.isEmpty then none
      else
        some (.run {
          files := a.values
          config := a.options.lookup "config"
          trace := a.switches.contains "trace"
          keepGoing := a.switches.contains "keep-going"
          globals := a.switches.contains "globals" })
  | "asm" :: args =>
    ofArguments assembleSynopsis args fun a =>
      a.values.head?.map (.assemble · (a.options.lookup "output"))
  | "disasm" :: args => ofArguments listSynopsis args fun a => a.values.head?.map .list
  | "opcodes" :: args => ofArguments opcodesSynopsis args fun _ => some .opcodes
  | ["help"] => some .help
  | ["help", name] => if names.contains name then some .help else none
  | arg :: _ =>
    match Arguments.shape arg with
    | .long "version" none => some .version
    | .short 'V' _ => some .version
    | .long "help" none => some .help
    | .short 'h' _ => some .help
    | _ => none
  | [] => none

end Command
end Stackline
