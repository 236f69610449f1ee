import Stackline.Log
import Stackline.Machine.Frame
import Stackline.Text.Padding

/-!
# Events

What a machine reports while it works, and the errors that end a run.  An event
is data; the record that a log keeps of it is made from it.
-/

namespace Stackline

/-- Why a run was given up. -/
inductive RunError where
  /-- The instruction at `ip` failed, in a frame `depth` frames high. -/
  | instruction (ip : Nat) (opcode : Opcode) (depth : Nat) (cause : Fault)
  /-- The run could not start. -/
  | setup (cause : Fault)
  deriving DecidableEq, Repr

namespace RunError

/-- The fault behind an error. -/
def cause : RunError → Fault
  | .instruction _ _ _ cause => cause
  | .setup cause => cause

/-- The wording of an error. -/
def message : RunError → String
  | .instruction ip opcode depth cause =>
    s!"{opcode.mnemonic} at instruction {Decimal.ofNat ip} " ++
      s!"(depth {Decimal.ofNat depth}) failed: {cause.message}"
  | .setup cause => s!"could not start execution: {cause.message}"

end RunError

/-- Something that happened in a machine. -/
inductive Event (β : Type) where
  /-- An instruction is about to run on an operand stack, the top value first. -/
  | fetched (ip : Nat) (instruction : Instruction) (stack : List (Value β))
  /-- A frame came to the end of its code. -/
  | exhausted (depth : Nat)
  /-- A program of `length` instructions starts in a frame `depth` frames high. -/
  | started (length depth : Nat)
  /-- A program came to its end. -/
  | completed
  /-- A program was given up. -/
  | aborted (error : RunError)
  /-- A program file is about to be read. -/
  | loading (path : String)

namespace Event

variable {β : Type}

/-- The values of an operand stack from the bottom up. -/
def stackText (stack : List (Value β)) : String :=
  "[" ++ String.intercalate ", " (stack.reverse.map Value.text) ++ "]"

/-- The level of an event. -/
def level : Event β → Level
  | .fetched _ _ _ => .trace
  | _ => .debug

/-- The wording of an event. -/
def message : Event β → String
  | .fetched ip instruction stack =>
    let index := Text.padStart '0' 4 (Decimal.ofNat ip)
    s!"{index}  {Text.padEnd 24 instruction.text} {stackText stack}"
  | .exhausted depth => s!"frame at depth {Decimal.ofNat depth} reached end of code"
  | .started length depth =>
    s!"running {Decimal.ofNat length} instructions at depth {Decimal.ofNat depth}"
  | .completed => "run finished"
  | .aborted error => s!"run aborted: {error.message}"
  | .loading path => s!"loading {path}"

/-- The record of an event. -/
def record (e : Event β) : Record :=
  { level := e.level, message := e.message }

end Event
end Stackline
