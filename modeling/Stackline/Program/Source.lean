import Stackline.Decimal.Integer
import Stackline.Program.Instruction
import Stackline.Text.Lines

/-!
# Programs as text

A program is written one instruction a line.  Blank lines and lines that start
with `#` say nothing; the others are code lines.  A fault is reported with the
number of its line, and of several faulty lines the first is reported.
-/

namespace Stackline

/-- Why a text is no program, and where. -/
structure SourceFault where
  line : Nat
  problem : Instruction.Problem
  deriving DecidableEq, Repr

/-- The wording of a fault. -/
def SourceFault.message (f : SourceFault) : String :=
  let line := Decimal.ofNat f.line
  match f.problem with
  | .empty => s!"empty instruction at line {line}"
  | .unknownOpcode name => s!"unknown opcode '{name}' at line {line}"
  | .operandCount opcode found =>
    let expected := Decimal.ofNat opcode.operandCount
    let found := Decimal.ofNat found
    s!"{opcode.mnemonic} at line {line} takes {expected} operand(s), found {found}"

namespace Source

/-- A line that holds code: it is not empty and does not start with `#`. -/
def isCode (line : String) : Bool :=
  match line.toList with
  | [] => false
  | c :: _ => c != '#'

/-- The lines of a text without the blanks around them. -/
def trimmedLines (text : String) : List String :=
  (Text.lines text).map Text.trim

/-- The code lines of a text, trimmed. -/
def load (text : String) : List String :=
  (trimmedLines text).filter isCode

/-- Reads one line that carries its number. -/
def readLine (text : String) (number : Nat) : Except SourceFault Instruction :=
  (Instruction.parse text).mapError (SourceFault.mk number)

/-- Reads lines that carry their numbers, up to the first faulty one. -/
def read : List (String × Nat) → Except SourceFault (List Instruction)
  | [] => .ok []
  | (text, number) :: rest => do
    let i ← readLine text number
    let is ← read rest
    return i :: is

/-- Reads lines, each of which must be an instruction, numbered from one. -/
def parse (lines : List String) : Except SourceFault (List Instruction) :=
  read (lines.zipIdx 1)

/-- Checks a text and writes each instruction in its canonical form.  A fault
carries the number of the line in the text itself. -/
def assemble (text : String) : Except SourceFault (List String) := do
  let numbered := ((trimmedLines text).zipIdx 1).filter fun l => isCode l.1
  return (← read numbered).map Instruction.text

end Source
end Stackline
