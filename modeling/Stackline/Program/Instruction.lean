import Stackline.Program.Opcode
import Stackline.Text.Blank

/-!
# Instructions

An operation with its operands, the text that it is written as, and the reading
of such a text.  Words are separated by blanks; the first names the operation
and the others are its operands, as many as the catalogue says.
-/

namespace Stackline

/-- One instruction of a program.  The number of operands is not checked here:
a host may build any instruction, and the machine finds out when it runs. -/
structure Instruction where
  opcode : Opcode
  operands : List String
  deriving DecidableEq, Repr

namespace Instruction

/-- The operand at a position. -/
def operand? (i : Instruction) (index : Nat) : Option String :=
  i.operands[index]?

/-- The name and the operands, separated by single spaces. -/
def text (i : Instruction) : String :=
  String.intercalate " " (i.opcode.mnemonic :: i.operands)

/-- Why a text is no instruction. -/
inductive Problem where
  /-- It holds no word. -/
  | empty
  /-- Its first word names no operation. -/
  | unknownOpcode (name : String)
  /-- It holds the wrong number of operands. -/
  | operandCount (opcode : Opcode) (found : Nat)
  deriving DecidableEq, Repr

/-- Reads an instruction from the words of a line. -/
def ofWords : List String → Except Problem Instruction
  | [] => .error .empty
  | name :: operands =>
    match Opcode.ofMnemonic? name with
    | none => .error (.unknownOpcode name)
    | some opcode =>
      if operands.length = opcode.operandCount then .ok { opcode, operands }
      else .error (.operandCount opcode operands.length)

/-- Reads an instruction from a line of text. -/
def parse (line : String) : Except Problem Instruction :=
  ofWords (Text.words line)

end Instruction
end Stackline
