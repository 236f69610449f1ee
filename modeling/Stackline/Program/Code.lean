import Stackline.Program.Instruction
import Stackline.Value.Literal

/-!
# Code

A program made ready to run: its instructions, and the constants that they load,
decoded once and kept in a pool in the order of the instructions.
-/

namespace Stackline

/-- The text of the constant that an instruction loads. -/
def Instruction.literal? (i : Instruction) : Option String :=
  if i.opcode = .loadConst then i.operand? 0 else none

/-- A program with its pool of constants. -/
structure Code (β : Type) where
  instructions : Array Instruction
  pool : Array (Value β)
  /-- For each instruction, where the pool keeps the constant that it loads. -/
  slots : Array (Option Nat)

namespace Code

variable {β : Type}

/-- The program without instructions. -/
def empty : Code β :=
  { instructions := #[], pool := #[], slots := #[] }

/-- Adds an instruction at the end. -/
def push (c : Code β) (i : Instruction) : Code β :=
  match i.literal? with
  | some text =>
    { instructions := c.instructions.push i
      pool := c.pool.push (.ofLiteral text)
      slots := c.slots.push (some c.pool.size) }
  | none =>
    { instructions := c.instructions.push i
      pool := c.pool
      slots := c.slots.push none }

/-- The code of a program. -/
def ofInstructions (program : List Instruction) : Code β :=
  program.foldl push empty

/-- The number of instructions. -/
def length (c : Code β) : Nat :=
  c.instructions.size

/-- The instruction at an index. -/
def instruction? (c : Code β) (index : Nat) : Option Instruction :=
  c.instructions[index]?

/-- The constant that the instruction at an index loads. -/
def constant? (c : Code β) (index : Nat) : Option (Value β) :=
  c.slots[index]?.join.bind (c.pool[·]?)

end Code
end Stackline
