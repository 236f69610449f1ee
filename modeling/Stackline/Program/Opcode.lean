/-!
# Opcodes

The fifteen operations of the machine and the catalogue that describes each:
the name it is written with, how many operands it takes, what it does to the
operand stack, and a sentence for readers.
-/

namespace Stackline

/-- An operation of the machine. -/
inductive Opcode where
  | loadConst
  | loadVar
  | storeVar
  | add
  | sub
  | mul
  | div
  | popTop
  | dupTop
  | jump
  | jumpIfTrue
  | jumpIfFalse
  | callFunc
  | returnVal
  | halt
  deriving DecidableEq, Repr

/-- What an operation does to the height of the operand stack. -/
inductive Effect where
  /-- Takes `consumes` values off the stack and puts `produces` on it. -/
  | fixed (consumes produces : Nat)
  /-- Depends on the operand or on who called. -/
  | dynamic
  deriving DecidableEq, Repr

namespace Opcode

/-- The catalogue's description of an operation. -/
structure Entry where
  mnemonic : String
  operandCount : Nat
  effect : Effect
  description : String
  deriving DecidableEq, Repr

/-- The catalogue. -/
def entry : Opcode → Entry
  | .loadConst => ⟨"LOAD_CONST", 1, .fixed 0 1, "Load a constant onto the stack"⟩
  | .loadVar => ⟨"LOAD_VAR", 1, .fixed 0 1, "Load a variable onto the stack"⟩
  | .storeVar => ⟨"STORE_VAR", 1, .fixed 1 0, "Store the top of stack into a variable"⟩
  | .add => ⟨"ADD", 0, .fixed 2 1, "Add the top two values"⟩
  | .sub => ⟨"SUB", 0, .fixed 2 1, "Subtract the top value from the one below it"⟩
  | .mul => ⟨"MUL", 0, .fixed 2 1, "Multiply the top two values"⟩
  | .div => ⟨"DIV", 0, .fixed 2 1, "Divide the second value by the top value"⟩
  | .popTop => ⟨"POP_TOP", 0, .fixed 1 0, "Discard the top of stack"⟩
  | .dupTop => ⟨"DUP_TOP", 0, .fixed 1 2, "Duplicate the top of stack"⟩
  | .jump => ⟨"JUMP", 1, .fixed 0 0, "Jump to an instruction index"⟩
  | .jumpIfTrue => ⟨"JUMP_IF_TRUE", 1, .fixed 1 0, "Jump if the popped value is truthy"⟩
  | .jumpIfFalse => ⟨"JUMP_IF_FALSE", 1, .fixed 1 0, "Jump if the popped value is falsy"⟩
  | .callFunc => ⟨"CALL_FUNC", 1, .dynamic, "Call a native function with N arguments"⟩
  | .returnVal => ⟨"RETURN_VAL", 0, .dynamic, "Return the top of stack to the caller"⟩
  | .halt => ⟨"HALT", 0, .fixed 0 0, "End the current activation"⟩

/-- Every operation, in the order of the catalogue. -/
def all : List Opcode :=
  [.loadConst, .loadVar, .storeVar, .add, .sub, .mul, .div, .popTop, .dupTop, .jump,
    .jumpIfTrue, .jumpIfFalse, .callFunc, .returnVal, .halt]

/-- The name that an operation is written with. -/
def mnemonic (op : Opcode) : String :=
  op.entry.mnemonic

/-- The number of operands that an operation takes. -/
def operandCount (op : Opcode) : Nat :=
  op.entry.operandCount

/-- Whether the operation may move the instruction pointer. -/
def isJump : Opcode → Bool
  | .jump | .jumpIfTrue | .jumpIfFalse => true
  | _ => false

/-- The operation with the given name.  Case matters. -/
def ofMnemonic? (name : String) : Option Opcode :=
  all.find? fun op => op.mnemonic = name

end Opcode
end Stackline
