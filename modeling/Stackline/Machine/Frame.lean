import Stackline.Machine.Stack
import Stackline.Program.Code

/-!
# Frames

One activation of a program: where it stands in its code, its operand stack and
the scope that its variables live in.  Jumps move it to an existing instruction
or fail.
-/

namespace Stackline

/-- An activation of a program. -/
structure Frame (β : Type) where
  code : Code β
  /-- The index of the instruction that comes next. -/
  ip : Nat
  stack : Stack β
  scope : ScopeId

namespace Frame

variable {β : Type}

/-- A frame at the start of its code, with room for `limit` values. -/
def start (code : Code β) (scope : ScopeId) (limit : Nat) : Frame β :=
  { code, ip := 0, stack := .empty limit, scope }

/-- Whether the code has run out. -/
def finished (f : Frame β) : Bool :=
  f.code.length ≤ f.ip

/-- Moves on by one instruction, unless the code has run out: the index left and
the frame moved on. -/
def advance (f : Frame β) : Option (Nat × Frame β) :=
  if f.finished then none else some (f.ip, { f with ip := f.ip + 1 })

/-- Puts a value on the operand stack. -/
def push (f : Frame β) (v : Value β) : Except Fault (Frame β) := do
  return { f with stack := ← f.stack.push v }

/-- Jumps to an instruction of the frame's code. -/
def jump (f : Frame β) (target : Int) : Except Fault (Frame β) :=
  if 0 ≤ target ∧ target < f.code.length then .ok { f with ip := target.toNat }
  else .error (.jumpOutside target f.code.length)

/-- Jumps if the truth of `condition` is `wanted`. -/
def jumpIf (wanted : Bool) (f : Frame β) (condition : Value β) (target : Int) :
    Except Fault (Frame β) :=
  if condition.truthy = wanted then f.jump target else .ok f

/-- Reads the operand of a jump. -/
def readTarget (opcode : Opcode) (operand : String) : Except Fault Int :=
  match Decimal.word? operand with
  | some n => .ok n.toInt
  | none => .error (.invalidOperand opcode operand .jumpTarget)

end Frame
end Stackline
