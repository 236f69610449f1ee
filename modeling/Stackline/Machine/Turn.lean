import Stackline.Machine.Frame
import Stackline.Scope.Arena
import Stackline.Value.Arithmetic
import Stackline.Value.Native

/-!
# One instruction on one frame

What an instruction does to the frame that runs it and to the scopes.  No other
frame takes part: an instruction that ends its frame only says so, and with
which value.

An instruction may fail half-way.  What it took off the operand stack by then is
gone, so a failure carries the stack that was left.
-/

namespace Stackline

/-- How an instruction left its frame. -/
inductive Turn (β : Type) where
  /-- The frame goes on, and a native may have printed something. -/
  | next (frame : Frame β) (scopes : Arena β) (printed : String)
  /-- The frame ends, with the value that it returns, if any. -/
  | leave (value : Option (Value β))

/-- An instruction that failed: the operand stack left behind, what had been
printed, and the cause.  There are no scopes in it, since an instruction that
writes to a scope does so last, when nothing can fail any more: the scopes of a
failed one are those from before. -/
structure Breakdown (β : Type) where
  stack : Stack β
  printed : String
  cause : Fault

/-- The outcome of a part of an instruction. -/
abbrev Attempt (β α : Type) := Except (Breakdown β) α

variable {β : Type}

/-- A part of an instruction that leaves this stack behind if it fails. -/
def Stack.attempt {α : Type} (s : Stack β) : Except Fault α → Attempt β α :=
  Except.mapError fun cause => { stack := s, printed := "", cause }

namespace Instruction

/-- An operand that has to be there. -/
def require (i : Instruction) (index : Nat) : Except Fault String :=
  match i.operand? index with
  | some text => .ok text
  | none => .error (.missingOperand i.opcode index)

/-- The number of arguments that a call names. -/
def argumentCount (i : Instruction) : Except Fault Nat := do
  let text ← i.require 0
  match Decimal.count? text with
  | some n => .ok n
  | none => .error (.invalidOperand i.opcode text .argumentCount)

/-- The index that a jump names. -/
def target (i : Instruction) : Except Fault Int := do
  Frame.readTarget i.opcode (← i.require 0)

end Instruction

namespace Frame

/-- The constant that the instruction at an index loads. -/
def constant (f : Frame β) (i : Instruction) (index : Nat) : Except Fault (Value β) :=
  match f.code.constant? index with
  | some v => .ok v
  | none => .error (.missingOperand i.opcode 0)

/-- The frame goes on with another operand stack. -/
def proceed (f : Frame β) (stack : Stack β) (scopes : Arena β) : Turn β :=
  .next { f with stack } scopes ""

/-- Takes two values off and puts the value of the operator on them in their
place. -/
def binary (f : Frame β) (op : Operator) (scopes : Arena β) : Attempt β (Turn β) := do
  let (right, s) ← f.stack.attempt f.stack.pop
  let (left, s) ← s.attempt s.pop
  let v ← s.attempt (Value.apply op left right)
  return f.proceed (← s.attempt (s.push v)) scopes

/-- Takes a value off and jumps if its truth is `wanted`. -/
def branch (f : Frame β) (i : Instruction) (wanted : Bool) (scopes : Arena β) :
    Attempt β (Turn β) := do
  let (condition, s) ← f.stack.attempt f.stack.pop
  let target ← s.attempt i.target
  let f ← s.attempt (jumpIf wanted { f with stack := s } condition target)
  return .next f scopes ""

/-- Calls the native below the arguments and puts its result in their place. -/
def callNative [Host β] (f : Frame β) (i : Instruction) (scopes : Arena β) :
    Attempt β (Turn β) := do
  let count ← f.stack.attempt i.argumentCount
  let (args, s) ← f.stack.attempt (f.stack.popMany count)
  let (callee, s) ← s.attempt s.pop
  match callee with
  | .native function =>
    let (printed, answer) := function.call args.reverse
    let v ← answer.mapError fun cause => { stack := s, printed, cause }
    let stack ← (s.push v).mapError fun cause => { stack := s, printed, cause }
    return .next { f with stack } scopes printed
  | other => s.attempt (.error (.notCallable other.kind))

/-- Runs an instruction on a frame that has moved on from `index`, where the
instruction stands. -/
def perform [Host β] (f : Frame β) (index : Nat) (i : Instruction) (scopes : Arena β) :
    Attempt β (Turn β) :=
  let s := f.stack
  match i.opcode with
  | .loadConst => do
    let v ← s.attempt (f.constant i index)
    return f.proceed (← s.attempt (s.push v)) scopes
  | .loadVar => do
    let name ← s.attempt (i.require 0)
    let v ← s.attempt (scopes.get f.scope name)
    return f.proceed (← s.attempt (s.push v)) scopes
  | .storeVar => do
    let name ← s.attempt (i.require 0)
    let (v, s) ← s.attempt s.pop
    return f.proceed s (← s.attempt (scopes.set f.scope name v))
  | .add => f.binary .add scopes
  | .sub => f.binary .sub scopes
  | .mul => f.binary .mul scopes
  | .div => f.binary .div scopes
  | .popTop => do
    let (_, s) ← s.attempt s.pop
    return f.proceed s scopes
  | .dupTop => do
    return f.proceed (← s.attempt s.dup) scopes
  | .jump => do
    let target ← s.attempt i.target
    return .next (← s.attempt (f.jump target)) scopes ""
  | .jumpIfTrue => f.branch i true scopes
  | .jumpIfFalse => f.branch i false scopes
  | .callFunc => f.callNative i scopes
  | .returnVal => do
    let (v, _) ← s.attempt s.pop
    return .leave (some v)
  | .halt => return .leave none

end Frame
end Stackline
