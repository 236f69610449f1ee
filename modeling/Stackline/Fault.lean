import Stackline.Program.Opcode
import Stackline.Scope.Basic

/-!
# Faults

Every way in which an instruction or an operation of the machine can fail.  A
fault is a cause; its wording is given once, by `Fault.message`.
-/

namespace Stackline

/-- The arithmetic operators. -/
inductive Operator where
  | add
  | sub
  | mul
  | div
  deriving DecidableEq, Repr

/-- The sign of an operator. -/
def Operator.symbol : Operator → String
  | .add => "+"
  | .sub => "-"
  | .mul => "*"
  | .div => "/"

/-- What an operand was expected to be. -/
inductive OperandRole where
  | jumpTarget
  | argumentCount
  deriving DecidableEq, Repr

/-- The expectation in words. -/
def OperandRole.text : OperandRole → String
  | .jumpTarget => "an integer jump target"
  | .argumentCount => "a non-negative argument count"

/-- The cause of a failure. -/
inductive Fault where
  /-- A value was needed and the operand stack had none. -/
  | stackUnderflow
  /-- The operand stack holds `limit` values already. -/
  | stackOverflow (limit : Nat)
  /-- The call stack holds `limit` frames already. -/
  | callOverflow (limit : Nat)
  /-- No scope on the way up binds the name. -/
  | undefined (name : String)
  /-- A jump to an index at which there is no instruction. -/
  | jumpOutside (target : Int) (length : Nat)
  /-- The instruction lacks an operand. -/
  | missingOperand (opcode : Opcode) (index : Nat)
  /-- The operand does not read as what it should be. -/
  | invalidOperand (opcode : Opcode) (operand : String) (expected : OperandRole)
  | divisionByZero
  /-- The exact result does not fit a word. -/
  | integerOverflow (op : Operator)
  /-- The operator is not defined on values of these kinds. -/
  | unsupported (op : Operator) (left right : Kind)
  /-- The value called is no function. -/
  | notCallable (kind : Kind)
  /-- The function does not take that many arguments. -/
  | arityMismatch (name : String) (expected : Arity) (given : Nat)
  /-- The function reported a failure of its own. -/
  | nativeFailure (name message : String)
  /-- There is no frame to work on. -/
  | noFrame
  /-- The scope has been released. -/
  | releasedScope (id : ScopeId)
  /-- A string would be longer than allowed, both counted in bytes. -/
  | stringTooLong (length limit : Nat)
  deriving DecidableEq, Repr

namespace Fault

/-- The wording of a fault. -/
def message : Fault → String
  | .stackUnderflow => "stack underflow"
  | .stackOverflow limit => s!"stack overflow (max {Decimal.ofNat limit})"
  | .callOverflow limit => s!"maximum call depth of {Decimal.ofNat limit} exceeded"
  | .undefined name => s!"variable '{name}' is not defined"
  | .jumpOutside target length =>
    s!"jump target {Decimal.ofInt target} is outside 0..{Decimal.ofNat length}"
  | .missingOperand opcode index =>
    s!"{opcode.mnemonic} is missing operand {Decimal.ofNat index}"
  | .invalidOperand opcode operand expected =>
    s!"{opcode.mnemonic} operand '{operand}' is not {expected.text}"
  | .divisionByZero => "division by zero"
  | .integerOverflow op => s!"integer overflow in {op.symbol}"
  | .unsupported op left right =>
    s!"unsupported operand types for {op.symbol}: {left.name} and {right.name}"
  | .notCallable kind => s!"{kind.name} value is not callable"
  | .arityMismatch name expected given =>
    s!"{name}() takes {expected.text} argument(s), got {Decimal.ofNat given}"
  | .nativeFailure name message => s!"{name}() failed: {message}"
  | .noFrame => "no active frame"
  | .releasedScope id => s!"namespace {id.text} has been released"
  | .stringTooLong length limit =>
    s!"string of {Decimal.ofNat length} bytes exceeds the limit of {Decimal.ofNat limit}"

end Fault
end Stackline
