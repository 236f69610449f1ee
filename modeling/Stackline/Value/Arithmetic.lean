import Stackline.Fault
import Stackline.Text.Repetition

/-!
# Arithmetic

The four operators on values.  On two integers addition, subtraction and
multiplication are exact or fail; a floating-point operand promotes the other
one; division always gives a floating-point number.  Strings are joined by
addition and repeated by multiplication with an integer, up to a limit on their
length.
-/

namespace Stackline
namespace Value

variable {β : Type}

/-- The longest string, in bytes, that arithmetic may build. -/
def maxStringBytes : Nat := 1 <<< 24

/-- Two numbers after promotion. -/
inductive Operands where
  | ints (a b : Int64)
  | floats (x y : Float)

/-- Two numbers as operands of one kind, if both are numbers. -/
def operands? : Value β → Value β → Option Operands
  | .int a, .int b => some (.ints a b)
  | a, b => do return .floats (← a.toFloat?) (← b.toFloat?)

/-- The operator is not defined on these two values. -/
def unsupported (op : Operator) (a b : Value β) : Fault :=
  .unsupported op a.kind b.kind

/-- An exact integer result, which must fit a word. -/
def ofResult (op : Operator) (n : Int) : Except Fault (Value β) :=
  match Decimal.toWord? n with
  | some w => .ok (.int w)
  | none => .error (.integerOverflow op)

/-- A number of bytes as a word.  What exceeds the largest word counts as that word. -/
def saturated (bytes : Nat) : Nat :=
  min bytes (UInt64.size - 1)

/-- A string that takes `bytes` bytes, unless that is too many. -/
def ofString (bytes : Nat) (s : Unit → String) : Except Fault (Value β) :=
  let size := saturated bytes
  if maxStringBytes < size then .error (.stringTooLong size maxStringBytes)
  else .ok (.str (s ()))

/-- An operator on numbers, given exactly on integers. -/
def arithmetic (op : Operator) (onInts : Int → Int → Int) (onFloats : Float → Float → Float)
    (a b : Value β) : Except Fault (Value β) :=
  match operands? a b with
  | none => .error (unsupported op a b)
  | some (.ints m n) => ofResult op (onInts m.toInt n.toInt)
  | some (.floats x y) => .ok (.float (onFloats x y))

/-- The string repeated, not at all for a negative count. -/
def repeatString (s : String) (count : Int64) : Except Fault (Value β) :=
  let n := count.toInt.toNat
  ofString (s.utf8ByteSize * n) fun _ => Text.repeated n s

/-- Addition of numbers and joining of strings. -/
def add : Value β → Value β → Except Fault (Value β)
  | .str s, .str t => ofString (s.utf8ByteSize + t.utf8ByteSize) fun _ => s ++ t
  | a, b => arithmetic .add (· + ·) (· + ·) a b

/-- Subtraction of numbers. -/
def sub (a b : Value β) : Except Fault (Value β) :=
  arithmetic .sub (· - ·) (· - ·) a b

/-- Multiplication of numbers and repetition of strings. -/
def mul : Value β → Value β → Except Fault (Value β)
  | .str s, .int n => repeatString s n
  | .int n, .str s => repeatString s n
  | a, b => arithmetic .mul (· * ·) (· * ·) a b

/-- Division, always in floating point. -/
def div (a b : Value β) : Except Fault (Value β) :=
  match a.toFloat?, b.toFloat? with
  | some x, some y => if y == 0 then .error .divisionByZero else .ok (.float (x / y))
  | _, _ => .error (unsupported .div a b)

/-- The value of `a op b`. -/
def apply : Operator → Value β → Value β → Except Fault (Value β)
  | .add => add
  | .sub => sub
  | .mul => mul
  | .div => div

end Value
end Stackline
