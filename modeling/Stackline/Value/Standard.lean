import Stackline.Value.Literal
import Stackline.Value.Native

/-!
# Standard functions

The native functions that a session starts with.  They work on values of any
host, so that a host with more functions can offer these among its own.
-/

namespace Stackline

/-- A standard function. -/
inductive Standard where
  | abs
  | min
  | max
  | len
  | str
  | int
  | float
  | print
  deriving DecidableEq, Repr

namespace Standard

variable {β : Type}

/-- The standard functions, in the order in which a session binds them. -/
def all : List Standard :=
  [.abs, .min, .max, .len, .str, .int, .float, .print]

/-- The name that a function is bound to. -/
def name : Standard → String
  | .abs => "abs"
  | .min => "min"
  | .max => "max"
  | .len => "len"
  | .str => "str"
  | .int => "int"
  | .float => "float"
  | .print => "print"

/-- How many arguments a function takes. -/
def arity : Standard → Arity
  | .abs | .len | .str | .int | .float => .exactly 1
  | .min | .max => .atLeast 1
  | .print => .atLeast 0

/-- The function does not take values of this kind. -/
def refuse (f : Standard) (v : Value β) : Except String (Value β) :=
  .error s!"{f.name}() does not accept {v.kind.name}"

/-- The order of two values, if they have one: integers by value, strings by
their UTF-8 bytes, and numbers of mixed kinds after promotion. -/
def compare? : Value β → Value β → Option Ordering
  | .int a, .int b => some (compare a.toInt b.toInt)
  | .str s, .str t => some (compare s.toUTF8.data t.toUTF8.data)
  | a, b => do
    let x ← a.toFloat?
    let y ← b.toFloat?
    if x < y then some .lt else if x == y then some .eq else if y < x then some .gt else none

/-- The first of the values that is `wanted` against the ones before it, starting
from `best`. -/
def extremeFrom (f : Standard) (wanted : Ordering) :
    (best : Value β) → List (Value β) → Except String (Value β)
  | best, [] => .ok best
  | best, v :: rest =>
    match compare? v best with
    | none => .error s!"{f.name}() cannot compare {v.kind.name} and {best.kind.name}"
    | some order => extremeFrom f wanted (if order = wanted then v else best) rest

/-- The magnitude of a number. -/
def absolute : Value β → Except String (Value β)
  | .int n =>
    match Decimal.toWord? n.toInt.natAbs with
    | some w => .ok (.int w)
    | none => .error "abs() overflowed"
  | .float x => .ok (.float x.abs)
  | v => refuse .abs v

/-- The number of characters of a string. -/
def length : Value β → Except String (Value β)
  | .str s => .ok (.int (Int64.ofNat s.length))
  | v => refuse .len v

/-- How a number is written that has no integer: positionally, however long that
gets, and without a point on whole numbers. -/
def plainNotation : Decimal.Notation where
  positional _ := true
  whole := ""
  nan := "NaN"
  infinity := "inf"

/-- The integer that a value stands for: a floating-point number loses its
fraction, a string is read without the blanks around it. -/
def toInteger : Value β → Except String (Value β)
  | .int n => .ok (.int n)
  | .float x =>
    match (Binary64.truncate? x).bind Decimal.toWord? with
    | some w => .ok (.int w)
    | none => .error s!"int() cannot convert {plainNotation.write x}"
  | .str s =>
    match Decimal.word? (Text.trim s) with
    | some w => .ok (.int w)
    | none => .error s!"int() cannot parse '{s}'"
  | v => refuse .int v

/-- The floating-point number that a value stands for. -/
def toFloating : Value β → Except String (Value β)
  | .str s =>
    match Decimal.float? (Text.trim s) with
    | some x => .ok (.float x)
    | none => .error s!"float() cannot parse '{s}'"
  | v =>
    match v.toFloat? with
    | some x => .ok (.float x)
    | none => refuse .float v

/-- Applies a function to its first argument. -/
def onFirst (f : Standard) (act : Value β → Except String (Value β)) :
    List (Value β) → Reply β
  | [] => { printed := "", result := .error s!"{f.name}() needs an argument" }
  | v :: _ => { printed := "", result := act v }

/-- The least or the greatest of the arguments; of equal ones the first. -/
def extreme (f : Standard) (wanted : Ordering) : List (Value β) → Reply β
  | [] => { printed := "", result := .error s!"{f.name}() needs an argument" }
  | v :: rest => { printed := "", result := extremeFrom f wanted v rest }

/-- What a standard function answers. -/
def invoke (f : Standard) (args : List (Value β)) : Reply β :=
  match f with
  | .abs => onFirst f absolute args
  | .min => extreme f .lt args
  | .max => extreme f .gt args
  | .len => onFirst f length args
  | .str => onFirst f (fun v => .ok (.str v.text)) args
  | .int => onFirst f toInteger args
  | .float => onFirst f toFloating args
  | .print =>
    { printed := String.intercalate " " (args.map Value.text) ++ "\n"
      result := .ok (.int (Int64.ofNat args.length)) }

/-- The function as a native with the given body. -/
def native (f : Standard) (body : β) : Native β :=
  { name := f.name, arity := f.arity, body }

instance : Host Standard where
  invoke := invoke

end Standard
end Stackline
