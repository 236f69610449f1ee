import Stackline.Decimal.Notation

/-!
# Values

What lives on operand stacks and in variables.  Integers are words of 64 bits.
A native function carries a body of a type `β` that the host chooses: it is all
that tells two natives of the same name and arity apart, and the host gives it
its meaning.
-/

namespace Stackline

/-- How many arguments a native function takes. -/
inductive Arity where
  | exactly (n : Nat)
  | atLeast (n : Nat)
  deriving DecidableEq, Repr

namespace Arity

/-- Whether a call with `n` arguments is allowed. -/
def accepts : Arity → Nat → Bool
  | .exactly m, n => n = m
  | .atLeast m, n => m ≤ n

/-- The arity in words. -/
def text : Arity → String
  | .exactly n => Decimal.ofNat n
  | .atLeast n => "at least " ++ Decimal.ofNat n

end Arity

/-- A function of the host. -/
structure Native (β : Type) where
  name : String
  arity : Arity
  body : β
  deriving DecidableEq, Repr

/-- A value of the machine. -/
inductive Value (β : Type) where
  | int (n : Int64)
  | float (x : Float)
  | str (s : String)
  | native (f : Native β)

/-- The kinds of values. -/
inductive Kind where
  | int
  | float
  | str
  | native
  deriving DecidableEq, Repr

/-- The name of a kind. -/
def Kind.name : Kind → String
  | .int => "int"
  | .float => "float"
  | .str => "str"
  | .native => "native"

namespace Value

variable {β : Type}

instance : Inhabited (Value β) := ⟨.int 0⟩

/-- The kind of a value. -/
def kind : Value β → Kind
  | .int _ => .int
  | .float _ => .float
  | .str _ => .str
  | .native _ => .native

/-- Zero of either kind and the empty string are false, all else is true. -/
def truthy : Value β → Bool
  | .int n => n != 0
  | .float x => x != 0
  | .str s => !s.isEmpty
  | .native _ => true

/-- The integer that a value is. -/
def toInt? : Value β → Option Int64
  | .int n => some n
  | _ => none

/-- A number as a floating-point number; integers are promoted. -/
def toFloat? : Value β → Option Float
  | .int n => some (Binary64.ofInt n.toInt)
  | .float x => some x
  | _ => none

/-- How floating-point numbers are shown: positionally from `1e-4` to below
`1e16`, and a whole number keeps one zero behind its point. -/
def floatNotation : Decimal.Notation where
  positional point := -3 ≤ point && point ≤ 16
  whole := ".0"
  nan := "nan"
  infinity := "inf"

/-- The text by which a value is shown. -/
def text : Value β → String
  | .int n => Decimal.ofInt n.toInt
  | .float x => floatNotation.write x
  | .str s => s
  | .native f => "<native " ++ f.name ++ ">"

/-- Equality as programs see it: an integer equals the number it is promoted to,
natives are equal when their bodies are, and not-a-number differs from itself. -/
def equals [DecidableEq β] : Value β → Value β → Bool
  | .int a, .int b => a == b
  | .float x, .float y => x == y
  | .int n, .float x => Binary64.ofInt n.toInt == x
  | .float x, .int n => Binary64.ofInt n.toInt == x
  | .str s, .str t => s == t
  | .native f, .native g => f == g
  | _, _ => false

end Value
end Stackline
