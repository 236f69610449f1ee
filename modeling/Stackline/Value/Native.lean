import Stackline.Fault

/-!
# Native functions

A host gives the bodies of its native functions their meaning.  A call is a pure
function of the arguments: it answers with a value or a message, and with the
text that it printed.
-/

namespace Stackline

/-- What a native body answers. -/
structure Reply (β : Type) where
  printed : String
  result : Except String (Value β)

/-- A type of native bodies that can be called. -/
class Host (β : Type) where
  /-- What a body answers to its arguments. -/
  invoke : β → List (Value β) → Reply β

namespace Native

variable {β : Type}

/-- Calls a native function, if it takes that many arguments: the text printed
and the result. -/
def call [Host β] (f : Native β) (args : List (Value β)) : String × Except Fault (Value β) :=
  if f.arity.accepts args.length then
    let reply := Host.invoke f.body args
    (reply.printed, reply.result.mapError (.nativeFailure f.name))
  else ("", .error (.arityMismatch f.name f.arity args.length))

/-- The name and arity of a function, for whoever inspects it. -/
def inspect (f : Native β) : String :=
  let arity := match f.arity with
    | .exactly n => s!"Exact({Decimal.ofNat n})"
    | .atLeast n => s!"AtLeast({Decimal.ofNat n})"
  "NativeFunction \x7b name: \"" ++ f.name ++ "\", arity: " ++ arity ++ ", .. \x7d"

end Native
end Stackline
