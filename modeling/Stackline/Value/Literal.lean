import Stackline.Decimal.Numeral
import Stackline.Text.Blank
import Stackline.Value.Basic

/-!
# Literals

The constants of a program are written as plain words.  Digits alone are an
integer as long as it fits, anything else that is a numeral is a floating-point
number, and the rest is a string.
-/

namespace Stackline
namespace Value

variable {β : Type}

/-- The text without the double quotes at its two ends. -/
def unquote (s : String) : String :=
  String.ofList (Text.trimWhile (· == '"') s.toList)

/-- The value that a word of a program stands for. -/
def ofLiteral (s : String) : Value β :=
  match (Decimal.natural? Decimal.wordLimit s.toList).bind fun n => Decimal.toWord? n with
  | some n => .int n
  | none =>
    match Decimal.float? s with
    | some x => .float x
    | none => .str (unquote s)

end Value
end Stackline
