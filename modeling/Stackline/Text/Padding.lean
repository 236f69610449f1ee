/-!
# Padding

Texts filled up to a width counted in characters.  A text that is already wide
enough is left as it is.
-/

namespace Stackline
namespace Text

/-- Fills up with `fill` in front. -/
def padStart (fill : Char) (width : Nat) (s : String) : String :=
  String.ofList (List.replicate (width - s.length) fill) ++ s

/-- Fills up with spaces behind. -/
def padEnd (width : Nat) (s : String) : String :=
  s ++ String.ofList (List.replicate (width - s.length) ' ')

end Text
end Stackline
