/-!
# Repetition

A text written several times in a row.
-/

namespace Stackline
namespace Text

/-- Writes `s` behind `before`, `n` times. -/
def repeatOnto (s : String) : (n : Nat) → (before : String) → String
  | 0, before => before
  | n + 1, before => repeatOnto s n (before ++ s)

/-- The text `s` written `n` times.  The empty text needs no writing, however
large `n` is. -/
def repeated (n : Nat) (s : String) : String :=
  if s.isEmpty then "" else repeatOnto s n ""

end Text
end Stackline
