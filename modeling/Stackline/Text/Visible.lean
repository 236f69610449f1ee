import Stackline.Text.Padding

/-!
# Text for a terminal

Some characters steer a terminal instead of being shown on it: the bell, the
backspace, the form feed, the escape, the delete, and the controls from `80` to
`9f`.  A text meant for a terminal shows their codes.  All other characters
stand for themselves, among them the backslash and the remaining controls.
-/

namespace Stackline
namespace Text

/-- The code of a character in hexadecimal, two digits at least. -/
def hexCode (c : Char) : List Char :=
  (padStart '0' 2 (String.ofList (Nat.toDigits 16 c.toNat))).toList

/-- A character as a terminal may show it. -/
def visibleChar (c : Char) : List Char :=
  if c.toNat ∈ [0x07, 0x08, 0x0C, 0x1B, 0x7F] then '\\' :: 'x' :: hexCode c
  else if 0x80 ≤ c.toNat ∧ c.toNat ≤ 0x9F then "\\u\x7b".toList ++ hexCode c ++ ['\x7d']
  else [c]

/-- A text as a terminal may show it. -/
def visible (s : String) : String :=
  String.ofList (s.toList.flatMap visibleChar)

end Text
end Stackline
