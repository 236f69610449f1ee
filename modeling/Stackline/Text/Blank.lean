/-!
# Blank characters

Program text is split into words and trimmed at blank characters.  Blank means
the White_Space property of Unicode, twenty-five code points in all, so a word
may hold any character that merely looks empty but lacks the property.
-/

namespace Stackline
namespace Text

/-- A character with the White_Space property. -/
def isBlank (c : Char) : Bool :=
  let n := c.toNat
  (0x09 ≤ n && n ≤ 0x0D) || n == 0x20 || n == 0x85 || n == 0xA0 || n == 0x1680 ||
    (0x2000 ≤ n && n ≤ 0x200A) || n == 0x2028 || n == 0x2029 || n == 0x202F ||
    n == 0x205F || n == 0x3000

/-- Drops from the end of a list the elements that satisfy `p`. -/
def dropEndWhile {α : Type} (p : α → Bool) (xs : List α) : List α :=
  (xs.reverse.dropWhile p).reverse

/-- Drops from both ends of a list the elements that satisfy `p`. -/
def trimWhile {α : Type} (p : α → Bool) (xs : List α) : List α :=
  dropEndWhile p (xs.dropWhile p)

/-- The text without the blanks at its two ends. -/
def trim (s : String) : String :=
  String.ofList (trimWhile isBlank s.toList)

/-- The words of `cs`, where `w` holds the characters of the word that is still
open, last one first. -/
def wordsFrom (w : List Char) : List Char → List (List Char)
  | [] => if w.isEmpty then [] else [w.reverse]
  | c :: cs =>
    if isBlank c then
      if w.isEmpty then wordsFrom [] cs else w.reverse :: wordsFrom [] cs
    else wordsFrom (c :: w) cs

/-- The maximal runs of characters that are not blank, in order. -/
def words (s : String) : List String :=
  (wordsFrom [] s.toList).map String.ofList

end Text
end Stackline
