/-!
# Lines

A line ends at a line feed, and one carriage return directly before that line
feed belongs to the ending.  Text after the last line feed is a line of its own
unless it is empty, and there a final carriage return stays.
-/

namespace Stackline
namespace Text

/-- Takes one carriage return off the front. -/
def dropReturn : List Char → List Char
  | '\r' :: cs => cs
  | cs => cs

/-- The lines of `cs`, where `l` holds the characters of the line that is still
open, last one first. -/
def linesFrom (l : List Char) : List Char → List (List Char)
  | [] => if l.isEmpty then [] else [l.reverse]
  | c :: cs =>
    if c = '\n' then (dropReturn l).reverse :: linesFrom [] cs
    else linesFrom (c :: l) cs

/-- The lines of a text, without their endings. -/
def lines (s : String) : List String :=
  (linesFrom [] s.toList).map String.ofList

/-- The lines, each followed by a line feed. -/
def unlines (ls : List String) : String :=
  String.join (ls.map (· ++ "\n"))

end Text
end Stackline
