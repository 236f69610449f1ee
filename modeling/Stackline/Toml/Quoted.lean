import Stackline.Toml.Scalar

/-!
# TOML strings

Four ways to quote a text: with single or double quotes, on one line or on
several.  Only double quotes know escapes.
-/

namespace Stackline
namespace Toml

/-- A character that may stand in a string or a comment: a tab or one that is no
control character. -/
def isPrintable (c : Char) : Bool :=
  c = '\t' || (0x20 ≤ c.toNat && c.toNat != 0x7F)

/-- A space or a tab. -/
def isSpace (c : Char) : Bool :=
  c = ' ' || c = '\t'

/-- A way to quote a text. -/
structure Quoting where
  /-- The quote character. -/
  mark : Char
  /-- Whether it is written three times and encloses several lines. -/
  multiline : Bool

/-- Whether a backslash starts an escape. -/
def Quoting.escapes (q : Quoting) : Bool :=
  q.mark = '"'

/-- The character with a code point written in sixteens, if there is one. -/
def unicodeScalar? (digits : List Char) : Option Char :=
  let n := digits.foldl (fun n c => 16 * n + digitValue c) 0
  if digits.all (isDigitIn 16) ∧ n.isValidChar then some (Char.ofNat n) else none

/-- The character that an escape stands for, and what follows the escape. -/
def escape? : List Char → Option (Char × List Char)
  | 'b' :: cs => some ('\x08', cs)
  | 't' :: cs => some ('\t', cs)
  | 'n' :: cs => some ('\n', cs)
  | 'f' :: cs => some ('\x0C', cs)
  | 'r' :: cs => some ('\r', cs)
  | '"' :: cs => some ('"', cs)
  | '\\' :: cs => some ('\\', cs)
  | 'u' :: cs =>
    if cs.length < 4 then none else (unicodeScalar? (cs.take 4)).map (·, cs.drop 4)
  | 'U' :: cs =>
    if cs.length < 8 then none else (unicodeScalar? (cs.take 8)).map (·, cs.drop 8)
  | _ => none

/-- What follows a line break. -/
def afterNewline? : List Char → Option (List Char)
  | '\n' :: cs => some cs
  | '\r' :: '\n' :: cs => some cs
  | _ => none

/-- Drops spaces, tabs and line breaks. -/
def dropWhite : List Char → List Char
  | '\r' :: '\n' :: cs => dropWhite cs
  | c :: cs => if isSpace c || c = '\n' then dropWhite cs else c :: cs
  | [] => []

/-- What follows a backslash at the end of a line, the next lines' indentation
left out. -/
def continuation? (cs : List Char) : Option (List Char) :=
  (afterNewline? (cs.dropWhile isSpace)).map dropWhite

/-- The text up to the closing quotes, and what follows them.  A quote or two
may stand directly before the closing three. -/
def quoted? (q : Quoting) : (fuel : Nat) → List Char → Option (List Char × List Char)
  | 0, _ => none
  | _, [] => none
  | fuel + 1, c :: cs =>
    if c = q.mark then
      if q.multiline then
        let run := ((c :: cs).takeWhile (· == q.mark)).take 5
        let rest := (c :: cs).drop run.length
        if run.length < 3 then (quoted? q fuel rest).map fun (s, rest) => (run ++ s, rest)
        else some (run.drop 3, rest)
      else some ([], cs)
    else if c = '\\' ∧ q.escapes then
      match escape? cs with
      | some (e, rest) => (quoted? q fuel rest).map fun (s, rest) => (e :: s, rest)
      | none =>
        if q.multiline then (continuation? cs).bind (quoted? q fuel) else none
    else if isPrintable c then
      (quoted? q fuel cs).map fun (s, rest) => (c :: s, rest)
    else if q.multiline then
      match afterNewline? (c :: cs) with
      | some rest => (quoted? q fuel rest).map fun (s, rest) => ('\n' :: s, rest)
      | none => none
    else none

/-- The text quoted at the front, on one line. -/
def quotedLine? (cs : List Char) : Option (String × List Char) :=
  match cs with
  | [] => none
  | mark :: rest =>
    if mark = '"' ∨ mark = '\'' then
      (quoted? { mark, multiline := false } (rest.length + 1) rest).map fun (s, rest) =>
        (String.ofList s, rest)
    else none

/-- The text quoted at the front, in any of the four ways.  A line break directly
after three opening quotes is left out. -/
def quotedText? (cs : List Char) : Option (String × List Char) :=
  match cs with
  | a :: b :: c :: rest =>
    if a = b ∧ b = c ∧ (a = '"' ∨ a = '\'') then
      let rest := (afterNewline? rest).getD rest
      (quoted? { mark := a, multiline := true } (rest.length + 1) rest).map fun (s, rest) =>
        (String.ofList s, rest)
    else quotedLine? cs
  | _ => quotedLine? cs

end Toml
end Stackline
