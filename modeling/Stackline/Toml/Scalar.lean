import Stackline.Decimal.Numeral
import Stackline.Toml.Basic

/-!
# TOML scalars

The words of a TOML document that stand for a truth value, a number, a date or
a time.  Underscores may stand between two digits, integers fit a word, and a
decimal number has no leading zero.
-/

namespace Stackline
namespace Toml

/-- The digits of a run without the underscores between them. -/
def ungroup (isDigit : Char → Bool) : List Char → Option (List Char)
  | [] => none
  | [c] => if isDigit c then some [c] else none
  | c :: '_' :: rest => if isDigit c then (ungroup isDigit rest).map (c :: ·) else none
  | c :: rest => if isDigit c then (ungroup isDigit rest).map (c :: ·) else none

/-- Decimal digits without a leading zero. -/
def wholeDigits? (cs : List Char) : Option (List Char) :=
  match ungroup Char.isDigit cs with
  | some ('0' :: _ :: _) => none
  | ds => ds

/-- A sign, if there is one, and the rest. -/
def splitSign : List Char → List Char × List Char
  | '+' :: cs => (['+'], cs)
  | '-' :: cs => (['-'], cs)
  | cs => ([], cs)

/-- The value of a digit in a base of up to sixteen. -/
def digitValue (c : Char) : Nat :=
  if c.isDigit then c.toNat - '0'.toNat else c.toLower.toNat - 'a'.toNat + 10

/-- Whether a character is a digit in a base of up to sixteen. -/
def isDigitIn (base : Nat) (c : Char) : Bool :=
  (c.isDigit || (c.isAlpha && digitValue c < 16)) && digitValue c < base

/-- A number that starts with a mark of its base. -/
def basedInteger? : List Char → Option Nat
  | '0' :: mark :: cs => do
    let base ← if mark = 'x' then some 16 else if mark = 'o' then some 8
      else if mark = 'b' then some 2 else none
    let digits ← ungroup (isDigitIn base) cs
    return digits.foldl (fun n c => base * n + digitValue c) 0
  | _ => none

/-- An integer. -/
def integer? (cs : List Char) : Option Int64 :=
  match basedInteger? cs with
  | some n => Decimal.toWord? n
  | none => do
    let (sign, cs) := splitSign cs
    let n ← Decimal.integer? Decimal.wordLimit (sign ++ (← wholeDigits? cs))
    Decimal.toWord? n

/-- A point with the digits behind it, or nothing. -/
def fraction? : List Char → Option (List Char)
  | [] => some []
  | '.' :: ds => (ungroup Char.isDigit ds).map ('.' :: ·)
  | _ => none

/-- A mark with the signed digits behind it, or nothing. -/
def exponent? : List Char → Option (List Char)
  | [] => some []
  | _ :: cs =>
    let (sign, ds) := splitSign cs
    (ungroup Char.isDigit ds).map fun ds => 'e' :: sign ++ ds

/-- The part of a floating-point number behind its whole digits: a fraction, an
exponent, or one after the other. -/
def fractionExponent? (cs : List Char) : Option (List Char) := do
  let isMark (c : Char) : Bool := c = 'e' || c = 'E'
  let fraction ← fraction? (cs.takeWhile (!isMark ·))
  let exponent ← exponent? (cs.dropWhile (!isMark ·))
  if fraction.isEmpty && exponent.isEmpty then none else some (fraction ++ exponent)

/-- A floating-point number.  Digits too large for a finite one are refused; with
a minus sign they are the negative infinity. -/
def float? (cs : List Char) : Option Float := do
  let (sign, rest) := splitSign cs
  if rest = "inf".toList ∨ rest = "nan".toList then Decimal.float? (String.ofList cs)
  else
    let isWhole (c : Char) : Bool := c.isDigit || c = '_'
    let whole ← wholeDigits? (rest.takeWhile isWhole)
    let more ← fractionExponent? (rest.dropWhile isWhole)
    let x ← Decimal.float? (String.ofList (sign ++ whole ++ more))
    match Binary64.ofFloat x with
    | .infinite false => none
    | _ => some x

/-- Whether two digits write a number between two bounds. -/
def between (low high : Nat) (a b : Char) : Bool :=
  a.isDigit && b.isDigit && low ≤ 10 * digitValue a + digitValue b &&
    10 * digitValue a + digitValue b ≤ high

/-- The number of days of a month. -/
def daysIn (year month : Nat) : Nat :=
  if month = 2 then
    if year % 4 = 0 ∧ (year % 100 ≠ 0 ∨ year % 400 = 0) then 29 else 28
  else if month = 4 ∨ month = 6 ∨ month = 9 ∨ month = 11 then 30
  else 31

/-- A date of the calendar, as `year-month-day`. -/
def isDate : List Char → Bool
  | [y, e, a, r, '-', m, n, '-', d, f] =>
    [y, e, a, r].all Char.isDigit && between 1 12 m n &&
      between 1 (daysIn (Nat.ofDigitChars 10 [y, e, a, r] 0) (Nat.ofDigitChars 10 [m, n] 0)) d f
  | _ => false

/-- What follows a time of day, as `hour:minute:second` with an optional
fraction. -/
def afterTime? : List Char → Option (List Char)
  | h :: i :: ':' :: m :: n :: ':' :: s :: t :: rest =>
    if between 0 23 h i && between 0 59 m n && between 0 60 s t then
      match rest with
      | '.' :: c :: rest => if c.isDigit then some (rest.dropWhile Char.isDigit) else none
      | '.' :: [] => none
      | rest => some rest
    else none
  | _ => none

/-- An offset from universal time. -/
def isOffset : List Char → Bool
  | ['Z'] | ['z'] => true
  | [sign, h, i, ':', m, n] =>
    (sign = '+' || sign = '-') && between 0 23 h i && between 0 59 m n
  | _ => false

/-- A time of day with or without an offset. -/
def isTimeOfDate (cs : List Char) : Bool :=
  match afterTime? cs with
  | none => false
  | some rest => rest.isEmpty || isOffset rest

/-- A date, a time, or a date and a time with a `T` between them. -/
def isDatetime (cs : List Char) : Bool :=
  isDate cs || afterTime? cs == some [] ||
    (isDate (cs.take 10) &&
      match cs.drop 10 with
      | c :: rest => (c = 'T' || c = 't') && isTimeOfDate rest
      | [] => false)

/-- The value of a word. -/
def scalar? (cs : List Char) : Option Toml :=
  if cs = "true".toList then some (.boolean true)
  else if cs = "false".toList then some (.boolean false)
  else if isDatetime cs then some (.datetime (String.ofList cs))
  else ((float? cs).map Toml.float).or ((integer? cs).map Toml.integer)

end Toml
end Stackline
