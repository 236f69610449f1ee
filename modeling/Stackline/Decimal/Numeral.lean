import Stackline.Decimal.Binary64

/-!
# Numerals

The grammar by which a text is read as a floating-point number: an optional
sign, then `inf`, `infinity` or `nan` in any case, or digits with an optional
point and an optional exponent.  At least one digit stands before or after the
point, and at least one in the exponent.

An exponent is read digit by digit until it has reached `2 ^ 16`.  The digits
after that are part of the numeral, but do not change its value.
-/

namespace Stackline
namespace Decimal

/-- A number as written, before it is rounded. -/
inductive Magnitude where
  | nan
  | infinity
  /-- The number `digits * 10 ^ exponent`. -/
  | decimal (digits : Nat) (exponent : Int)
  deriving DecidableEq, Repr

/-- A number as written, with its sign. -/
structure Numeral where
  negative : Bool
  magnitude : Magnitude
  deriving DecidableEq, Repr

/-- The size from which on the digits of an exponent no longer count. -/
def exponentLimit : Nat := 1 <<< 16

/-- The exponent after the digits: nothing, or a mark and a signed number. -/
def exponent? : List Char → Option Int
  | [] => some 0
  | c :: cs => if c = 'e' ∨ c = 'E' then integer? exponentLimit cs else none

/-- How many digits of a numeral are read in full.  The points at which rounding
turns from one floating-point number to the next have fewer digits than this, so
of all digits behind them it only matters whether they are zero. -/
def precision : Nat := 800

/-- The number `ds * 10 ^ exponent`, or one with fewer digits that is rounded to
the same floating-point number. -/
def Magnitude.ofDigits (ds : List Char) (exponent : Int) : Magnitude :=
  let ds := ds.dropWhile (· == '0')
  let kept := Nat.ofDigitChars 10 (ds.take precision) 0
  match ds.drop precision with
  | [] => .decimal kept exponent
  | rest =>
    let last := if rest.all (· == '0') then 0 else 1
    .decimal (10 * kept + last) (exponent + rest.length - 1)

/-- The digits on both sides of an optional point, and what follows them. -/
def splitPoint (cs : List Char) : List Char × List Char × List Char :=
  let whole := cs.takeWhile Char.isDigit
  match cs.dropWhile Char.isDigit with
  | '.' :: rest => (whole, rest.takeWhile Char.isDigit, rest.dropWhile Char.isDigit)
  | rest => (whole, [], rest)

/-- A number without its sign. -/
def magnitude? (cs : List Char) : Option Magnitude :=
  let lower := String.ofList (cs.map Char.toLower)
  if lower = "inf" ∨ lower = "infinity" then some .infinity
  else if lower = "nan" then some .nan
  else
    let (whole, fraction, rest) := splitPoint cs
    if whole.isEmpty && fraction.isEmpty then none
    else
      (exponent? rest).map fun e =>
        .ofDigits (whole ++ fraction) (e - fraction.length)

/-- The numeral that a text is. -/
def numeral? : List Char → Option Numeral
  | '-' :: cs => (magnitude? cs).map (Numeral.mk true)
  | '+' :: cs => (magnitude? cs).map (Numeral.mk false)
  | cs => (magnitude? cs).map (Numeral.mk false)

/-- The floating-point number nearest to a numeral. -/
def Numeral.toFloat (n : Numeral) : Float :=
  match n.magnitude with
  | .nan => Float.ofBits 0x7FF8000000000000
  | .infinity => Binary64.assemble n.negative (2047 <<< 52)
  | .decimal digits exponent => Binary64.ofDecimal n.negative digits exponent

/-- The floating-point number that a text stands for. -/
def float? (s : String) : Option Float :=
  (numeral? s.toList).map Numeral.toFloat

end Decimal
end Stackline
