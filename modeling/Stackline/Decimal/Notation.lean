import Stackline.Decimal.Shortest

/-!
# Notation of floating-point numbers

How an expansion is laid out as text: positionally or with an exponent, with or
without a fraction on whole numbers, and the names of the values that have no
expansion.  The choices are fields of one record, so that each kind of output
states its own.
-/

namespace Stackline
namespace Decimal

/-- The choices that a text for floating-point numbers leaves open. -/
structure Notation where
  /-- Which places of the point are written without an exponent. -/
  positional : Int → Bool
  /-- What follows a whole number that is written without an exponent. -/
  whole : String
  nan : String
  infinity : String

/-- The digits without the zeros at their end. -/
def significantDigits (digits : Nat) : List Char :=
  let ds := Nat.toDigits 10 digits
  (ds.reverse.dropWhile (· == '0')).reverse

/-- An expansion without an exponent. -/
def plainText (whole : String) (ds : List Char) (point : Int) : String :=
  if point ≤ 0 then
    "0." ++ String.ofList (List.replicate (-point).toNat '0' ++ ds)
  else if (ds.length : Int) ≤ point then
    String.ofList (ds ++ List.replicate (point.toNat - ds.length) '0') ++ whole
  else
    String.ofList (ds.take point.toNat) ++ "." ++ String.ofList (ds.drop point.toNat)

/-- An expansion with one digit in front of the point and an exponent. -/
def scientificText (ds : List Char) (point : Int) : String :=
  let fraction := ds.drop 1
  String.ofList (ds.take 1) ++
    (if fraction.isEmpty then "" else "." ++ String.ofList fraction) ++
    "e" ++ ofInt (point - 1)

/-- The text of a floating-point number. -/
def Notation.write (style : Notation) (x : Float) : String :=
  match Binary64.ofFloat x with
  | .nan => style.nan
  | .infinite negative => (if negative then "-" else "") ++ style.infinity
  | .finite negative significand exponent =>
    let sign := if negative then "-" else ""
    if significand = 0 then sign ++ "0" ++ style.whole
    else
      let e := shortest significand exponent
      let ds := significantDigits e.digits
      sign ++ if style.positional e.point then plainText style.whole ds e.point
        else scientificText ds e.point

end Decimal
end Stackline
