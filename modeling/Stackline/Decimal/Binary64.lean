import Stackline.Decimal.Integer

/-!
# Binary floating point, exactly

A finite number of 64 bits is a sign, a significand and a power of two.  This
file takes a number apart into these, and rounds a ratio of natural numbers to
the nearest number, a tie to the even significand.  Both use natural numbers
only, so nothing is lost on the way.
-/

namespace Stackline

/-- What a word of 64 bits stands for as a floating-point number. -/
inductive Binary64 where
  /-- Not a number. -/
  | nan
  /-- One of the two infinities. -/
  | infinite (negative : Bool)
  /-- The number `significand * 2 ^ exponent`, with its sign. -/
  | finite (negative : Bool) (significand : Nat) (exponent : Int)
  deriving DecidableEq, Repr

namespace Binary64

/-- The number that a floating-point word stands for. -/
def ofFloat (x : Float) : Binary64 :=
  let bits := x.toBits.toNat
  let negative := decide (1 <<< 63 ≤ bits)
  let biased := (bits >>> 52) % 2048
  let fraction := bits % (1 <<< 52)
  if biased = 2047 then
    if fraction = 0 then .infinite negative else .nan
  else if biased = 0 then .finite negative fraction (-1074)
  else .finite negative ((1 <<< 52) + fraction) ((biased : Int) - 1075)

/-- The word with the given sign whose other 63 bits are `magnitude`, or the
infinity of that sign if they would pass beyond the largest finite number. -/
def assemble (negative : Bool) (magnitude : Nat) : Float :=
  let magnitude := min magnitude (2047 <<< 52)
  Float.ofBits (UInt64.ofNat (if negative then (1 <<< 63) + magnitude else magnitude))

/-- The quotient `a / b` to the nearest natural number, a half to the even one. -/
def roundDiv (a b : Nat) : Nat :=
  let q := a / b
  let r := a % b
  if b < 2 * r ∨ (b = 2 * r ∧ q % 2 = 1) then q + 1 else q

/-- The power of two that one unit of the significand of `num / den` weighs:
fifty-three bits of significand, but never below the smallest power. -/
def unitExponent (num den : Nat) : Int :=
  let guess : Int := (Nat.log2 num : Int) - Nat.log2 den - 52
  let short := num <<< (-guess).toNat < den <<< (guess.toNat + 52)
  max (if short then guess - 1 else guess) (-1074)

/-- The floating-point number nearest to `num / den`, with the given sign.

The significand is added to the shifted exponent as it stands: its leading bit
and a carry out of rounding both move the exponent up by themselves. -/
def round (negative : Bool) (num den : Nat) : Float :=
  if num = 0 then assemble negative 0
  else
    let e := unitExponent num den
    let significand := roundDiv (num <<< (-e).toNat) (den <<< e.toNat)
    assemble negative (((e + 1074).toNat <<< 52) + significand)

/-- The floating-point number nearest to an integer. -/
def ofInt (n : Int) : Float :=
  round (decide (n < 0)) n.natAbs 1

/-- The floating-point number nearest to `digits * 10 ^ exponent`, with the
given sign.  Exponents far outside the range are settled by the number of
digits alone. -/
def ofDecimal (negative : Bool) (digits : Nat) (exponent : Int) : Float :=
  let top := (Decimal.width digits : Int) + exponent
  if digits = 0 ∨ top < -330 then assemble negative 0
  else if 310 < top then assemble negative (2047 <<< 52)
  else round negative (digits * Nat.pow 10 exponent.toNat) (Nat.pow 10 (-exponent).toNat)

/-- The number without its fractional part, if it is finite. -/
def truncate? (x : Float) : Option Int :=
  match ofFloat x with
  | .finite negative m e =>
    let whole := (m <<< e.toNat) >>> (-e).toNat
    some (if negative then -(whole : Int) else whole)
  | _ => none

end Binary64
end Stackline
