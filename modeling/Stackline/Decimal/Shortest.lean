import Stackline.Decimal.Binary64

/-!
# Shortest decimal digits

The decimal expansion by which a floating-point number is written: the fewest
digits that read back as the same number, and of those with that many digits the
nearest to it.  The numbers that read back are the ones in an interval around
the number, whose ends belong to it when the significand is even.
-/

namespace Stackline
namespace Decimal

/-- The positive decimal `0.d₁d₂… * 10 ^ point`, as its digits and the place of
the point. -/
structure Expansion where
  /-- The digits, read as a natural number. -/
  digits : Nat
  /-- The place of the point, counted from in front of the first digit. -/
  point : Int
  deriving DecidableEq, Repr

/-- The least `d` with `num / den < 10 ^ d`. -/
def pointOf (num den : Nat) : Int :=
  if den ≤ num then width (num / den) else 1 - (width ((den - 1) / num) : Int)

/-- The interval of the reals that round to a significand, in quarters of its
last unit.  Below a power of two the neighbours lie twice as close. -/
structure Neighbourhood where
  low : Nat
  mid : Nat
  high : Nat
  /-- Whether the two ends belong to the interval. -/
  closed : Bool

/-- The neighbourhood of the number `significand * 2 ^ exponent`. -/
def neighbourhood (significand : Nat) (exponent : Int) : Neighbourhood where
  low := if significand = 1 <<< 52 ∧ -1074 < exponent then 4 * significand - 1
    else 4 * significand - 2
  mid := 4 * significand
  high := 4 * significand + 2
  closed := significand % 2 = 0

/-- Whether `x` lies in the neighbourhood whose quarters weigh `quarter`. -/
def Neighbourhood.contains (n : Neighbourhood) (quarter x : Nat) : Bool :=
  if n.closed then n.low * quarter ≤ x && x ≤ n.high * quarter
  else n.low * quarter < x && x < n.high * quarter

/-- The better of the two multiples of `step` around the middle of the
neighbourhood, as a multiple, if one of them lies in the neighbourhood.  Of two
equally near ones it is the upper. -/
def Neighbourhood.onGrid? (n : Neighbourhood) (quarter step : Nat) : Option Nat :=
  let mid := n.mid * quarter
  let below := mid / step
  let rest := mid % step
  let low := n.contains quarter (below * step)
  let high := n.contains quarter ((below + 1) * step)
  if low && (!high || 2 * rest < step) then some below
  else if high then some (below + 1)
  else none

/-- The first hit on the grids of `count`, `count + 1`, … digits, where `fuel`
more grids are tried. -/
def shortestFrom (n : Neighbourhood) (exponent point : Int) :
    (fuel count : Nat) → Expansion
  | 0, _ => { digits := 0, point }
  | fuel + 1, count =>
    let place := point - count
    let quarter := Nat.pow 10 (-place).toNat <<< (exponent - 2).toNat
    let step := Nat.pow 10 place.toNat <<< (2 - exponent).toNat
    match n.onGrid? quarter step with
    | some digits => { digits, point := place + width digits }
    | none => shortestFrom n exponent point fuel (count + 1)

/-- The shortest expansion that reads back as `significand * 2 ^ exponent`.
Seventeen digits always suffice. -/
def shortest (significand : Nat) (exponent : Int) : Expansion :=
  let point := pointOf (significand <<< exponent.toNat) (1 <<< (-exponent).toNat)
  shortestFrom (neighbourhood significand exponent) exponent point 17 1

end Decimal
end Stackline
