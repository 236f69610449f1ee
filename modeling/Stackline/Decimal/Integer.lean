/-!
# Integers in decimal

Reading and writing of whole numbers, and the two ranges that the machine's
words have.  Only the ten ASCII digits count as digits.
-/

namespace Stackline
namespace Decimal

/-- The number that digits write.  Once it has reached `limit`, further digits no
longer count: a result below `limit` is exact, and one that is not says that the
number is no smaller than `limit`. -/
def readDigits (limit : Nat) (cs : List Char) : Nat :=
  cs.foldl (fun n c => if n < limit then 10 * n + (c.toNat - '0'.toNat) else n) 0

/-- The number written by one or more digits, read as far as `limit`. -/
def natural? (limit : Nat) (cs : List Char) : Option Nat :=
  if cs.isEmpty || !cs.all Char.isDigit then none else some (readDigits limit cs)

/-- The number written by digits with at most one sign in front, its size read as
far as `limit`. -/
def integer? (limit : Nat) : List Char → Option Int
  | '-' :: cs => (natural? limit cs).map fun n => -(n : Int)
  | '+' :: cs => (natural? limit cs).map Int.ofNat
  | cs => (natural? limit cs).map Int.ofNat

/-- A size that no word of 64 bits reaches, signed or not. -/
def wordLimit : Nat := UInt64.size

/-- An integer as a word of 64 bits, if it lies in the signed range. -/
def toWord? (n : Int) : Option Int64 :=
  if Int64.minValue.toInt ≤ n ∧ n ≤ Int64.maxValue.toInt then some (Int64.ofInt n) else none

/-- The signed word written by a text. -/
def word? (s : String) : Option Int64 :=
  (integer? wordLimit s.toList).bind toWord?

/-- The count written by a text: digits with at most a plus sign in front, of a
value below `2 ^ 64`. -/
def count? (s : String) : Option Nat :=
  let digits := match s.toList with
    | '+' :: cs => cs
    | cs => cs
  (natural? wordLimit digits).filter (· < wordLimit)

/-- The decimal digits of a natural number. -/
def ofNat (n : Nat) : String :=
  String.ofList (Nat.toDigits 10 n)

/-- The decimal digits of an integer, with a minus sign when it is negative. -/
def ofInt : Int → String
  | .ofNat n => ofNat n
  | .negSucc n => "-" ++ ofNat (n + 1)

/-- The number of digits of `n`, none for zero. -/
def width (n : Nat) : Nat :=
  if n = 0 then 0 else (Nat.toDigits 10 n).length

end Decimal
end Stackline
