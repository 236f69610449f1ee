import Stackline.Proofs.Decimal.Integer
import Stackline.Value.Arithmetic
import Stackline.Value.Literal

/-!
# Natural numbers as values

A natural number up to the largest word is a value of its own, and its digits are a
literal for it.  On such values the operators count as one counts, up to the point where
a sum no longer fits a word.
-/

namespace Stackline

variable {β : Type}

/-! ## Numbers that fit a word -/

namespace Decimal

/-- The natural number is no larger than the largest word. -/
def FitsWord (n : Nat) : Prop :=
  (n : Int) ≤ Int64.maxValue.toInt

theorem fitsWord_iff
    {n : Nat} :
    FitsWord n ↔ n ≤ 9223372036854775807 :=
  Int.ofNat_le

theorem FitsWord.of_le
    {m n : Nat} (hn : FitsWord n) (hle : m ≤ n) :
    FitsWord m :=
  Int.le_trans (Int.ofNat_le.mpr hle) hn

theorem FitsWord.toInt_ofNat
    {n : Nat} (hn : FitsWord n) :
    (Int64.ofNat n).toInt = n := by
  apply Int64.toInt_ofNat_of_lt
  have hle := fitsWord_iff.mp hn
  omega

theorem FitsWord.toWord?_eq
    {n : Nat} (hn : FitsWord n) :
    toWord? n = some (Int64.ofNat n) :=
  toWord?_eq_some_iff.mpr hn.toInt_ofNat

theorem toWord?_eq_none_of_not_fitsWord
    {n : Nat} (hn : ¬FitsWord n) :
    toWord? n = none := by
  rw [toWord?_eq_none_iff]
  rintro ⟨-, hle⟩
  exact hn hle

end Decimal

/-! ## The values -/

namespace Value

open Decimal

/-- A natural number as an integer value. -/
def nat (n : Nat) : Value β :=
  .int (Int64.ofNat n)

/-- Digits are a literal for the number that they write, if it fits a word. -/
theorem ofLiteral_of_writes
    {s : String} {n : Nat} (hs : Writes s.toList n) (hn : FitsWord n) :
    (ofLiteral s : Value β) = nat n := by
  have hlimit : n < wordLimit := by
    have hle := fitsWord_iff.mp hn
    have hsize : wordLimit = 18446744073709551616 := rfl
    omega
  rw [ofLiteral, (natural?_eq_some_iff hlimit).mpr hs, Option.bind_some, hn.toWord?_eq]
  rfl

theorem ofLiteral_ofNat
    {n : Nat} (hn : FitsWord n) :
    (ofLiteral (Decimal.ofNat n) : Value β) = nat n := by
  apply ofLiteral_of_writes _ hn
  rw [Decimal.ofNat, String.toList_ofList]
  exact writes_toDigits n

/-- Zero is the only natural number that is false. -/
theorem truthy_nat
    {n : Nat} (hn : FitsWord n) :
    (nat n : Value β).truthy = decide (n ≠ 0) := by
  have hzero : Int64.ofNat n = 0 ↔ n = 0 := by
    rw [← Int64.toInt_inj, hn.toInt_ofNat]
    exact Int.natCast_eq_zero
  by_cases h : n = 0
  · simp [nat, truthy, h]
  · simp [nat, truthy, h, hzero]

section Operators

variable {a b : Nat}

theorem apply_add_nat
    (ha : FitsWord a) (hb : FitsWord b) :
    (apply .add (nat a) (nat b) : Except Fault (Value β)) = ofResult .add (a + b : Nat) := by
  have hsum : (Int64.ofNat a).toInt + (Int64.ofNat b).toInt = ((a + b : Nat) : Int) := by
    rw [ha.toInt_ofNat, hb.toInt_ofNat, Int.natCast_add]
  rw [← hsum]
  rfl

theorem apply_add_nat_of_fitsWord
    (hsum : FitsWord (a + b)) :
    (apply .add (nat a) (nat b) : Except Fault (Value β)) = .ok (nat (a + b)) := by
  have ha : FitsWord a := hsum.of_le (Nat.le_add_right a b)
  have hb : FitsWord b := hsum.of_le (Nat.le_add_left b a)
  rw [apply_add_nat ha hb, ofResult, hsum.toWord?_eq]
  rfl

theorem apply_add_nat_of_not_fitsWord
    (ha : FitsWord a) (hb : FitsWord b) (hsum : ¬FitsWord (a + b)) :
    (apply .add (nat a) (nat b) : Except Fault (Value β)) = .error (.integerOverflow .add) := by
  rw [apply_add_nat ha hb, ofResult, toWord?_eq_none_of_not_fitsWord hsum]

theorem apply_sub_nat
    (hsum : FitsWord (a + b)) :
    (apply .sub (nat (a + b)) (nat b) : Except Fault (Value β)) = .ok (nat a) := by
  have ha : FitsWord a := hsum.of_le (Nat.le_add_right a b)
  have hb : FitsWord b := hsum.of_le (Nat.le_add_left b a)
  have hrest : (Int64.ofNat (a + b)).toInt - (Int64.ofNat b).toInt = (a : Int) := by
    rw [hsum.toInt_ofNat, hb.toInt_ofNat, Int.natCast_add, Int.add_sub_cancel]
  have hresult : (apply .sub (nat (a + b)) (nat b) : Except Fault (Value β)) =
      ofResult .sub a := by
    rw [← hrest]
    rfl
  rw [hresult, ofResult, ha.toWord?_eq]
  rfl

end Operators

end Value
end Stackline
