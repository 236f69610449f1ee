import Mathlib.Algebra.Order.BigOperators.Group.List
import Mathlib.Data.Nat.Digits.Defs
import Stackline.Proofs.Text.Repetition
import Stackline.Proofs.Text.Words
import Stackline.Value.Arithmetic
import Stackline.Value.Literal

/-!
# How long texts are

The size of a text is the number of its bytes.  Joining and repeating texts adds
sizes up, and a literal loses its quotes at most.

The text of a number is short.  How short does not matter here, so the bounds are
generous: two is taken for ten wherever powers of both meet.  What matters is that
there is a bound at all, for every floating-point number and whatever digits its
expansion gets.
-/

namespace Stackline

/-! ## Texts -/

namespace Text

theorem utf8ByteSize_ofList
    (cs : List Char) :
    (String.ofList cs).utf8ByteSize = (cs.map Char.utf8Size).sum := by
  induction cs with
  | nil => rfl
  | cons c cs ih =>
      have hsplit : String.ofList (c :: cs) = String.singleton c ++ String.ofList cs := by
        rw [String.singleton_eq_ofList, ← String.ofList_append]
        rfl
      rw [hsplit, String.utf8ByteSize_append, String.utf8ByteSize_singleton, ih, List.map_cons,
        List.sum_cons]

theorem utf8ByteSize_eq_sum
    (s : String) :
    s.utf8ByteSize = (s.toList.map Char.utf8Size).sum := by
  rw [← utf8ByteSize_ofList, String.ofList_toList]

theorem utf8ByteSize_ofList_le
    {cs : List Char} {n : Nat} (hlength : cs.length ≤ n) :
    (String.ofList cs).utf8ByteSize ≤ 4 * n := by
  rw [utf8ByteSize_ofList]
  induction cs generalizing n with
  | nil => exact Nat.zero_le _
  | cons c cs ih =>
      rw [List.length_cons] at hlength
      have hfirst : c.utf8Size ≤ 4 := c.utf8Size_le_four
      have hrest := ih (n := n - 1) (by omega)
      rw [List.map_cons, List.sum_cons]
      omega

/-- Every character takes a byte at least. -/
theorem length_le_utf8ByteSize
    (s : String) :
    s.length ≤ s.utf8ByteSize := by
  rw [utf8ByteSize_eq_sum, ← String.length_toList]
  generalize s.toList = cs
  induction cs with
  | nil => exact Nat.le_refl 0
  | cons c cs ih =>
      have hpos : 0 < c.utf8Size := c.utf8Size_pos
      rw [List.length_cons, List.map_cons, List.sum_cons]
      omega

end Text

namespace Value

theorem utf8ByteSize_unquote_le
    (s : String) :
    (unquote s).utf8ByteSize ≤ s.utf8ByteSize := by
  have hsublist := (Text.sublist_trimWhile (· == '"') s.toList).map Char.utf8Size
  rw [unquote, Text.utf8ByteSize_ofList, Text.utf8ByteSize_eq_sum s]
  exact hsublist.sum_le_sum fun _ _ => Nat.zero_le _

end Value

/-! ## Numbers -/

namespace Decimal

theorem utf8ByteSize_ofNat_le
    {n e : Nat} (he : 0 < e) (hn : n < 10 ^ e) :
    (ofNat n).utf8ByteSize ≤ 4 * e :=
  Text.utf8ByteSize_ofList_le (Nat.toDigits_length 10 n e he hn)

theorem utf8ByteSize_ofInt_le
    {n : Int} {e : Nat} (he : 0 < e) (hn : n.natAbs < 10 ^ e) :
    (ofInt n).utf8ByteSize ≤ 4 * e + 1 := by
  cases n with
  | ofNat n =>
      have hsize := utf8ByteSize_ofNat_le he hn
      exact Nat.le_succ_of_le hsize
  | negSucc n =>
      have hsize : (ofNat (n + 1)).utf8ByteSize ≤ 4 * e := utf8ByteSize_ofNat_le he hn
      have hsign : "-".utf8ByteSize = 1 := rfl
      rw [ofInt, String.utf8ByteSize_append, hsign]
      omega

theorem width_le
    {n e : Nat} (he : 0 < e) (hn : n < 10 ^ e) :
    width n ≤ e := by
  unfold width
  split
  next => exact Nat.zero_le e
  next => exact Nat.toDigits_length 10 n e he hn

theorem shiftLeft_lt
    {a e : Nat} (ha : a < 10 ^ e) (k : Nat) :
    a <<< k < 10 ^ (e + k) := by
  have htwo : 2 ^ k ≤ 10 ^ k := Nat.pow_le_pow_left (by omega) k
  rw [Nat.shiftLeft_eq, Nat.pow_add]
  calc
    a * 2 ^ k ≤ a * 10 ^ k := Nat.mul_le_mul_left a htwo
    _ < 10 ^ e * 10 ^ k := Nat.mul_lt_mul_of_pos_right ha (Nat.pow_pos (by omega))

theorem pointOf_bounds
    {num den e : Nat} (he : 0 < e) (hnum : num < 10 ^ e) (hden : den < 10 ^ e) :
    -(e : Int) ≤ pointOf num den ∧ pointOf num den ≤ e := by
  unfold pointOf
  split
  next =>
    have hwidth : width (num / den) ≤ e :=
      width_le he (Nat.lt_of_le_of_lt (Nat.div_le_self num den) hnum)
    omega
  next =>
    have hquotient : (den - 1) / num ≤ den := (Nat.div_le_self _ _).trans (Nat.sub_le den 1)
    have hwidth : width ((den - 1) / num) ≤ e :=
      width_le he (Nat.lt_of_le_of_lt hquotient hden)
    omega

theorem onGrid?_le
    {n : Neighbourhood} {quarter step digits : Nat}
    (hgrid : n.onGrid? quarter step = some digits) :
    digits ≤ n.mid * quarter + 1 := by
  have hbelow : n.mid * quarter / step ≤ n.mid * quarter := Nat.div_le_self _ _
  simp only [Neighbourhood.onGrid?] at hgrid
  split at hgrid
  next =>
    cases hgrid
    omega
  next =>
    split at hgrid
    next =>
      cases hgrid
      omega
    next => cases hgrid

/-- The expansion has no more than `e` digits, and its point stands no further away
than that. -/
structure Expansion.Within (e : Nat) (x : Expansion) : Prop where
  digits : x.digits < 10 ^ e
  point : x.point.natAbs ≤ 2 * e

theorem within_shortestFrom
    {n : Neighbourhood} {exponent point : Int} {d e c : Nat} (hmid : n.mid < 10 ^ d)
    (hpoint : point.natAbs ≤ e) {fuel count : Nat} (hcount : count + fuel ≤ c) :
    (shortestFrom n exponent point fuel count).Within (d + (e + c + (exponent - 2).toNat) + 1) := by
  induction fuel generalizing count with
  | zero =>
      refine ⟨Nat.pow_pos (by omega), ?_⟩
      show point.natAbs ≤ _
      omega
  | succ fuel ih =>
      simp only [shortestFrom]
      split
      next digits hgrid =>
        let k := (exponent - 2).toNat
        let quarter := Nat.pow 10 (-(point - count)).toNat <<< k
        have hquarter : quarter ≤ 10 ^ (e + c + k) := by
          have hplace : (-(point - count)).toNat ≤ e + c := by omega
          have hten : 10 ^ (-(point - count)).toNat ≤ 10 ^ (e + c) :=
            Nat.pow_le_pow_right (by omega) hplace
          have htwo : 2 ^ k ≤ 10 ^ k := Nat.pow_le_pow_left (by omega) k
          have hproduct := Nat.mul_le_mul hten htwo
          rwa [← Nat.pow_add, ← Nat.shiftLeft_eq] at hproduct
        have hproduct : n.mid * quarter < 10 ^ (d + (e + c + k)) := by
          rw [Nat.pow_add]
          calc
            n.mid * quarter ≤ n.mid * 10 ^ (e + c + k) := Nat.mul_le_mul_left n.mid hquarter
            _ < 10 ^ d * 10 ^ (e + c + k) :=
              Nat.mul_lt_mul_of_pos_right hmid (Nat.pow_pos (by omega))
        have hdigits : digits < 10 ^ (d + (e + c + k) + 1) := by
          have hle : digits ≤ n.mid * quarter + 1 := onGrid?_le hgrid
          have hstep : 10 ^ (d + (e + c + k)) < 10 ^ (d + (e + c + k) + 1) :=
            Nat.pow_lt_pow_right (by omega) (Nat.lt_succ_self _)
          omega
        have hwidth : width digits ≤ d + (e + c + k) + 1 := width_le (Nat.succ_pos _) hdigits
        refine ⟨hdigits, ?_⟩
        show (point - count + width digits).natAbs ≤ _
        omega
      next => exact ih (by omega)

end Decimal

/-- A finite number has fifty-three bits of significand and a limited exponent. -/
theorem Binary64.bounds_of_ofFloat
    {x : Float} {negative : Bool} {m : Nat} {e : Int}
    (hx : ofFloat x = .finite negative m e) :
    m < 1 <<< 53 ∧ -1074 ≤ e ∧ e ≤ 971 := by
  simp only [ofFloat] at hx
  have hbiased : (x.toBits.toNat >>> 52) % 2048 < 2048 := Nat.mod_lt _ (by decide)
  have hfraction : x.toBits.toNat % (1 <<< 52) < 1 <<< 52 := Nat.mod_lt _ (by decide)
  have hbits : 1 <<< 53 = (1 <<< 52) + (1 <<< 52) := rfl
  split at hx
  next => split at hx <;> cases hx
  next hfinite =>
    split at hx
    next =>
      cases hx
      omega
    next =>
      cases hx
      omega

namespace Decimal

/-- A number of digits that no floating-point number reaches in front of its point and
no power of two in the denominator of one. -/
def manyDigits : Nat := 1100

theorem within_shortest
    {m : Nat} {e : Int} (hm : m < 1 <<< 53) (hlow : -1074 ≤ e) (hhigh : e ≤ 971) :
    (shortest m e).Within (3 * manyDigits) := by
  have hmany : manyDigits = 1100 := rfl
  have hten : (1 : Nat) < 10 ^ 1 := by decide
  have hsmall : m < 10 ^ 54 := hm.trans (shiftLeft_lt hten 53)
  have hnum : m <<< e.toNat < 10 ^ manyDigits := by
    refine (shiftLeft_lt hsmall e.toNat).trans_le (Nat.pow_le_pow_right (by omega) ?_)
    omega
  have hden : 1 <<< (-e).toNat < 10 ^ manyDigits := by
    refine (shiftLeft_lt hten (-e).toNat).trans_le (Nat.pow_le_pow_right (by omega) ?_)
    omega
  obtain ⟨hpoint, hpoint'⟩ := pointOf_bounds (by omega) hnum hden
  have hmid : (neighbourhood m e).mid < 10 ^ 55 := by
    show 4 * m < 10 ^ 55
    rw [Nat.pow_succ]
    omega
  have hwithin : (shortest m e).Within (55 + (manyDigits + 18 + (e - 2).toNat) + 1) :=
    within_shortestFrom hmid (by omega) (Nat.le_refl 18)
  refine ⟨hwithin.digits.trans_le (Nat.pow_le_pow_right (by omega) ?_), hwithin.point.trans ?_⟩
  · omega
  · omega

theorem length_significantDigits_le
    {digits e : Nat} (he : 0 < e) (hdigits : digits < 10 ^ e) :
    (significantDigits digits).length ≤ e := by
  have hlength := Nat.toDigits_length 10 digits e he hdigits
  have hdrop := (List.dropWhile_sublist (· == '0')
    (l := (Nat.toDigits 10 digits).reverse)).length_le
  rw [List.length_reverse] at hdrop
  rw [significantDigits, List.length_reverse]
  exact hdrop.trans hlength

/-- Without an exponent, the text is as long as the digits and the zeros that the point
asks for. -/
theorem utf8ByteSize_plainText_le
    (whole : String) (ds : List Char) (point : Int) :
    (plainText whole ds point).utf8ByteSize ≤
      8 * (ds.length + point.natAbs) + whole.utf8ByteSize + 2 := by
  unfold plainText
  split
  next =>
    have hzeros : (List.replicate (-point).toNat '0' ++ ds).length ≤
        ds.length + point.natAbs := by
      rw [List.length_append, List.length_replicate]
      omega
    have hsize := Text.utf8ByteSize_ofList_le hzeros
    have hfront : "0.".utf8ByteSize = 2 := rfl
    rw [String.utf8ByteSize_append, hfront]
    omega
  next =>
    split
    next =>
      have hzeros : (ds ++ List.replicate (point.toNat - ds.length) '0').length ≤
          ds.length + point.natAbs := by
        rw [List.length_append, List.length_replicate]
        omega
      have hsize := Text.utf8ByteSize_ofList_le hzeros
      rw [String.utf8ByteSize_append]
      omega
    next =>
      have hfront := Text.utf8ByteSize_ofList_le (List.length_take_le' point.toNat ds)
      have hback := Text.utf8ByteSize_ofList_le (List.drop_sublist point.toNat ds).length_le
      have hpoint : ".".utf8ByteSize = 1 := rfl
      rw [String.utf8ByteSize_append, String.utf8ByteSize_append, hpoint]
      omega

theorem utf8ByteSize_scientificText_le
    (ds : List Char) {point : Int} {e : Nat} (he : 0 < e) (hpoint : (point - 1).natAbs < 10 ^ e) :
    (scientificText ds point).utf8ByteSize ≤ 8 * ds.length + 4 * e + 3 := by
  have hfront := Text.utf8ByteSize_ofList_le (List.length_take_le' 1 ds)
  have hback := Text.utf8ByteSize_ofList_le (List.drop_sublist 1 ds).length_le
  have hexponent := utf8ByteSize_ofInt_le he hpoint
  have hmark : "e".utf8ByteSize = 1 := rfl
  have hdot : ".".utf8ByteSize = 1 := rfl
  simp only [scientificText]
  split
  next =>
    rw [String.utf8ByteSize_append, String.utf8ByteSize_append, String.utf8ByteSize_append, hmark,
      String.utf8ByteSize_empty]
    omega
  next =>
    rw [String.utf8ByteSize_append, String.utf8ByteSize_append, String.utf8ByteSize_append,
      String.utf8ByteSize_append, hmark, hdot]
    omega

end Decimal

namespace Value

variable {β : Type}

theorem utf8ByteSize_sign_le
    (negative : Bool) :
    (if negative then "-" else "").utf8ByteSize ≤ 1 := by
  cases negative <;> decide

theorem utf8ByteSize_floatNotation_le
    (x : Float) :
    (floatNotation.write x).utf8ByteSize ≤ maxStringBytes := by
  unfold Decimal.Notation.write
  cases hx : Binary64.ofFloat x with
  | nan => decide
  | infinite negative => cases negative <;> decide
  | finite negative m e =>
      obtain ⟨hm, hlow, hhigh⟩ := Binary64.bounds_of_ofFloat hx
      have hsign := utf8ByteSize_sign_le negative
      have hwithin := Decimal.within_shortest hm hlow hhigh
      have hlength := Decimal.length_significantDigits_le (by decide) hwithin.digits
      have hpoint := hwithin.point
      have hmany : Decimal.manyDigits = 1100 := rfl
      have hlimit : maxStringBytes = 16777216 := rfl
      dsimp only
      generalize (if negative then "-" else "") = sign at hsign ⊢
      split
      next =>
        rw [String.utf8ByteSize_append, String.utf8ByteSize_append]
        have hzero : "0".utf8ByteSize = 1 := rfl
        have hwhole : floatNotation.whole.utf8ByteSize = 2 := rfl
        omega
      next =>
        rw [String.utf8ByteSize_append]
        split
        next =>
          have hsize := Decimal.utf8ByteSize_plainText_le floatNotation.whole
            (Decimal.significantDigits (Decimal.shortest m e).digits)
            (Decimal.shortest m e).point
          have hwhole : floatNotation.whole.utf8ByteSize = 2 := rfl
          omega
        next =>
          have hexponent : ((Decimal.shortest m e).point - 1).natAbs < 10 ^ 5 := by omega
          have hsize := Decimal.utf8ByteSize_scientificText_le
            (Decimal.significantDigits (Decimal.shortest m e).digits) (by decide) hexponent
          omega

theorem utf8ByteSize_word_le
    (n : Int64) :
    (Decimal.ofInt n.toInt).utf8ByteSize ≤ maxStringBytes := by
  have hlow : -(2 ^ 63 : Int) ≤ n.toInt := n.le_toInt
  have hhigh : n.toInt < 2 ^ 63 := n.toInt_lt
  have hsize := Decimal.utf8ByteSize_ofInt_le (n := n.toInt) (e := 20) (by decide) (by omega)
  have hlimit : maxStringBytes = 16777216 := rfl
  omega

end Value
end Stackline
