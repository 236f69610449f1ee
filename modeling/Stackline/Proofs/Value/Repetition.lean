import Stackline.Proofs.Value.Exact
import Stackline.Proofs.Value.Natural
import Stackline.Value.Standard

/-!
# Repetition and length

A string that is repeated `m + n` times is the one repeated `m` times joined with the one
repeated `n` times.  This holds of the operators too, although the two ways check different
lengths: one product against two products and a sum.  All of them are counted in bytes, and
the last one checked is the same number in both ways.

The length of a string is counted in characters.  There are no more of them than bytes, so
what arithmetic builds is short enough for its length to be a word, and lengths are added
and multiplied as the strings are.
-/

namespace Stackline

variable {β : Type}

namespace Value

/-! ## When a string is built -/

theorem add_strs_eq_ok_iff
    {s t : String} {v : Value β} :
    add (.str s) (.str t) = .ok v ↔
      s.utf8ByteSize + t.utf8ByteSize ≤ maxStringBytes ∧ v = .str (s ++ t) := by
  rw [add_strs, ofString_eq_ok_iff]

theorem mul_str_int_eq_ok_iff
    {s : String} {n : Int64} {v : Value β} :
    mul (.str s) (.int n) = .ok v ↔
      s.utf8ByteSize * n.toInt.toNat ≤ maxStringBytes ∧
        v = .str (Text.repeated n.toInt.toNat s) := by
  rw [mul_str_int, ofString_eq_ok_iff]

/-- Repeating by a sum is joining what its parts give, and one succeeds exactly if the
other does. -/
theorem mul_str_sum_eq_ok_iff
    (s : String) {m n k : Int64} (hm : 0 ≤ m.toInt) (hn : 0 ≤ n.toInt)
    (hk : k.toInt = m.toInt + n.toInt) (v : Value β) :
    mul (.str s) (.int k) = .ok v ↔
      ∃ x y, mul (.str s) (.int m) = .ok x ∧ mul (.str s) (.int n) = .ok y ∧
        add x y = .ok v := by
  have hcount : k.toInt.toNat = m.toInt.toNat + n.toInt.toNat := by omega
  have hbytes : s.utf8ByteSize * k.toInt.toNat =
      s.utf8ByteSize * m.toInt.toNat + s.utf8ByteSize * n.toInt.toNat := by
    rw [hcount, Nat.mul_add]
  have hjoin : Text.repeated k.toInt.toNat s =
      Text.repeated m.toInt.toNat s ++ Text.repeated n.toInt.toNat s := by
    rw [hcount, Text.repeated_add]
  simp only [mul_str_int_eq_ok_iff]
  constructor
  · rintro ⟨hshort, rfl⟩
    refine ⟨_, _, ⟨by omega, rfl⟩, ⟨by omega, rfl⟩, ?_⟩
    rw [add_strs_eq_ok_iff, Text.utf8ByteSize_repeated, Text.utf8ByteSize_repeated, ← hbytes,
      hjoin]
    exact ⟨hshort, rfl⟩
  · rintro ⟨x, y, ⟨-, rfl⟩, ⟨-, rfl⟩, hadd⟩
    rw [add_strs_eq_ok_iff, Text.utf8ByteSize_repeated, Text.utf8ByteSize_repeated, ← hbytes,
      ← hjoin] at hadd
    exact hadd

end Value

/-! ## Lengths -/

namespace Standard

open Value

/-- The length function answers with a number and prints nothing. -/
def Measures (v : Value β) (n : Int64) : Prop :=
  len.invoke [v] = { printed := "", result := .ok (.int n) }

theorem measures_str
    (s : String) :
    Measures (.str s : Value β) (Int64.ofNat s.length) :=
  rfl

/-- A string that is no longer than allowed has as many characters as its length says. -/
theorem toInt_ofNat_length
    {s : String} (hs : s.utf8ByteSize ≤ maxStringBytes) :
    (Int64.ofNat s.length).toInt = s.length := by
  apply Decimal.FitsWord.toInt_ofNat
  rw [Decimal.fitsWord_iff]
  have hlength : s.length ≤ s.utf8ByteSize := Text.length_le_utf8ByteSize s
  have hlimit : maxStringBytes = 16777216 := rfl
  omega

theorem exists_measures_of_add
    {s t : String} {v : Value β} (hadd : add (.str s) (.str t) = .ok v) :
    ∃ p q r : Int64, Measures (.str s : Value β) p ∧ Measures (.str t : Value β) q ∧
      Measures v r ∧ r.toInt = p.toInt + q.toInt := by
  obtain ⟨hshort, rfl⟩ := add_strs_eq_ok_iff.mp hadd
  refine ⟨_, _, _, measures_str s, measures_str t, measures_str (s ++ t), ?_⟩
  have hboth : (s ++ t).utf8ByteSize ≤ maxStringBytes := by
    rwa [String.utf8ByteSize_append]
  rw [toInt_ofNat_length hboth, toInt_ofNat_length (by omega), toInt_ofNat_length (by omega),
    String.length_append, Int.natCast_add]

theorem exists_measures_of_mul
    {s : String} {n : Int64} {v : Value β} (hn : 0 ≤ n.toInt)
    (hmul : mul (.str s) (.int n) = .ok v) :
    ∃ p r : Int64, Measures (.str s : Value β) p ∧ Measures v r ∧
      r.toInt = n.toInt * p.toInt := by
  obtain ⟨hshort, rfl⟩ := mul_str_int_eq_ok_iff.mp hmul
  refine ⟨_, _, measures_str s, measures_str (Text.repeated n.toInt.toNat s), ?_⟩
  have hwhole : (Text.repeated n.toInt.toNat s).utf8ByteSize ≤ maxStringBytes := by
    rwa [Text.utf8ByteSize_repeated]
  rw [toInt_ofNat_length hwhole, Text.length_repeated]
  by_cases hzero : n.toInt = 0
  · -- A string that is not repeated at all may be of any length.
    simp [hzero]
  · have hpos : 0 < n.toInt.toNat := by omega
    have hone : s.utf8ByteSize ≤ maxStringBytes :=
      Nat.le_trans (Nat.le_mul_of_pos_right _ hpos) hshort
    rw [toInt_ofNat_length hone, Int.natCast_mul, Int.toNat_of_nonneg hn, Int.mul_comm]

/-- A string is repeated `m + n` times exactly if it can be repeated `m` times and `n`
times and the results can be joined, and these give the same.  The length of two strings
that have been joined is the sum of their lengths, and the length of a string that has been
repeated is as many times its length. -/
theorem repetition_distributes_and_lengths_add (β : Type) :
    (∀ (s : String) (m n k : Int64), 0 ≤ m.toInt → 0 ≤ n.toInt →
      k.toInt = m.toInt + n.toInt → ∀ v : Value β,
        mul (.str s) (.int k) = .ok v ↔
          ∃ x y, mul (.str s) (.int m) = .ok x ∧ mul (.str s) (.int n) = .ok y ∧
            add x y = .ok v) ∧
    (∀ (s t : String) (v : Value β), add (.str s) (.str t) = .ok v →
      ∃ p q r : Int64, Measures (.str s : Value β) p ∧ Measures (.str t : Value β) q ∧
        Measures v r ∧ r.toInt = p.toInt + q.toInt) ∧
    ∀ (s : String) (n : Int64) (v : Value β), 0 ≤ n.toInt →
      mul (.str s) (.int n) = .ok v ∨ mul (.int n) (.str s) = .ok v →
        ∃ p r : Int64, Measures (.str s : Value β) p ∧ Measures v r ∧
          r.toInt = n.toInt * p.toInt := by
  refine ⟨?_, ?_, ?_⟩
  · intro s m n k hm hn hk v
    exact mul_str_sum_eq_ok_iff s hm hn hk v
  · intro s t v hadd
    exact exists_measures_of_add hadd
  · intro s n v hn hmul
    rw [mul_int_str, or_self] at hmul
    exact exists_measures_of_mul hn hmul

/-- A character of two bytes, repeated up to the limit and once more. -/
theorem repetition_distributes_and_lengths_add_at_limit :
    let s : Value Empty := .str "ß"
    0 ≤ (8388608 : Int64).toInt ∧ 0 ≤ (1 : Int64).toInt ∧
      (8388609 : Int64).toInt = (8388608 : Int64).toInt + (1 : Int64).toInt ∧
      (∃ x r, mul s (.int 8388608) = .ok x ∧ Measures x r ∧ r.toInt = 8388608 * 1) ∧
      ∀ x y v, mul s (.int 8388608) = .ok x → mul s (.int 1) = .ok y → add x y ≠ .ok v := by
  intro s
  obtain ⟨hdistributes, -, hlengths⟩ := repetition_distributes_and_lengths_add Empty
  have hm : 0 ≤ (8388608 : Int64).toInt := by decide
  have hn : 0 ≤ (1 : Int64).toInt := by decide
  have hk : (8388609 : Int64).toInt = (8388608 : Int64).toInt + (1 : Int64).toInt := by decide
  refine ⟨hm, hn, hk, ?_, ?_⟩
  · have hmul : mul s (.int 8388608) = .ok (.str (Text.repeated 8388608 "ß")) :=
      mul_str_int_eq_ok_iff.mpr ⟨by decide, rfl⟩
    obtain ⟨p, r, hp, hr, hlength⟩ := hlengths "ß" 8388608 _ hm (.inl hmul)
    refine ⟨_, r, hmul, hr, hlength.trans ?_⟩
    cases hp
    decide
  · intro x y v hx hy hadd
    have hmul := (hdistributes "ß" 8388608 1 8388609 hm hn hk v).mpr ⟨x, y, hx, hy, hadd⟩
    exact absurd (mul_str_int_eq_ok_iff.mp hmul).1 (by decide)

end Standard
end Stackline
