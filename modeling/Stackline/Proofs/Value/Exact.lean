import Stackline.Proofs.Decimal.Integer
import Stackline.Proofs.Value.Size

/-!
# Arithmetic without floating-point numbers

Addition, subtraction and multiplication are exact as long as no operand is a floating-point
number.  Two integers give the integer that they should, or none at all.  Strings are joined
and repeated up to a limit that is compared with the exact number of bytes, however large,
and only the number that is reported stops at the largest word.  On all other kinds the
operators are not defined.
-/

namespace Stackline

variable {β : Type}

namespace Operator

/-- The function on integers that an operator stands for.  Division leaves the integers. -/
def onInts? : Operator → Option (Int → Int → Int)
  | .add => some (· + ·)
  | .sub => some (· - ·)
  | .mul => some (· * ·)
  | .div => none

/-- The kinds of operands on which addition, subtraction and multiplication are defined,
floating-point numbers apart. -/
inductive Takes : Operator → Kind → Kind → Prop where
  | ints (op : Operator) : Takes op .int .int
  | join : Takes .add .str .str
  | repeatLeft : Takes .mul .str .int
  | repeatRight : Takes .mul .int .str

end Operator

namespace Value

/-! ## Integers -/

theorem ofResult_of_toInt
    {n : Int} {w : Int64} (hw : w.toInt = n) (op : Operator) :
    (ofResult op n : Except Fault (Value β)) = .ok (.int w) := by
  rw [ofResult, Decimal.toWord?_eq_some_iff.mpr hw]

theorem ofResult_of_out_of_range
    {n : Int} (hn : ¬(Int64.minValue.toInt ≤ n ∧ n ≤ Int64.maxValue.toInt)) (op : Operator) :
    (ofResult op n : Except Fault (Value β)) = .error (.integerOverflow op) := by
  rw [ofResult, Decimal.toWord?_eq_none_iff.mpr hn]

theorem exists_ofResult_eq
    {n : Int} (hn : Int64.minValue.toInt ≤ n ∧ n ≤ Int64.maxValue.toInt) (op : Operator) :
    ∃ w : Int64, w.toInt = n ∧ (ofResult op n : Except Fault (Value β)) = .ok (.int w) := by
  obtain ⟨w, hw⟩ := Decimal.exists_toInt_eq hn
  exact ⟨w, hw, ofResult_of_toInt hw op⟩

theorem apply_ints
    {op : Operator} {f : Int → Int → Int} (hf : op.onInts? = some f) (m n : Int64) :
    (apply op (.int m) (.int n) : Except Fault (Value β)) = ofResult op (f m.toInt n.toInt) := by
  cases op with
  | add | sub | mul =>
      rw [← Option.some.inj hf]
      rfl
  | div => exact absurd hf (by simp [Operator.onInts?])

/-! ## Strings -/

theorem saturated_of_lt
    {bytes : Nat} (hbytes : bytes < UInt64.size) :
    saturated bytes = bytes :=
  Nat.min_eq_left (Nat.le_sub_one_of_lt hbytes)

/-- The largest word is beyond the limit, so a string is too long by its saturated size
exactly if it is too long. -/
theorem lt_saturated_iff
    {bytes : Nat} :
    maxStringBytes < saturated bytes ↔ maxStringBytes < bytes := by
  have hword : maxStringBytes < UInt64.size - 1 := by decide
  rw [saturated, Nat.lt_min]
  exact and_iff_left hword

theorem ofString_of_le
    {bytes : Nat} (hbytes : bytes ≤ maxStringBytes) (s : Unit → String) :
    (ofString bytes s : Except Fault (Value β)) = .ok (.str (s ())) := by
  rw [ofString, if_neg (mt lt_saturated_iff.mp (Nat.not_lt_of_le hbytes))]

theorem ofString_of_lt
    {bytes : Nat} (hbytes : maxStringBytes < bytes) (s : Unit → String) :
    (ofString bytes s : Except Fault (Value β)) =
      .error (.stringTooLong (saturated bytes) maxStringBytes) := by
  rw [ofString, if_pos (lt_saturated_iff.mpr hbytes)]

theorem ofString_eq_ok_iff
    {bytes : Nat} {s : Unit → String} {v : Value β} :
    ofString bytes s = .ok v ↔ bytes ≤ maxStringBytes ∧ v = .str (s ()) := by
  by_cases hbytes : bytes ≤ maxStringBytes
  · rw [ofString_of_le hbytes, Except.ok.injEq, eq_comm]
    exact (and_iff_right hbytes).symm
  · rw [ofString_of_lt (Nat.lt_of_not_le hbytes)]
    simp [hbytes]

theorem add_strs
    (s t : String) :
    (add (.str s) (.str t) : Except Fault (Value β)) =
      ofString (s.utf8ByteSize + t.utf8ByteSize) fun _ => s ++ t :=
  rfl

theorem mul_str_int
    (s : String) (n : Int64) :
    (mul (.str s) (.int n) : Except Fault (Value β)) =
      ofString (s.utf8ByteSize * n.toInt.toNat) fun _ => Text.repeated n.toInt.toNat s :=
  rfl

theorem mul_int_str
    (n : Int64) (s : String) :
    (mul (.int n) (.str s) : Except Fault (Value β)) = mul (.str s) (.int n) :=
  rfl

/-! ## Operands that do not fit together -/

theorem toFloat?_eq_none_iff
    {a : Value β} :
    a.toFloat? = none ↔ a.kind ≠ .int ∧ a.kind ≠ .float := by
  cases a <;> simp [toFloat?, kind]

theorem arithmetic_of_toFloat?_eq_none
    {a b : Value β} (hnone : a.toFloat? = none ∨ b.toFloat? = none) (op : Operator)
    (onInts : Int → Int → Int) (onFloats : Float → Float → Float) :
    arithmetic op onInts onFloats a b = .error (.unsupported op a.kind b.kind) := by
  have hoperands : operands? a b = none := by
    unfold operands?
    split
    next => exact absurd hnone (by simp [toFloat?])
    next =>
      rcases hnone with ha | hb
      · simp [ha]
      · simp [hb]
  rw [arithmetic, hoperands]
  rfl

theorem add_of_not_strs
    {a b : Value β} (hkinds : ¬(a.kind = .str ∧ b.kind = .str)) :
    add a b = arithmetic .add (· + ·) (· + ·) a b := by
  unfold add
  split
  next => exact absurd ⟨rfl, rfl⟩ hkinds
  next => rfl

theorem mul_of_not_str_int
    {a b : Value β} (hleft : ¬(a.kind = .str ∧ b.kind = .int))
    (hright : ¬(a.kind = .int ∧ b.kind = .str)) :
    mul a b = arithmetic .mul (· * ·) (· * ·) a b := by
  unfold mul
  split
  next => exact absurd ⟨rfl, rfl⟩ hleft
  next => exact absurd ⟨rfl, rfl⟩ hright
  next => rfl

theorem apply_of_not_takes
    {op : Operator} {a b : Value β} (hop : op ≠ .div) (ha : a.kind ≠ .float)
    (hb : b.kind ≠ .float) (htakes : ¬op.Takes a.kind b.kind) :
    apply op a b = .error (.unsupported op a.kind b.kind) := by
  -- Two numbers would be two integers, and these are taken.
  have hnone : a.toFloat? = none ∨ b.toFloat? = none := by
    by_cases hint : a.kind = .int
    · have hint' : b.kind ≠ .int := by
        intro hb'
        rw [hint, hb'] at htakes
        exact htakes (.ints op)
      exact .inr (toFloat?_eq_none_iff.mpr ⟨hint', hb⟩)
    · exact .inl (toFloat?_eq_none_iff.mpr ⟨hint, ha⟩)
  have hother : ∀ left right, op.Takes left right → ¬(a.kind = left ∧ b.kind = right) := by
    rintro left right hkinds ⟨rfl, rfl⟩
    exact htakes hkinds
  cases op with
  | add =>
      rw [apply, add_of_not_strs (hother _ _ .join)]
      exact arithmetic_of_toFloat?_eq_none hnone _ _ _
  | sub => exact arithmetic_of_toFloat?_eq_none hnone _ _ _
  | mul =>
      rw [apply, mul_of_not_str_int (hother _ _ .repeatLeft) (hother _ _ .repeatRight)]
      exact arithmetic_of_toFloat?_eq_none hnone _ _ _
  | div => exact absurd rfl hop

/-- On two integers each operator gives the exact result if it is a word, and else fails
with an overflow.  Two strings are joined if the result has no more than `2 ^ 24` bytes, and
else its length is reported.  A string is repeated by an integer on either side, not at all
if the integer is negative, under the same condition, and here the length reported stops at
the largest unsigned word.  On all other operands the operator fails and names both kinds in
their order. -/
theorem float_free_arithmetic_is_exact (β : Type) :
    (∀ (op : Operator) (f : Int → Int → Int), op.onInts? = some f → ∀ m n : Int64,
      let result := f m.toInt n.toInt
      (Int64.minValue.toInt ≤ result ∧ result ≤ Int64.maxValue.toInt →
        ∃ w : Int64, w.toInt = result ∧ apply op (.int m : Value β) (.int n) = .ok (.int w)) ∧
      (¬(Int64.minValue.toInt ≤ result ∧ result ≤ Int64.maxValue.toInt) →
        apply op (.int m : Value β) (.int n) = .error (.integerOverflow op))) ∧
    (∀ s t : String, s.utf8ByteSize < 2 ^ 63 → t.utf8ByteSize < 2 ^ 63 →
      let bytes := s.utf8ByteSize + t.utf8ByteSize
      (bytes ≤ 2 ^ 24 → add (.str s : Value β) (.str t) = .ok (.str (s ++ t))) ∧
      (2 ^ 24 < bytes →
        add (.str s : Value β) (.str t) = .error (.stringTooLong bytes (2 ^ 24)))) ∧
    (∀ (s : String) (n : Int64),
      let count := (max n.toInt 0).toNat
      let bytes := s.utf8ByteSize * count
      (bytes ≤ 2 ^ 24 →
        mul (.str s : Value β) (.int n) = .ok (.str (String.join (List.replicate count s)))) ∧
      (2 ^ 24 < bytes → mul (.str s : Value β) (.int n) =
        .error (.stringTooLong (min bytes (2 ^ 64 - 1)) (2 ^ 24))) ∧
      mul (.int n : Value β) (.str s) = mul (.str s) (.int n)) ∧
    ∀ (op : Operator) (a b : Value β), op ≠ .div → a.kind ≠ .float → b.kind ≠ .float →
      ¬op.Takes a.kind b.kind → apply op a b = .error (.unsupported op a.kind b.kind) := by
  refine ⟨?_, ?_, ?_, ?_⟩
  · intro op f hf m n result
    rw [apply_ints hf]
    exact ⟨fun hrange => exists_ofResult_eq hrange op,
      fun hrange => ofResult_of_out_of_range hrange op⟩
  · intro s t hs ht bytes
    rw [add_strs]
    refine ⟨fun hshort => ofString_of_le hshort _, ?_⟩
    intro hlong
    -- The sum of two sizes does not reach the largest word.
    have hbytes : bytes < UInt64.size := by
      have hsize : UInt64.size = 2 ^ 64 := rfl
      omega
    rw [ofString_of_lt hlong, saturated_of_lt hbytes]
    rfl
  · intro s n count bytes
    have hcount : n.toInt.toNat = (max n.toInt 0).toNat := by omega
    rw [mul_str_int, hcount, mul_int_str, mul_str_int, hcount, ← Text.repeated_eq_join]
    exact ⟨fun hshort => ofString_of_le hshort _, fun hlong => ofString_of_lt hlong _, rfl⟩
  · intro op a b hop ha hb htakes
    exact apply_of_not_takes hop ha hb htakes

/-- The least word has no opposite, and three bytes are repeated so often that their number
exceeds every word. -/
theorem float_free_arithmetic_is_exact_largest :
    Operator.mul.onInts? = some (· * ·) ∧
      apply .mul (.int Int64.minValue : Value Empty) (.int (-1)) =
        .error (.integerOverflow .mul) ∧
      add (.str "ß" : Value Empty) (.str "x") = .ok (.str "ßx") ∧
      mul (.int Int64.maxValue : Value Empty) (.str "abc") =
        .error (.stringTooLong (2 ^ 64 - 1) (2 ^ 24)) ∧
      apply .sub (.str "a" : Value Empty) (.int 1) = .error (.unsupported .sub .str .int) := by
  obtain ⟨hints, hjoins, hrepeats, hothers⟩ := float_free_arithmetic_is_exact Empty
  refine ⟨rfl, ?_, ?_, ?_, ?_⟩
  · exact (hints .mul (· * ·) rfl Int64.minValue (-1)).2 (by decide)
  · exact (hjoins "ß" "x" (by decide) (by decide)).1 (by decide)
  · obtain ⟨-, hlong, hswap⟩ := hrepeats "abc" Int64.maxValue
    rw [hswap]
    exact hlong (by decide)
  · apply hothers .sub (.str "a") (.int 1) (by decide) (by decide) (by decide)
    intro htakes
    cases htakes

end Value
end Stackline
