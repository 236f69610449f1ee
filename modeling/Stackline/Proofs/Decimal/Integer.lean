import Stackline.Decimal.Integer
import Stackline.Proofs.Text.Words

/-!
# Numbers that digits write

The reader of digits stops counting once it has reached its limit.  Below the limit it
is exact, and no number below the limit comes out for digits that write a larger one.
So the counts that are read from a text are those that its digits write, as long as they
fit a word, and the same holds of the words that are read from digits with a sign.
-/

namespace Stackline
namespace Decimal

/-- The characters are one or more digits, and `n` is the number that they write. -/
structure Writes (cs : List Char) (n : Nat) : Prop where
  ne_nil : cs ≠ []
  digits : ∀ c ∈ cs, c.isDigit = true
  value : Nat.ofDigitChars 10 cs 0 = n

theorem writes_toDigits
    (n : Nat) :
    Writes (Nat.toDigits 10 n) n := by
  refine ⟨Nat.toDigits_ne_nil, ?_, Nat.ofDigitChars_toDigits (by decide) (by decide)⟩
  intro c hc
  exact Nat.isDigit_of_mem_toDigits (by decide) (by decide) hc

/-- Digits are no blanks. -/
theorem isBlank_of_isDigit
    {c : Char} (hdigit : c.isDigit = true) :
    Text.isBlank c = false := by
  rw [Char.isDigit, Bool.and_eq_true, decide_eq_true_eq, decide_eq_true_eq] at hdigit
  have hlow : 48 ≤ c.toNat := hdigit.1
  have hhigh : c.toNat ≤ 57 := hdigit.2
  simp only [Text.isBlank, Bool.or_eq_false_iff, Bool.and_eq_false_iff, decide_eq_false_iff_not,
    beq_eq_false_iff_ne]
  omega

theorem Writes.isWord
    {cs : List Char} {n : Nat} (hcs : Writes cs n) :
    Text.IsWord cs :=
  ⟨hcs.ne_nil, fun c hc => isBlank_of_isDigit (hcs.digits c hc)⟩

theorem not_writes_cons
    {c : Char} (hc : c.isDigit = false) (cs : List Char) (n : Nat) :
    ¬Writes (c :: cs) n := by
  intro hwrites
  have hdigit := hwrites.digits c List.mem_cons_self
  rw [hc] at hdigit
  exact Bool.false_ne_true hdigit

/-- Zeros in front do not count. -/
theorem Writes.zeros
    {cs : List Char} {n : Nat} (hcs : Writes cs n) (count : Nat) :
    Writes (List.replicate count '0' ++ cs) n := by
  induction count with
  | zero => exact hcs
  | succ count ih =>
      rw [List.replicate_succ, List.cons_append]
      refine ⟨List.cons_ne_nil _ _, List.forall_mem_cons.mpr ⟨rfl, ih.digits⟩, ?_⟩
      rw [Nat.ofDigitChars_cons]
      exact ih.value

/-! ## Reading up to a limit -/

theorem le_ofDigitChars
    (cs : List Char) (start : Nat) :
    start ≤ Nat.ofDigitChars 10 cs start := by
  induction cs generalizing start with
  | nil => exact Nat.le_refl start
  | cons c cs ih =>
      rw [Nat.ofDigitChars_cons]
      have hmore := ih (10 * start + (c.toNat - '0'.toNat))
      omega

/-- From whatever number it starts, the reader is exact as long as the number stays below
the limit, and does not come back below it. -/
theorem readDigits_from
    (limit : Nat) (cs : List Char) (start : Nat) :
    let reached :=
      cs.foldl (fun n c => if n < limit then 10 * n + (c.toNat - '0'.toNat) else n) start
    (Nat.ofDigitChars 10 cs start < limit → reached = Nat.ofDigitChars 10 cs start) ∧
      (limit ≤ Nat.ofDigitChars 10 cs start → limit ≤ reached) := by
  induction cs generalizing start with
  | nil => exact ⟨fun _ => rfl, fun hle => hle⟩
  | cons c cs ih =>
      rw [Nat.ofDigitChars_cons, List.foldl_cons]
      by_cases hbelow : start < limit
      · rw [if_pos hbelow]
        exact ih (10 * start + (c.toNat - '0'.toNat))
      · -- The limit has been reached, and the other digits are passed over.
        have hreached := le_ofDigitChars cs start
        have hmore := le_ofDigitChars cs (10 * start + (c.toNat - '0'.toNat))
        rw [if_neg hbelow]
        constructor
        · intro hlt
          omega
        · intro _
          apply (ih start).2
          omega

theorem readDigits_of_lt
    {limit : Nat} {cs : List Char} (hlt : Nat.ofDigitChars 10 cs 0 < limit) :
    readDigits limit cs = Nat.ofDigitChars 10 cs 0 :=
  (readDigits_from limit cs 0).1 hlt

theorem le_readDigits_of_le
    {limit : Nat} {cs : List Char} (hle : limit ≤ Nat.ofDigitChars 10 cs 0) :
    limit ≤ readDigits limit cs :=
  (readDigits_from limit cs 0).2 hle

theorem exists_writes_iff
    {cs : List Char} :
    (∃ n, Writes cs n) ↔ cs ≠ [] ∧ ∀ c ∈ cs, c.isDigit = true :=
  ⟨fun ⟨_, hwrites⟩ => ⟨hwrites.ne_nil, hwrites.digits⟩, fun ⟨hne, hdigits⟩ => ⟨_, hne, hdigits, rfl⟩⟩

theorem natural?_eq_none_iff
    {limit : Nat} {cs : List Char} :
    natural? limit cs = none ↔ ¬∃ n, Writes cs n := by
  rw [exists_writes_iff, natural?]
  simp

/-- Below the limit, what is read is what is written. -/
theorem natural?_eq_some_iff
    {limit n : Nat} (hn : n < limit) {cs : List Char} :
    natural? limit cs = some n ↔ Writes cs n := by
  by_cases hwritten : ∃ m, Writes cs m
  · obtain ⟨hne, hdigits⟩ := exists_writes_iff.mp hwritten
    have hread : natural? limit cs = some (readDigits limit cs) := by
      simp [natural?, hne, List.all_eq_true.mpr hdigits]
    rw [hread, Option.some.injEq]
    constructor
    · intro hsame
      refine ⟨hne, hdigits, ?_⟩
      have hlt : Nat.ofDigitChars 10 cs 0 < limit := by
        apply Nat.lt_of_not_le
        intro hle
        have hreached := le_readDigits_of_le hle
        omega
      rw [← readDigits_of_lt hlt, hsame]
    · intro hwrites
      rw [readDigits_of_lt, hwrites.value]
      rw [hwrites.value]
      exact hn
  · rw [natural?_eq_none_iff.mpr hwritten]
    refine iff_of_false nofun ?_
    intro hwrites
    exact hwritten ⟨n, hwrites⟩

/-! ## Counts -/

/-- The text is a number below `2 ^ 64` in digits, with at most a plus sign in front. -/
def IsCount (s : String) (n : Nat) : Prop :=
  n < UInt64.size ∧ (Writes s.toList n ∨ ∃ digits, s.toList = '+' :: digits ∧ Writes digits n)

theorem filter_natural?_eq_some_iff
    {cs : List Char} {n : Nat} :
    (natural? wordLimit cs).filter (· < wordLimit) = some n ↔
      n < UInt64.size ∧ Writes cs n := by
  rw [Option.filter_eq_some_iff, decide_eq_true_eq, and_comm]
  apply and_congr_right
  intro hn
  exact natural?_eq_some_iff hn

/-- A text is read as the count that it is. -/
theorem count?_eq_some_iff
    {s : String} {n : Nat} :
    count? s = some n ↔ IsCount s n := by
  unfold count? IsCount
  split
  next digits hplus =>
    rw [filter_natural?_eq_some_iff, hplus]
    apply and_congr_right
    intro _
    constructor
    · intro hwrites
      exact .inr ⟨digits, rfl, hwrites⟩
    · rintro (hwrites | ⟨digits', hsame, hwrites⟩)
      · exact absurd hwrites (not_writes_cons rfl digits n)
      · rwa [(List.cons.inj hsame).2]
  next hplain =>
    rw [filter_natural?_eq_some_iff]
    apply and_congr_right
    intro _
    constructor
    · intro hwrites
      exact .inl hwrites
    · rintro (hwrites | ⟨digits, hplus, -⟩)
      · exact hwrites
      · exact absurd hplus (hplain digits)

/-! ## Words -/

/-- An integer has a word exactly if it lies in the range of words. -/
theorem toWord?_eq_none_iff
    {n : Int} :
    toWord? n = none ↔ ¬(Int64.minValue.toInt ≤ n ∧ n ≤ Int64.maxValue.toInt) := by
  simp [toWord?]

/-- The word of an integer stands for it. -/
theorem toWord?_eq_some_iff
    {n : Int} {w : Int64} :
    toWord? n = some w ↔ w.toInt = n := by
  rw [toWord?]
  constructor
  · intro hword
    split at hword
    next hrange =>
      obtain ⟨hmin, hmax⟩ := hrange
      rw [Int64.toInt_minValue] at hmin
      rw [Int64.toInt_maxValue] at hmax
      rw [← Option.some.inj hword]
      exact Int64.toInt_ofInt_of_le hmin (Int.lt_of_le_sub_one hmax)
    next => exact absurd hword (by simp)
  · rintro rfl
    rw [if_pos ⟨w.minValue_le_toInt, w.toInt_le⟩, Int64.ofInt_toInt]

theorem exists_toInt_eq
    {n : Int} (hn : Int64.minValue.toInt ≤ n ∧ n ≤ Int64.maxValue.toInt) :
    ∃ w : Int64, w.toInt = n := by
  have hsome : toWord? n ≠ none := mt toWord?_eq_none_iff.mp (not_not_intro hn)
  obtain ⟨w, hw⟩ := Option.ne_none_iff_exists'.mp hsome
  exact ⟨w, toWord?_eq_some_iff.mp hw⟩

/-! ## Digits with a sign -/

/-- The characters are one or more digits with at most one sign in front, and `n` is the
number that they write. -/
inductive WritesInt : List Char → Int → Prop where
  | plain {digits : List Char} {n : Nat} (hdigits : Writes digits n) : WritesInt digits n
  | plus {digits : List Char} {n : Nat} (hdigits : Writes digits n) : WritesInt ('+' :: digits) n
  | minus {digits : List Char} {n : Nat} (hdigits : Writes digits n) :
      WritesInt ('-' :: digits) (-n)

theorem WritesInt.isWord
    {cs : List Char} {n : Int} (hcs : WritesInt cs n) :
    Text.IsWord cs := by
  have hsigned : ∀ {sign digits m}, Text.isBlank sign = false → Writes digits m →
      Text.IsWord (sign :: digits) := by
    intro sign digits m hsign hdigits
    exact ⟨List.cons_ne_nil _ _, List.forall_mem_cons.mpr ⟨hsign, hdigits.isWord.solid⟩⟩
  match hcs with
  | .plain hdigits => exact hdigits.isWord
  | .plus hdigits => exact hsigned rfl hdigits
  | .minus hdigits => exact hsigned rfl hdigits

/-- The characters start with a sign, or with none. -/
theorem sign_cases
    (cs : List Char) :
    (∃ rest, cs = '-' :: rest) ∨ (∃ rest, cs = '+' :: rest) ∨
      (∀ rest, cs ≠ '-' :: rest) ∧ ∀ rest, cs ≠ '+' :: rest := by
  by_cases hminus : ∃ rest, cs = '-' :: rest
  · exact .inl hminus
  · by_cases hplus : ∃ rest, cs = '+' :: rest
    · exact .inr (.inl hplus)
    · exact .inr (.inr ⟨not_exists.mp hminus, not_exists.mp hplus⟩)

theorem integer?_minus
    (limit : Nat) (digits : List Char) :
    integer? limit ('-' :: digits) = (natural? limit digits).map fun k : Nat => -(k : Int) := by
  rcases hread : natural? limit digits with _ | k
  · simp [integer?, hread]
  · simp [integer?, hread]

theorem integer?_of_no_sign
    {cs : List Char} (hminus : ∀ rest, cs ≠ '-' :: rest) (hplus : ∀ rest, cs ≠ '+' :: rest)
    (limit : Nat) :
    integer? limit cs = (natural? limit cs).map Int.ofNat := by
  unfold integer?
  split
  next rest => exact absurd rfl (hminus rest)
  next rest => exact absurd rfl (hplus rest)
  next => rfl

/-- The sign is told from the digits in the same way, whatever the limit is. -/
theorem exists_digits
    (cs : List Char) :
    ∃ (digits : List Char) (g : Nat → Int), (∀ k, (g k).natAbs = k) ∧
      (∀ limit, integer? limit cs = (natural? limit digits).map g) ∧
      ∀ n, WritesInt cs n ↔ ∃ k, Writes digits k ∧ g k = n := by
  rcases sign_cases cs with ⟨digits, rfl⟩ | ⟨digits, rfl⟩ | ⟨hminus, hplus⟩
  · refine ⟨digits, fun k => -(k : Int), fun k => by simp, fun limit => integer?_minus limit digits,
      fun n => ⟨?_, ?_⟩⟩
    · intro hwrites
      match hwrites with
      | .plain hdigits => exact absurd hdigits (not_writes_cons rfl digits _)
      | .minus hdigits => exact ⟨_, hdigits, rfl⟩
    · rintro ⟨k, hdigits, rfl⟩
      exact .minus hdigits
  · refine ⟨digits, Int.ofNat, fun k => rfl, fun limit => rfl, fun n => ⟨?_, ?_⟩⟩
    · intro hwrites
      match hwrites with
      | .plain hdigits => exact absurd hdigits (not_writes_cons rfl digits _)
      | .plus hdigits => exact ⟨_, hdigits, rfl⟩
    · rintro ⟨k, hdigits, rfl⟩
      exact .plus hdigits
  · refine ⟨cs, Int.ofNat, fun k => rfl, integer?_of_no_sign hminus hplus, fun n => ⟨?_, ?_⟩⟩
    · intro hwrites
      match hwrites with
      | .plain hdigits => exact ⟨_, hdigits, rfl⟩
      | .plus hdigits => exact absurd rfl (hplus _)
      | .minus hdigits => exact absurd rfl (hminus _)
    · rintro ⟨k, hdigits, rfl⟩
      exact .plain hdigits

/-- Below the limit, what is read is what is written. -/
theorem integer?_eq_some_iff
    {limit : Nat} {cs : List Char} {n : Int} (hn : n.natAbs < limit) :
    integer? limit cs = some n ↔ WritesInt cs n := by
  obtain ⟨digits, g, hg, hread, hwrites⟩ := exists_digits cs
  rw [hread, hwrites, Option.map_eq_some_iff]
  apply exists_congr
  intro k
  apply and_congr_left
  rintro rfl
  rw [hg] at hn
  exact natural?_eq_some_iff hn

/-- The limit has no part in which texts are refused. -/
theorem integer?_eq_none_iff
    {limit : Nat} {cs : List Char} :
    integer? limit cs = none ↔ ¬∃ n, WritesInt cs n := by
  obtain ⟨digits, g, -, hread, hwrites⟩ := exists_digits cs
  rw [hread, Option.map_eq_none_iff, natural?_eq_none_iff]
  apply not_congr
  constructor
  · rintro ⟨k, hdigits⟩
    exact ⟨g k, (hwrites _).mpr ⟨k, hdigits, rfl⟩⟩
  · rintro ⟨n, hn⟩
    obtain ⟨k, hdigits, -⟩ := (hwrites n).mp hn
    exact ⟨k, hdigits⟩

theorem natAbs_toInt_lt_wordLimit
    (w : Int64) :
    w.toInt.natAbs < wordLimit := by
  have hmin := w.minValue_le_toInt
  have hmax := w.toInt_le
  rw [Int64.toInt_minValue] at hmin
  rw [Int64.toInt_maxValue] at hmax
  have hsize : wordLimit = 18446744073709551616 := rfl
  omega

/-- A text is read as the word that it writes. -/
theorem word?_eq_some_iff
    {s : String} {w : Int64} :
    word? s = some w ↔ WritesInt s.toList w.toInt := by
  rw [word?, Option.bind_eq_some_iff, ← integer?_eq_some_iff (natAbs_toInt_lt_wordLimit w)]
  constructor
  · rintro ⟨n, hread, hword⟩
    rwa [toWord?_eq_some_iff.mp hword]
  · intro hread
    exact ⟨w.toInt, hread, toWord?_eq_some_iff.mpr rfl⟩

/-- The digits of an integer write it. -/
theorem writesInt_ofInt
    (n : Int) :
    WritesInt (ofInt n).toList n := by
  match n with
  | .ofNat k =>
      rw [ofInt, ofNat, String.toList_ofList]
      exact .plain (writes_toDigits k)
  | .negSucc k =>
      have hsign : (ofInt (.negSucc k)).toList = '-' :: Nat.toDigits 10 (k + 1) := by
        simp [ofInt, ofNat]
      rw [hsign]
      exact .minus (writes_toDigits (k + 1))

end Decimal
end Stackline
