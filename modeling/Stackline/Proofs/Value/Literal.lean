import Stackline.Proofs.Decimal.Numeral
import Stackline.Proofs.Value.Natural

/-!
# What literals stand for

A literal is tried as an integer, then as a floating-point number, and is taken for a string
if it is neither.  Here it is told from how a text is written which of the three it stands for.
Digits are numerals as well, so the order of the attempts matters: digits whose number fits a
word stand for an integer, and those whose number does not for a floating-point number.
-/

namespace Stackline
namespace Value

open Decimal

variable {β : Type}

/-! ## The three kinds of literals -/

/-- What is read as a word is written in digits, and no larger than the largest word. -/
theorem exists_writes_of_word
    {cs : List Char} {w : Int64}
    (hword : ((natural? wordLimit cs).bind fun n => toWord? n) = some w) :
    ∃ n, Writes cs n ∧ FitsWord n := by
  obtain ⟨n, hread, hword⟩ := Option.bind_eq_some_iff.mp hword
  have hn : w.toInt = n := toWord?_eq_some_iff.mp hword
  have hlimit : n < wordLimit := by
    have habs := natAbs_toInt_lt_wordLimit w
    rwa [hn] at habs
  refine ⟨n, (natural?_eq_some_iff hlimit).mp hread, ?_⟩
  rw [FitsWord, ← hn]
  exact w.toInt_le

theorem ofLiteral_of_not_writes
    {s : String} (hs : ¬∃ n, Writes s.toList n ∧ FitsWord n) :
    (ofLiteral s : Value β) =
      match float? s with
      | some x => .float x
      | none => .str (unquote s) := by
  unfold ofLiteral
  split
  next w hword => exact absurd (exists_writes_of_word hword) hs
  next => rfl

theorem ofLiteral_of_isNumeral
    {s : String} (hint : ¬∃ n, Writes s.toList n ∧ FitsWord n) (hs : IsNumeral s.toList) :
    ∃ x, (ofLiteral s : Value β) = .float x := by
  have hread : float? s ≠ none := mt float?_eq_none_iff.mp (not_not_intro hs)
  obtain ⟨x, hx⟩ := Option.ne_none_iff_exists'.mp hread
  exact ⟨x, by rw [ofLiteral_of_not_writes hint, hx]⟩

theorem ofLiteral_of_not_isNumeral
    {s : String} (hs : ¬IsNumeral s.toList) :
    (ofLiteral s : Value β) = .str (unquote s) := by
  have hint : ¬∃ n, Writes s.toList n ∧ FitsWord n := by
    rintro ⟨n, hwrites, -⟩
    exact hs hwrites.isNumeral
  rw [ofLiteral_of_not_writes hint, float?_eq_none_iff.mpr hs]

/-- A literal is of one of three kinds. -/
theorem ofLiteral_cases
    (β : Type) (s : String) :
    (∃ n, Writes s.toList n ∧ FitsWord n ∧ (ofLiteral s : Value β) = nat n) ∨
      ((¬∃ n, Writes s.toList n ∧ FitsWord n) ∧ IsNumeral s.toList ∧
        ∃ x, (ofLiteral s : Value β) = .float x) ∨
      (¬IsNumeral s.toList ∧ (ofLiteral s : Value β) = .str (unquote s)) := by
  by_cases hint : ∃ n, Writes s.toList n ∧ FitsWord n
  · obtain ⟨n, hwrites, hn⟩ := hint
    exact .inl ⟨n, hwrites, hn, ofLiteral_of_writes hwrites hn⟩
  · by_cases hs : IsNumeral s.toList
    · exact .inr (.inl ⟨hint, hs, ofLiteral_of_isNumeral hint hs⟩)
    · exact .inr (.inr ⟨hs, ofLiteral_of_not_isNumeral hs⟩)

section Kinds

variable {s : String}

theorem ofLiteral_eq_int_iff
    {w : Int64} :
    (ofLiteral s : Value β) = .int w ↔
      ∃ n : Nat, Writes s.toList n ∧ FitsWord n ∧ w.toInt = n := by
  constructor
  · intro hw
    rcases ofLiteral_cases β s with ⟨n, hwrites, hn, hnat⟩ | ⟨-, -, x, hfloat⟩ | ⟨-, hstr⟩
    · rw [hnat] at hw
      obtain rfl := Value.int.inj hw
      exact ⟨n, hwrites, hn, hn.toInt_ofNat⟩
    · exact absurd (hfloat.symm.trans hw) nofun
    · exact absurd (hstr.symm.trans hw) nofun
  · rintro ⟨n, hwrites, hn, hw⟩
    have hword : Int64.ofNat n = w := Int64.toInt_inj.mp (hn.toInt_ofNat.trans hw.symm)
    rw [ofLiteral_of_writes hwrites hn, nat, hword]

theorem exists_ofLiteral_eq_float_iff :
    (∃ x, (ofLiteral s : Value β) = .float x) ↔
      IsNumeral s.toList ∧ ¬∃ n, Writes s.toList n ∧ FitsWord n := by
  constructor
  · rintro ⟨x, hx⟩
    rcases ofLiteral_cases β s with ⟨n, -, -, hnat⟩ | ⟨hint, hs, -⟩ | ⟨-, hstr⟩
    · exact absurd (hnat.symm.trans hx) nofun
    · exact ⟨hs, hint⟩
    · exact absurd (hstr.symm.trans hx) nofun
  · rintro ⟨hs, hint⟩
    exact ofLiteral_of_isNumeral hint hs

/-- A string is what is left of a text without the quotes at its ends. -/
theorem ofLiteral_eq_str_iff
    {t : String} :
    (ofLiteral s : Value β) = .str t ↔
      ¬IsNumeral s.toList ∧ Text.Strips (· == '"') s.toList t.toList := by
  have hunquote : unquote s = t ↔ Text.Strips (· == '"') s.toList t.toList := by
    rw [← Text.trimWhile_eq_iff, ← String.toList_inj, unquote, String.toList_ofList]
  rw [← hunquote]
  constructor
  · intro ht
    rcases ofLiteral_cases β s with ⟨n, -, -, hnat⟩ | ⟨-, -, x, hfloat⟩ | ⟨hs, hstr⟩
    · exact absurd (hnat.symm.trans ht) nofun
    · exact absurd (hfloat.symm.trans ht) nofun
    · exact ⟨hs, Value.str.inj (hstr.symm.trans ht)⟩
  · rintro ⟨hs, rfl⟩
    exact ofLiteral_of_not_isNumeral hs

end Kinds

/-- A literal is an integer exactly if it is written in digits and its number fits a word, and
then it is that number, so it is never negative, and every number that fits has a literal.  It
is a string exactly if it is no numeral, and then it is the text without the quotes at its
ends.  All other numerals are floating-point numbers, among them all digits whose number does
not fit a word. -/
theorem literal_is_told_by_its_text (β : Type) :
    (∀ (s : String) (w : Int64), (ofLiteral s : Value β) = .int w ↔
      ∃ n : Nat, Writes s.toList n ∧ (n : Int) ≤ Int64.maxValue.toInt ∧ w.toInt = n) ∧
    (∀ (s : String) (w : Int64), (ofLiteral s : Value β) = .int w → 0 ≤ w.toInt) ∧
    (∀ n : Nat, (n : Int) ≤ Int64.maxValue.toInt → ∃ w : Int64, w.toInt = n ∧
      (ofLiteral (Decimal.ofNat n) : Value β) = .int w) ∧
    (∀ s : String, (∃ t, (ofLiteral s : Value β) = .str t) ↔ ¬IsNumeral s.toList) ∧
    (∀ s t : String, (ofLiteral s : Value β) = .str t →
      Text.Strips (· == '"') s.toList t.toList ∧
        t.toList.head? ≠ some '"' ∧ t.toList.getLast? ≠ some '"') ∧
    (∀ (s : String) (n : Nat), Writes s.toList n → Int64.maxValue.toInt < n →
      ∃ x, (ofLiteral s : Value β) = .float x) ∧
    ∀ s : String, (∃ x, (ofLiteral s : Value β) = .float x) ↔
      IsNumeral s.toList ∧ ¬∃ n : Nat, Writes s.toList n ∧ (n : Int) ≤ Int64.maxValue.toInt := by
  refine ⟨fun s w => ofLiteral_eq_int_iff, ?_, ?_, ?_, ?_, ?_,
    fun s => exists_ofLiteral_eq_float_iff⟩
  · intro s w hw
    obtain ⟨n, -, -, hn⟩ := ofLiteral_eq_int_iff.mp hw
    rw [hn]
    exact Int.natCast_nonneg n
  · intro n hn
    exact ⟨Int64.ofNat n, FitsWord.toInt_ofNat hn, ofLiteral_ofNat hn⟩
  · intro s
    constructor
    · rintro ⟨t, ht⟩
      exact (ofLiteral_eq_str_iff.mp ht).1
    · intro hs
      exact ⟨unquote s, ofLiteral_of_not_isNumeral hs⟩
  · intro s t ht
    have hstrips := (ofLiteral_eq_str_iff.mp ht).2
    refine ⟨hstrips, ?_, ?_⟩
    · intro hquote
      exact absurd (hstrips.first _ hquote) (by decide)
    · intro hquote
      exact absurd (hstrips.last _ hquote) (by decide)
  · intro s n hwrites hn
    apply ofLiteral_of_isNumeral _ hwrites.isNumeral
    rintro ⟨m, hwrites', hm⟩
    have hsame : m = n := hwrites'.value.symm.trans hwrites.value
    rw [FitsWord, hsame] at hm
    omega

/-- The largest word and the number after it, and a text of quotes only. -/
theorem literal_is_told_by_its_text_border :
    ((9223372036854775807 : Nat) : Int) ≤ Int64.maxValue.toInt ∧
      (ofLiteral (Decimal.ofNat 9223372036854775807) : Value Empty) = .int Int64.maxValue ∧
      Writes "0009223372036854775808".toList 9223372036854775808 ∧
      (∃ x, (ofLiteral "0009223372036854775808" : Value Empty) = .float x) ∧
      (ofLiteral "\"\"\"" : Value Empty) = .str "" ∧
      Text.Strips (· == '"') "\"\"\"".toList [] := by
  obtain ⟨-, -, hnumbers, -, hquotes, hlarge, -⟩ := literal_is_told_by_its_text Empty
  have hlargest : ((9223372036854775807 : Nat) : Int) ≤ Int64.maxValue.toInt := by decide
  have hwrites : Writes "0009223372036854775808".toList 9223372036854775808 :=
    ⟨List.cons_ne_nil _ _, List.all_eq_true.mp rfl, rfl⟩
  have hstr : (ofLiteral "\"\"\"" : Value Empty) = .str "" := rfl
  obtain ⟨w, hw, hliteral⟩ := hnumbers 9223372036854775807 hlargest
  have hmax : w = Int64.maxValue := Int64.toInt_inj.mp (hw.trans (by decide))
  rw [hmax] at hliteral
  exact ⟨hlargest, hliteral, hwrites, hlarge _ _ hwrites (by decide), hstr, (hquotes _ _ hstr).1⟩

end Value
end Stackline
