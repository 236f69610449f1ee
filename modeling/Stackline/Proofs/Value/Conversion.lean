import Stackline.Proofs.Decimal.Integer
import Stackline.Value.Standard

/-!
# Integers as strings

A string is an integer if, without the blanks around it, it is written in digits with at most
one sign in front and its value is a word.  Leading zeros do not matter, however many, and the
least word is written although its opposite is none.  What is written for an integer is such a
string, and reading it gives the integer back.
-/

namespace Stackline
namespace Standard

open Decimal

variable {β : Type}

theorem invoke_int
    (v : Value β) :
    (int.invoke [v]).result = toInteger v :=
  rfl

theorem invoke_int_str_eq_ok_iff
    {s : String} {v : Value β} :
    (int.invoke [.str s]).result = .ok v ↔
      ∃ w : Int64, WritesInt (Text.trim s).toList w.toInt ∧ v = .int w := by
  rw [invoke_int, toInteger]
  simp only [← word?_eq_some_iff]
  split
  next w hread =>
    rw [hread, Except.ok.injEq]
    constructor
    · rintro rfl
      exact ⟨w, rfl, rfl⟩
    · rintro ⟨w', hsame, rfl⟩
      rw [Option.some.inj hsame]
  next hread => simp [hread]

/-- The text of an integer has no blanks to lose. -/
theorem trim_ofInt
    (n : Int) :
    Text.trim (Decimal.ofInt n) = Decimal.ofInt n :=
  Text.trim_of_trimmed (writesInt_ofInt n).isWord.trimmed

/-- An integer is read from the string that is written for it.  A string that writes a word, in
digits with at most one sign in front and perhaps with blanks around, is read as that word, and
no other string is read at all. -/
theorem int_reads_signed_digits (β : Type) :
    (∀ n : Int64, ∃ s : String, (str.invoke [(.int n : Value β)]).result = .ok (.str s) ∧
      (int.invoke [(.str s : Value β)]).result = .ok (.int n)) ∧
    ∀ s : String, ∃ core, Text.Strips Text.isBlank s.toList core ∧
      (∀ n, WritesInt core n → Int64.minValue.toInt ≤ n → n ≤ Int64.maxValue.toInt →
        ∃ w : Int64, w.toInt = n ∧ (int.invoke [(.str s : Value β)]).result = .ok (.int w)) ∧
      ∀ v : Value β, (int.invoke [.str s]).result = .ok v →
        ∃ n, WritesInt core n ∧ Int64.minValue.toInt ≤ n ∧ n ≤ Int64.maxValue.toInt := by
  constructor
  · intro n
    refine ⟨Decimal.ofInt n.toInt, rfl, invoke_int_str_eq_ok_iff.mpr ⟨n, ?_, rfl⟩⟩
    rw [trim_ofInt]
    exact writesInt_ofInt n.toInt
  · intro s
    refine ⟨(Text.trim s).toList, Text.trim_eq_iff.mp rfl, ?_, ?_⟩
    · intro n hwrites hmin hmax
      obtain ⟨w, rfl⟩ := exists_toInt_eq ⟨hmin, hmax⟩
      exact ⟨w, rfl, invoke_int_str_eq_ok_iff.mpr ⟨w, hwrites, rfl⟩⟩
    · intro v hok
      obtain ⟨w, hwrites, -⟩ := invoke_int_str_eq_ok_iff.mp hok
      exact ⟨w.toInt, hwrites, w.minValue_le_toInt, w.toInt_le⟩

/-- The least word with a zero in front, between blanks of different widths. -/
theorem int_reads_signed_digits_least :
    Text.Strips Text.isBlank "\u3000-09223372036854775808\n\t".toList
        "-09223372036854775808".toList ∧
      WritesInt "-09223372036854775808".toList (-9223372036854775808) ∧
      (int.invoke [(.str "\u3000-09223372036854775808\n\t" : Value Empty)]).result =
        .ok (.int Int64.minValue) := by
  obtain ⟨core, hstrips, hreads, -⟩ :=
    (int_reads_signed_digits Empty).2 "\u3000-09223372036854775808\n\t"
  have hcore : core = "-09223372036854775808".toList := by
    rw [← hstrips.trimWhile_eq]
    decide
  rw [hcore] at hstrips hreads
  have hdigits : Writes "09223372036854775808".toList 9223372036854775808 := by
    refine ⟨List.cons_ne_nil _ _, List.all_eq_true.mp rfl, ?_⟩
    decide
  obtain ⟨w, hw, hok⟩ := hreads (-9223372036854775808) (.minus hdigits) (by decide) (by decide)
  have hleast : w = Int64.minValue := Int64.toInt_inj.mp (hw.trans (by decide))
  rw [hleast] at hok
  exact ⟨hstrips, .minus hdigits, hok⟩

end Standard
end Stackline
