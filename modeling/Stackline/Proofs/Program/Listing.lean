import Stackline.Program.Listing
import Stackline.Proofs.Decimal.Integer
import Stackline.Proofs.Program.Grammar

/-!
# Listings that are read again

A line of a listing is an index, two spaces and the text of an instruction.  The index is
as wide as it has to be: zeros fill it up to four digits, and an index with more digits
shifts the text to the right.  So the text is not found by counting columns, but behind the
first space, since no digit is one.

No instruction that has been read holds a line feed or ends in a blank.  The lines of a
listing are therefore the ones that were written, and the program is read from them again.
-/

namespace Stackline
namespace Listing

open Text

/-- The characters of a line before its first space. -/
def indexOf (line : String) : List Char :=
  line.toList.takeWhile (· != ' ')

/-- The text of a line behind its first space and one more character. -/
def codeOf (line : String) : String :=
  String.ofList ((line.toList.dropWhile (· != ' ')).drop 2)

/-- The digits of an index, with zeros in front if they are fewer than four. -/
def paddedDigits (index : Nat) : List Char :=
  List.replicate (4 - (Nat.toDigits 10 index).length) '0' ++ Nat.toDigits 10 index

/-! ## One line -/

theorem writes_paddedDigits
    (index : Nat) :
    Decimal.Writes (paddedDigits index) index :=
  (Decimal.writes_toDigits index).zeros _

theorem ne_of_mem_paddedDigits
    {index : Nat} {c d : Char} (hc : c ∈ paddedDigits index) (hd : d.isDigit = false) :
    c ≠ d := by
  rintro rfl
  rw [(writes_paddedDigits index).digits c hc] at hd
  exact absurd hd (by decide)

theorem bne_space_of_mem_paddedDigits
    (index : Nat) :
    ∀ c ∈ paddedDigits index, (c != ' ') = true := by
  intro c hc
  rw [bne_iff_ne]
  exact ne_of_mem_paddedDigits hc (by decide)

namespace Entry

theorem toList_line
    (e : Entry) :
    e.line.toList = paddedDigits e.index ++ ' ' :: ' ' :: e.text.toList := by
  simp [line, padStart, Decimal.ofNat, paddedDigits]

theorem indexOf_line
    (e : Entry) :
    indexOf e.line = paddedDigits e.index := by
  rw [indexOf, toList_line, List.takeWhile_append_of_pos (bne_space_of_mem_paddedDigits _)]
  simp

theorem codeOf_line
    (e : Entry) :
    codeOf e.line = e.text := by
  rw [codeOf, toList_line, List.dropWhile_append_of_pos (bne_space_of_mem_paddedDigits _)]
  simp

theorem line_ne_empty
    (e : Entry) :
    e.line ≠ "" := by
  rw [Ne, ← String.toList_inj, toList_line]
  simp

theorem isLine_line
    {e : Entry} (htrimmed : Trimmed e.text.toList) (hline : IsLine e.text.toList) :
    IsLine e.line.toList := by
  rw [toList_line]
  constructor
  · simp only [List.mem_append, List.mem_cons, not_or]
    refine ⟨?_, by decide, by decide, hline.feed⟩
    intro hfeed
    exact ne_of_mem_paddedDigits hfeed (by decide) rfl
  · -- The text is not empty, so the line ends as the text does.
    obtain ⟨c, hc, -⟩ := htrimmed.last
    have hlast : (paddedDigits e.index ++ ' ' :: ' ' :: e.text.toList).getLast? = some c := by
      simp [List.getLast?_append, List.getLast?_cons, hc]
    rw [hlast, ← hc]
    exact hline.ending

end Entry

/-! ## All lines -/

section Programs

variable {program : List Instruction}

theorem getElem?_entries
    (program : List Instruction) (k : Nat) :
    (entries program)[k]? = program[k]?.map fun i => { index := k, text := i.text } := by
  simp [entries, List.getElem?_zipIdx, Function.comp_def]

theorem map_text_entries
    (program : List Instruction) :
    (entries program).map Entry.text = program.map Instruction.text := by
  apply List.ext_getElem?
  intro k
  rw [List.getElem?_map, List.getElem?_map, getElem?_entries, Option.map_map]
  rfl

theorem lines_render
    (hprogram : ∀ i ∈ program, i.Legible) :
    lines (render program) = (entries program).map Entry.line := by
  apply lines_intercalate
  intro l hl
  obtain ⟨e, he, rfl⟩ := List.mem_map.mp hl
  refine ⟨?_, e.line_ne_empty⟩
  have htext : e.text ∈ program.map Instruction.text := by
    rw [← map_text_entries]
    exact List.mem_map_of_mem he
  obtain ⟨i, hi, hsame⟩ := List.mem_map.mp htext
  apply Entry.isLine_line
  · rw [← hsame]
    exact (hprogram i hi).trimmed_text
  · rw [← hsame]
    exact (hprogram i hi).isLine_text

theorem map_codeOf_lines_render
    (hprogram : ∀ i ∈ program, i.Legible) :
    (lines (render program)).map codeOf = program.map Instruction.text := by
  rw [lines_render hprogram, List.map_map, ← map_text_entries]
  apply List.map_congr_left
  intro e _
  exact e.codeOf_line

theorem parse_lines_render
    (hprogram : ∀ i ∈ program, i.Legible) :
    Source.parse ((lines (render program)).map codeOf) = .ok program := by
  rw [map_codeOf_lines_render hprogram]
  exact Source.read_map_text hprogram 1

theorem getElem?_lines_render
    (hprogram : ∀ i ∈ program, i.Legible) {k : Nat} {i : Instruction} (hi : program[k]? = some i) :
    (lines (render program))[k]? = some (Entry.line { index := k, text := i.text }) := by
  rw [lines_render hprogram, List.getElem?_map, getElem?_entries, hi]
  rfl

end Programs

/-- The listing of a program that has been read has a line for each instruction.  The line
of instruction `k` consists of the digits of `k`, with zeros in front up to four, two spaces
and the text of the instruction, so the digits before its first space write `k`, and the
instruction is read from what follows the two spaces.  All lines together give the program
again, so no other program has this listing. -/
theorem listing_is_indexed_and_read_back
    {source : List String} {program : List Instruction}
    (hparse : Source.parse source = .ok program) :
    (lines (render program)).length = program.length ∧
      (∀ k i, program[k]? = some i → ∃ line, (lines (render program))[k]? = some line ∧
        line.toList = List.replicate (4 - (Nat.toDigits 10 k).length) '0' ++ Nat.toDigits 10 k ++
          [' ', ' '] ++ i.text.toList ∧
        Decimal.Writes (indexOf line) k ∧ Instruction.parse (codeOf line) = .ok i) ∧
      Source.parse ((lines (render program)).map codeOf) = .ok program ∧
      ∀ source' program', Source.parse source' = .ok program' →
        render program' = render program → program' = program := by
  have hprogram : ∀ i ∈ program, i.Legible := Source.legible_of_read hparse
  refine ⟨?_, ?_, parse_lines_render hprogram, ?_⟩
  · simp [lines_render hprogram, entries]
  · intro k i hi
    refine ⟨_, getElem?_lines_render hprogram hi, ?_, ?_, ?_⟩
    · simp [Entry.toList_line, paddedDigits]
    · rw [Entry.indexOf_line]
      exact writes_paddedDigits k
    · rw [Entry.codeOf_line]
      exact (hprogram i (List.mem_of_getElem? hi)).parse_text
  · intro source' program' hparse' hrender
    have hread := parse_lines_render (Source.legible_of_read hparse')
    rw [hrender, parse_lines_render hprogram] at hread
    exact (Except.ok.inj hread).symm

/-- The last of ten thousand and one instructions has an index of five digits. -/
theorem listing_is_indexed_and_read_back_five_digits :
    let source := List.replicate 10000 "HALT" ++ ["JUMP 10000"]
    let program : List Instruction := List.replicate 10000 ⟨.halt, []⟩ ++ [⟨.jump, ["10000"]⟩]
    Source.parse source = .ok program ∧
      (lines (render program))[10000]? = some "10000  JUMP 10000" := by
  intro source program
  have hparse : Source.parse source = .ok program := by
    have hhalt : Instruction.parse "HALT" = .ok ⟨.halt, []⟩ := rfl
    have hjump : Instruction.parse "JUMP 10000" = .ok ⟨.jump, ["10000"]⟩ := rfl
    apply Source.read_zipIdx_eq_ok_iff.mpr
    rw [List.map_append, List.map_append, List.map_replicate, List.map_replicate, hhalt,
      List.map_singleton, List.map_singleton, hjump]
  have hlast : program[10000]? = some ⟨.jump, ["10000"]⟩ := by
    rw [List.getElem?_append_right (Nat.le_of_eq List.length_replicate),
      List.length_replicate]
    rfl
  obtain ⟨-, hlines, -, -⟩ := listing_is_indexed_and_read_back hparse
  obtain ⟨line, hline, hchars, -, -⟩ := hlines 10000 _ hlast
  have htext : line = "10000  JUMP 10000" := String.toList_inj.mp (hchars.trans (by decide))
  exact ⟨hparse, hline.trans (congrArg some htext)⟩

end Listing
end Stackline
