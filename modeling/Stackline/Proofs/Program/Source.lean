import Stackline.Proofs.Attempt
import Stackline.Proofs.Program.Instruction
import Stackline.Session

/-!
# Loading, assembling and loading again

A text can be taken for a program in two ways.  It can be loaded, which drops the
lines without code, and then be read, with the remaining lines numbered anew.  Or it
can be assembled, with every line keeping the number that it has in the text, and be
written in canonical form.

Both accept the same texts and find the same fault, on the same line under its two
numbers.  What assembling writes is the program that loading finds: it is loaded
unchanged, read as the same instructions, and assembled into itself.
-/

namespace Stackline
namespace Source

/-! ## Numbered lines -/

theorem readLine_eq_ok_iff
    {text : String} {number : Nat} {i : Instruction} :
    readLine text number = .ok i ↔ Instruction.parse text = .ok i :=
  mapError_eq_ok_iff

theorem readLine_eq_error_iff
    {text : String} {number : Nat} {fault : SourceFault} :
    readLine text number = .error fault ↔
      fault.line = number ∧ Instruction.parse text = .error fault.problem := by
  rw [readLine, mapError_eq_error_iff]
  constructor
  · rintro ⟨problem, hparse, rfl⟩
    exact ⟨rfl, hparse⟩
  · rintro ⟨rfl, hparse⟩
    exact ⟨fault.problem, hparse, rfl⟩

section Reading

variable {text : String} {line : Nat} {rest : List (String × Nat)} {i : Instruction}

theorem read_cons_of_error
    {problem : Instruction.Problem} (hparse : Instruction.parse text = .error problem) :
    read ((text, line) :: rest) = .error ⟨line, problem⟩ := by
  have hline : readLine text line = .error ⟨line, problem⟩ :=
    readLine_eq_error_iff.mpr ⟨rfl, hparse⟩
  rw [read, hline]
  rfl

theorem read_cons_of_ok
    {is : List Instruction} (hparse : Instruction.parse text = .ok i)
    (hrest : read rest = .ok is) :
    read ((text, line) :: rest) = .ok (i :: is) := by
  rw [read, readLine_eq_ok_iff.mpr hparse, hrest]
  rfl

theorem read_cons_of_rest_error
    {fault : SourceFault} (hparse : Instruction.parse text = .ok i)
    (hrest : read rest = .error fault) :
    read ((text, line) :: rest) = .error fault := by
  rw [read, readLine_eq_ok_iff.mpr hparse, hrest]
  rfl

end Reading

theorem legible_of_read
    {numbered : List (String × Nat)} {program : List Instruction}
    (hread : read numbered = .ok program) :
    ∀ i ∈ program, i.Legible := by
  induction numbered generalizing program with
  | nil =>
      cases hread
      exact List.forall_mem_nil _
  | cons line rest ih =>
      simp only [read, bind_eq_ok_iff, pure_eq_ok_iff, readLine_eq_ok_iff] at hread
      obtain ⟨i, hi, is, his, rfl⟩ := hread
      exact List.forall_mem_cons.mpr ⟨Instruction.legible_of_parse hi, ih his⟩

/-- Every instruction of a program that has been read has all its operands. -/
theorem complete_of_parse
    {lines : List String} {program : List Instruction} (hparse : parse lines = .ok program) :
    ∀ i ∈ program, i.Complete := by
  intro i hi
  exact (legible_of_read hparse i hi).complete

/-- A program that is written line by line is read again, however the lines are
numbered. -/
theorem read_map_text
    {program : List Instruction} (hprogram : ∀ i ∈ program, i.Legible) (first : Nat) :
    read ((program.map Instruction.text).zipIdx first) = .ok program := by
  induction program generalizing first with
  | nil => rfl
  | cons i program ih =>
      obtain ⟨hi, hrest⟩ := List.forall_mem_cons.mp hprogram
      rw [List.map_cons, List.zipIdx_cons]
      exact read_cons_of_ok hi.parse_text (ih hrest (first + 1))

/-! ## Two numberings of the code lines -/

/-- Line `n` of `ls`, counted from zero, is a code line, and `k` code lines stand
before it. -/
structure CodeLineAt (ls : List String) (k n : Nat) (line : String) : Prop where
  code : isCode line = true
  stands : ls[n]? = some line
  earlier : (ls.take n).countP isCode = k

section Numberings

variable {l line : String} {ls : List String} {k n : Nat}

theorem CodeLineAt.cons_of_code
    (hline : CodeLineAt ls k n line) (hl : isCode l = true) :
    CodeLineAt (l :: ls) (k + 1) (n + 1) line := by
  refine ⟨hline.code, hline.stands, ?_⟩
  rw [List.take_succ_cons, List.countP_cons_of_pos hl, hline.earlier]

theorem CodeLineAt.cons_of_not_code
    (hline : CodeLineAt ls k n line) (hl : ¬isCode l = true) :
    CodeLineAt (l :: ls) k (n + 1) line := by
  refine ⟨hline.code, hline.stands, ?_⟩
  rw [List.take_succ_cons, List.countP_cons_of_neg hl, hline.earlier]

theorem filter_zipIdx_cons_of_code
    (hl : isCode l = true) (a : Nat) :
    ((l :: ls).zipIdx a).filter (fun l => isCode l.1) =
      (l, a) :: (ls.zipIdx (a + 1)).filter fun l => isCode l.1 := by
  rw [List.zipIdx_cons]
  exact List.filter_cons_of_pos hl

theorem filter_zipIdx_cons_of_not_code
    (hl : ¬isCode l = true) (a : Nat) :
    ((l :: ls).zipIdx a).filter (fun l => isCode l.1) =
      (ls.zipIdx (a + 1)).filter fun l => isCode l.1 := by
  rw [List.zipIdx_cons]
  exact List.filter_cons_of_neg hl

/-- Whether the lines are numbered before those without code are dropped or after
it, the same program is read, or the same line is refused under its two numbers. -/
theorem read_numbered_cases
    (ls : List String) (a b : Nat) :
    (∃ program,
        read ((ls.zipIdx a).filter fun l => isCode l.1) = .ok program ∧
        read ((ls.filter isCode).zipIdx b) = .ok program) ∨
      ∃ k n line problem,
        CodeLineAt ls k n line ∧ Instruction.parse line = .error problem ∧
        read ((ls.zipIdx a).filter fun l => isCode l.1) = .error ⟨n + a, problem⟩ ∧
        read ((ls.filter isCode).zipIdx b) = .error ⟨k + b, problem⟩ := by
  induction ls generalizing a b with
  | nil => exact .inl ⟨[], rfl, rfl⟩
  | cons l ls ih =>
      by_cases hcode : isCode l = true
      · rw [filter_zipIdx_cons_of_code hcode, List.filter_cons_of_pos hcode, List.zipIdx_cons]
        cases hparse : Instruction.parse l with
        | error problem =>
            refine .inr ⟨0, 0, l, problem, ⟨hcode, rfl, rfl⟩, hparse, ?_, ?_⟩
            · rw [Nat.zero_add]
              exact read_cons_of_error hparse
            · rw [Nat.zero_add]
              exact read_cons_of_error hparse
        | ok i =>
            rcases ih (a + 1) (b + 1) with
              ⟨program, ha, hb⟩ | ⟨k, n, line, problem, hline, hfault, ha, hb⟩
            · exact .inl ⟨i :: program, read_cons_of_ok hparse ha, read_cons_of_ok hparse hb⟩
            · refine .inr ⟨k + 1, n + 1, line, problem, hline.cons_of_code hcode, hfault, ?_, ?_⟩
              · rw [read_cons_of_rest_error hparse ha, Nat.add_right_comm, Nat.add_assoc]
              · rw [read_cons_of_rest_error hparse hb, Nat.add_right_comm, Nat.add_assoc]
      · rw [filter_zipIdx_cons_of_not_code hcode, List.filter_cons_of_neg hcode]
        rcases ih (a + 1) b with
          ⟨program, ha, hb⟩ | ⟨k, n, line, problem, hline, hfault, ha, hb⟩
        · exact .inl ⟨program, ha, hb⟩
        · refine .inr ⟨k, n + 1, line, problem, hline.cons_of_not_code hcode, hfault, ?_, hb⟩
          rw [ha, Nat.add_right_comm, Nat.add_assoc]

end Numberings

/-! ## Loading and assembling a text -/

theorem parse_assemble_cases
    (text : String) :
    (∃ program,
        parse (load text) = .ok program ∧
        assemble text = .ok (program.map Instruction.text)) ∨
      ∃ k n line problem,
        CodeLineAt (trimmedLines text) k n line ∧ Instruction.parse line = .error problem ∧
        parse (load text) = .error ⟨k + 1, problem⟩ ∧
        assemble text = .error ⟨n + 1, problem⟩ := by
  rcases read_numbered_cases (trimmedLines text) 1 1 with
    ⟨program, hassemble, hparse⟩ | ⟨k, n, line, problem, hline, hfault, hassemble, hparse⟩
  · refine .inl ⟨program, hparse, ?_⟩
    simp only [assemble, hassemble]
    rfl
  · refine .inr ⟨k, n, line, problem, hline, hfault, hparse, ?_⟩
    simp only [assemble, hassemble]
    rfl

/-- Assembling accepts what can be loaded and read, and writes what is read. -/
theorem assemble_eq_ok_iff
    {text : String} {lines : List String} :
    assemble text = .ok lines ↔
      ∃ program, parse (load text) = .ok program ∧ lines = program.map Instruction.text := by
  rcases parse_assemble_cases text with
    ⟨program, hparse, hassemble⟩ | ⟨k, n, line, problem, -, -, hparse, hassemble⟩
  · rw [hparse, hassemble]
    constructor
    · intro hlines
      cases hlines
      exact ⟨program, rfl, rfl⟩
    · rintro ⟨program', hprogram, rfl⟩
      cases hprogram
      rfl
  · rw [hparse, hassemble]
    simp

theorem ne_empty_of_isCode
    {line : String} (hline : isCode line = true) :
    line ≠ "" := by
  rintro rfl
  cases hline

/-- A code line of a text is refused for its words, and it has some. -/
theorem CodeLineAt.ne_empty_of_parse_error
    {text line : String} {k n : Nat} (hline : CodeLineAt (trimmedLines text) k n line)
    {problem : Instruction.Problem} (hparse : Instruction.parse line = .error problem) :
    problem ≠ .empty := by
  obtain ⟨whole, -, rfl⟩ := List.mem_map.mp (List.mem_of_getElem? hline.stands)
  have htrimmed := Text.trimmed_trim (ne_empty_of_isCode hline.code)
  exact Instruction.ne_empty_of_parse_error htrimmed hparse

/-- Assembling accepts the texts that can be loaded and read, and writes what is
read from them.  Any other text is refused by both for the same problem of the same
line, which assembling numbers among all lines and reading among the code lines.  An
empty instruction is never the problem. -/
theorem assemble_agrees_with_parse
    (text : String) :
    (∀ lines, assemble text = .ok lines ↔
      ∃ program, parse (load text) = .ok program ∧ lines = program.map Instruction.text) ∧
    (∀ number problem, parse (load text) = .error ⟨number, problem⟩ →
      ∃ k n line, number = k + 1 ∧ CodeLineAt (trimmedLines text) k n line ∧
        Instruction.parse line = .error problem ∧ assemble text = .error ⟨n + 1, problem⟩) ∧
    (∀ number problem, assemble text = .error ⟨number, problem⟩ →
      ∃ k n line, number = n + 1 ∧ CodeLineAt (trimmedLines text) k n line ∧
        Instruction.parse line = .error problem ∧
        parse (load text) = .error ⟨k + 1, problem⟩) ∧
    ∀ fault, parse (load text) = .error fault ∨ assemble text = .error fault →
      fault.problem ≠ .empty := by
  refine ⟨fun lines => assemble_eq_ok_iff, ?_⟩
  rcases parse_assemble_cases text with
    ⟨program, hparse, hassemble⟩ | ⟨k, n, line, problem, hline, hfault, hparse, hassemble⟩
  · rw [hparse, hassemble]
    simp
  · rw [hparse, hassemble]
    refine ⟨?_, ?_, ?_⟩
    · intro number problem' hsame
      cases hsame
      exact ⟨k, n, line, rfl, hline, hfault, rfl⟩
    · intro number problem' hsame
      cases hsame
      exact ⟨k, n, line, rfl, hline, hfault, rfl⟩
    · have hproblem := hline.ne_empty_of_parse_error hfault
      rintro fault (hsame | hsame)
      · cases hsame
        exact hproblem
      · cases hsame
        exact hproblem

/-! ## Loading what has been assembled -/

/-- The line is found as it stands when it is loaded from a file. -/
structure Canonical (line : String) : Prop where
  code : isCode line = true
  trimmed : Text.Trimmed line.toList
  isLine : Text.IsLine line.toList

/-- No operation has a name that could be taken for a comment. -/
theorem isCode_text
    (i : Instruction) :
    isCode i.text = true := by
  obtain ⟨rest, htext⟩ := i.exists_toList_text
  rw [isCode, htext]
  cases i.opcode <;> rfl

theorem canonical_text
    {i : Instruction} (hi : i.Legible) :
    Canonical i.text :=
  ⟨isCode_text i, hi.trimmed_text, hi.isLine_text⟩

theorem fileText_eq_unlines
    {ls : List String} (hls : ls ≠ []) :
    fileText ls = Text.unlines ls := by
  induction ls with
  | nil => exact absurd rfl hls
  | cons l ls ih =>
      cases ls with
      | nil => simp [fileText, Text.unlines]
      | cons l' ls =>
          calc
            fileText (l :: l' :: ls) = l ++ "\n" ++ fileText (l' :: ls) := by
              rw [fileText, String.intercalate_cons_cons, String.append_assoc]
              rfl
            _ = l ++ "\n" ++ Text.unlines (l' :: ls) := by
              rw [ih (List.cons_ne_nil l' ls)]
            _ = Text.unlines (l :: l' :: ls) := by
              simp [Text.unlines]

theorem load_fileText
    {ls : List String} (hls : ∀ l ∈ ls, Canonical l) :
    load (fileText ls) = ls := by
  by_cases hnil : ls = []
  · -- Without lines the file is one empty line, which holds no code.
    rw [hnil]
    rfl
  · have hlines : Text.lines (fileText ls) = ls := by
      rw [fileText_eq_unlines hnil]
      exact Text.lines_unlines fun l hl => (hls l hl).isLine
    have htrim : ls.map Text.trim = ls := by
      have htrim_id : ∀ l ∈ ls, Text.trim l = id l := by
        intro l hl
        exact Text.trim_of_trimmed (hls l hl).trimmed
      rw [List.map_congr_left htrim_id, List.map_id]
    rw [load, trimmedLines, hlines, htrim, List.filter_eq_self]
    intro l hl
    exact (hls l hl).code

/-- The canonical text of a program is loaded and read as that program. -/
theorem load_fileText_map_text
    {program : List Instruction} (hprogram : ∀ i ∈ program, i.Legible) :
    load (fileText (program.map Instruction.text)) = program.map Instruction.text ∧
      parse (program.map Instruction.text) = .ok program := by
  refine ⟨load_fileText ?_, read_map_text hprogram 1⟩
  intro l hl
  obtain ⟨i, hi, rfl⟩ := List.mem_map.mp hl
  exact canonical_text (hprogram i hi)

/-- A session sees nothing of a text but the program that is read from it. -/
theorem runText_eq_of_parse_eq
    {β : Type} [Host β] {text text' : String}
    (hparse : parse (load text') = parse (load text)) (fuel : Nat) (s : Session β) :
    s.runText fuel text' = s.runText fuel text := by
  simp only [Session.runText, Session.runLines, hparse]

/-- The file that assembling writes holds the program of the assembled text.  It is
loaded line for line and read as the same instructions, assembling it changes
nothing, and running it is running the text. -/
theorem assembled_text_is_same_program
    {β : Type} [Host β] {text : String} {lines : List String}
    (hassemble : assemble text = .ok lines) :
    load (fileText lines) = lines ∧
      parse (load (fileText lines)) = parse (load text) ∧
      assemble (fileText lines) = .ok lines ∧
      ∀ (fuel : Nat) (s : Session β), s.runText fuel (fileText lines) = s.runText fuel text := by
  obtain ⟨program, hparse, rfl⟩ := assemble_eq_ok_iff.mp hassemble
  obtain ⟨hload, hreparse⟩ := load_fileText_map_text (legible_of_read hparse)
  have hsame : parse (load (fileText (program.map Instruction.text))) = parse (load text) := by
    rw [hload, hreparse, hparse]
  refine ⟨hload, hsame, ?_, runText_eq_of_parse_eq hsame⟩
  exact assemble_eq_ok_iff.mpr ⟨program, hsame.trans hparse, rfl⟩

/-- Comments, an indented line with a run of blanks, both line endings and an open
last line. -/
theorem assembled_text_is_same_program_untidy :
    let lines := ["LOAD_CONST 2", "STORE_VAR #x", "HALT"]
    assemble "\r\n# two\r\n\tLOAD_CONST \t 2 \r\nSTORE_VAR #x\n #\nHALT\r" = .ok lines ∧
      load (fileText lines) = lines ∧
      ∀ s : Session Standard, s.runText 3 (fileText lines) =
        s.runText 3 "\r\n# two\r\n\tLOAD_CONST \t 2 \r\nSTORE_VAR #x\n #\nHALT\r" := by
  intro lines
  have hassemble :
      assemble "\r\n# two\r\n\tLOAD_CONST \t 2 \r\nSTORE_VAR #x\n #\nHALT\r" = .ok lines := rfl
  obtain ⟨hload, -, -, hrun⟩ := assembled_text_is_same_program (β := Standard) hassemble
  exact ⟨hassemble, hload, hrun 3⟩

end Source
end Stackline
