import Stackline.Command.Report
import Stackline.Proofs.Program.Assembling

/-!
# Assembling onto standard output and into a file

A program that is assembled is printed or written to a file.  Printing ends each line
with a line feed.  Writing puts line feeds between the lines and one at the end, which
is the same unless there are no lines: of a text without instructions nothing is
printed, and the file gets a line feed, that is, a line without an instruction.
-/

namespace Stackline

/-! ## The two texts -/

namespace Source

theorem fileText_eq_unlines_iff
    {lines : List String} :
    fileText lines = Text.unlines lines ↔ lines ≠ [] := by
  constructor
  · rintro hsame rfl
    exact absurd hsame (by decide)
  · exact fileText_eq_unlines

/-- What is printed of a program are its instructions, each on a line of its own. -/
theorem lines_unlines_map_text
    {program : List Instruction} (hprogram : ∀ i ∈ program, i.Legible) :
    Text.lines (Text.unlines (program.map Instruction.text)) = program.map Instruction.text := by
  apply Text.lines_unlines
  intro l hl
  obtain ⟨i, hi, rfl⟩ := List.mem_map.mp hl
  exact (hprogram i hi).isLine_text

end Source

namespace Command

/-! ## What the command comes to -/

section Responding

variable {t : FileTree} {args lines : List String} {input output : String}

theorem respond_of_assemble
    {path : Option String} (hparse : parse args = some (.assemble input path)) (fuel : Nat) :
    respond (m := StateM FileTree) fuel args = assembleReport input path := by
  rw [respond, hparse]
  rfl

theorem run_respond_of_printing
    (hparse : parse args = some (.assemble input none))
    (hlines : Source.assembled t input = .ok lines) (fuel : Nat) :
    (respond (m := StateM FileTree) fuel args).run t = (.success (Text.unlines lines), t) := by
  rw [respond_of_assemble hparse, assembleReport, FileTree.run_bind, Source.run_assembleText,
    hlines]
  rfl

theorem run_respond_of_writing
    {place : List String} (hparse : parse args = some (.assemble input (some output)))
    (hlines : Source.assembled t input = .ok lines) (htarget : t.target output = .ok place)
    (fuel : Nat) :
    ∃ log t', (respond (m := StateM FileTree) fuel args).run t =
        ({ Report.success "" with log }, t') ∧
      t'.read output = .ok (Source.fileText lines).toUTF8 := by
  have hwrite : t.write output (Source.fileText lines).toUTF8 =
      .ok (t.put place (.file (Source.fileText lines).toUTF8)) :=
    FileTree.write_eq_ok_iff.mpr ⟨place, htarget, rfl⟩
  obtain ⟨-, -, -, -, hread, -⟩ := FileTree.exists_place_of_write hwrite
  obtain ⟨records, hrun⟩ := Source.run_assembleFile_of_written hlines hwrite
  rw [respond_of_assemble hparse, assembleReport, FileTree.run_bind, hrun]
  exact ⟨_, _, rfl, hread⟩

end Responding

/-- A program that can be assembled is printed one line for each instruction, and every
line ends with a line feed.  The file that is written instead gets the same bytes exactly
if the program has an instruction.  Otherwise nothing is printed, and the file gets a line
feed. -/
theorem assembled_outputs_agree_iff
    (fuel : Nat) {args args' : List String} {t : FileTree} {input output text : String}
    {lines place : List String}
    (hprints : parse args = some (.assemble input none))
    (hwrites : parse args' = some (.assemble input (some output)))
    (hread : t.read input = .ok text.toUTF8) (hassemble : Source.assemble text = .ok lines)
    (htarget : t.target output = .ok place) :
    let printing := (respond (m := StateM FileTree) fuel args).run t
    let writing := (respond (m := StateM FileTree) fuel args').run t
    printing.1.exitCode = 0 ∧ printing.2 = t ∧
    writing.1.exitCode = 0 ∧ writing.1.printed = "" ∧
    ∃ program bytes, Source.parse (Source.load text) = .ok program ∧
      printing.1.printed = Text.unlines (program.map Instruction.text) ∧
      Text.lines printing.1.printed = program.map Instruction.text ∧
      writing.2.read output = .ok bytes ∧
      (bytes = printing.1.printed.toUTF8 ↔ program ≠ []) ∧
      (program = [] → printing.1.printed = "" ∧ bytes = "\n".toUTF8) := by
  intro printing writing
  obtain ⟨program, hparse, rfl⟩ := Source.assemble_eq_ok_iff.mp hassemble
  have hlines := Source.assembled_eq_ok_iff.mpr ⟨text, hread, hassemble⟩
  have hprinting : printing = _ := run_respond_of_printing hprints hlines fuel
  obtain ⟨log, t', hwriting, hwritten⟩ := run_respond_of_writing hwrites hlines htarget fuel
  have hwriting : writing = _ := hwriting
  rw [hprinting, hwriting]
  refine ⟨rfl, rfl, rfl, rfl, program, _, hparse, rfl, ?_, hwritten, ?_, ?_⟩
  · exact Source.lines_unlines_map_text (Source.legible_of_read hparse)
  · refine (String.toByteArray_inj.trans Source.fileText_eq_unlines_iff).trans ?_
    rw [ne_eq, List.map_eq_nil_iff]
  · rintro rfl
    exact ⟨rfl, rfl⟩

/-- Beside a program with an untidy text lies one that is a comment only. -/
theorem assembled_outputs_agree_iff_comment :
    let t : FileTree :=
      { entries := [(["a.bc"], .file "  LOAD_CONST   1 \n# c\nHALT".toUTF8),
          (["e.bc"], .file "# nothing\n".toUTF8)] }
    let run (args : List String) := (respond (m := StateM FileTree) 0 args).run t
    Source.assemble "  LOAD_CONST   1 \n# c\nHALT" = .ok ["LOAD_CONST 1", "HALT"] ∧
      (run ["asm", "a.bc", "-o", "out.bc"]).2.read "out.bc" =
        .ok (run ["asm", "a.bc"]).1.printed.toUTF8 ∧
      Source.assemble "# nothing\n" = .ok [] ∧
      (run ["asm", "e.bc"]).1.printed = "" ∧
      (run ["asm", "e.bc", "--output=out.bc"]).2.read "out.bc" = .ok "\n".toUTF8 := by
  intro t run
  have htarget : t.target "out.bc" = .ok ["out.bc"] := rfl
  have hread : t.read "a.bc" = .ok "  LOAD_CONST   1 \n# c\nHALT".toUTF8 := rfl
  have hassemble :
      Source.assemble "  LOAD_CONST   1 \n# c\nHALT" = .ok ["LOAD_CONST 1", "HALT"] := rfl
  have hprints : parse ["asm", "a.bc"] = some (.assemble "a.bc" none) := rfl
  have hwrites : parse ["asm", "a.bc", "-o", "out.bc"] =
      some (.assemble "a.bc" (some "out.bc")) := rfl
  obtain ⟨-, -, -, -, program, bytes, hparse, -, -, hwritten, hagree, -⟩ :=
    assembled_outputs_agree_iff 0 hprints hwrites hread hassemble htarget
  have hne : program ≠ [] := by
    rintro rfl
    cases hparse
  have hread' : t.read "e.bc" = .ok "# nothing\n".toUTF8 := rfl
  have hassemble' : Source.assemble "# nothing\n" = .ok [] := rfl
  have hprints' : parse ["asm", "e.bc"] = some (.assemble "e.bc" none) := rfl
  have hwrites' : parse ["asm", "e.bc", "--output=out.bc"] =
      some (.assemble "e.bc" (some "out.bc")) := rfl
  obtain ⟨-, -, -, -, program', bytes', hparse', -, -, hwritten', -, hempty⟩ :=
    assembled_outputs_agree_iff 0 hprints' hwrites' hread' hassemble' htarget
  obtain ⟨hprinted, hbytes⟩ := hempty (Except.ok.inj hparse').symm
  exact ⟨hassemble, hwritten.trans (congrArg _ (hagree.mpr hne)), hassemble', hprinted,
    hwritten'.trans (congrArg _ hbytes)⟩

end Command
end Stackline
