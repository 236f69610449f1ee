import Stackline.Proofs.Files.Tree
import Stackline.Proofs.Program.Source

/-!
# Assembling files

Assembling a file reads it, assembles its text and writes the lines to another file or to the
same one.  Whatever is wrong with the input is found before anything is written.  Once it has
been written, the output is a program file in canonical form: it is loaded line for line, and
to assemble it onto itself is to write what it holds already.
-/

namespace Stackline

/-- The bytes of a text are decoded to that text, and other bytes are not decoded at all. -/
theorem decodeText_eq_ok_iff
    {bytes : ByteArray} {text : String} :
    decodeText bytes = .ok text ↔ bytes = text.toUTF8 := by
  constructor
  · intro hdecode
    by_cases hvalid : bytes.IsValidUTF8
    · have hread : decodeText bytes = .ok (String.fromUTF8 bytes hvalid) := by
        rw [decodeText, String.fromUTF8?, dif_pos hvalid]
      rw [← Except.ok.inj (hread.symm.trans hdecode)]
      rfl
    · rw [decodeText, String.fromUTF8?, dif_neg hvalid] at hdecode
      exact absurd hdecode nofun
  · rintro rfl
    have hvalid : text.toUTF8.IsValidUTF8 := text.isValidUTF8
    rw [decodeText, String.fromUTF8?, dif_pos hvalid]
    rfl

namespace Source

/-! ## Texts in canonical form -/

/-- What has been assembled is loaded as it is, and assembling it changes nothing. -/
theorem assemble_fileText
    {text : String} {lines : List String} (hassemble : assemble text = .ok lines) :
    load (fileText lines) = lines ∧ assemble (fileText lines) = .ok lines := by
  obtain ⟨program, hparse, rfl⟩ := assemble_eq_ok_iff.mp hassemble
  obtain ⟨hload, hreparse⟩ := load_fileText_map_text (legible_of_read hparse)
  refine ⟨hload, assemble_eq_ok_iff.mpr ⟨program, ?_, rfl⟩⟩
  rw [hload, hreparse]

/-! ## Running on a tree of files -/

/-- The text of a program file in the tree. -/
def sourceText (t : FileTree) (path : String) : Except SourceError String :=
  (t.read path >>= decodeText).mapError (.unreadable path)

/-- What a program file in the tree is assembled into. -/
def assembled (t : FileTree) (path : String) : Except SourceError (List String) :=
  sourceText t path >>= fun text => (assemble text).mapError .faulty

section Running

variable {t t' : FileTree} {input output path text : String} {lines : List String}

theorem sourceText_eq_ok_iff :
    sourceText t path = .ok text ↔ t.read path = .ok text.toUTF8 := by
  rw [sourceText, mapError_eq_ok_iff, bind_eq_ok_iff]
  simp only [decodeText_eq_ok_iff]
  constructor
  · rintro ⟨bytes, hread, rfl⟩
    exact hread
  · intro hread
    exact ⟨_, hread, rfl⟩

theorem assembled_eq_ok_iff :
    assembled t path = .ok lines ↔
      ∃ text, t.read path = .ok text.toUTF8 ∧ assemble text = .ok lines := by
  rw [assembled, bind_eq_ok_iff]
  simp only [sourceText_eq_ok_iff, mapError_eq_ok_iff]

theorem run_readSource
    (path : String) (t : FileTree) :
    (readSource (m := StateM FileTree) path).run t = (sourceText t path, t) := by
  rw [readSource, FileTree.run_bind, FileTree.run_readText]
  rfl

theorem run_loadFile
    (path : String) (t : FileTree) :
    (loadFile (m := StateM FileTree) path).run t = ((sourceText t path).map load, t) := by
  rw [loadFile, FileTree.run_bind, run_readSource]
  rfl

theorem run_assembleText
    (path : String) (t : FileTree) :
    (assembleText (m := StateM FileTree) path).run t = (assembled t path, t) := by
  rw [assembleText, FileTree.run_bind, run_readSource, assembled]
  rcases sourceText t path with e | text
  · rfl
  · rfl

/-- A file that cannot be assembled is not written. -/
theorem run_assembleFile_of_error
    {e : SourceError} (he : assembled t input = .error e) (output : String) :
    (assembleFile (m := StateM FileTree) input output).run t = ((.error (.source e), []), t) := by
  rw [assembleFile, FileTree.run_bind, run_assembleText, he]
  rfl

theorem run_assembleFile_of_unwritable
    {fault : FileFault} (hlines : assembled t input = .ok lines)
    (hwrite : t.write output (fileText lines).toUTF8 = .error fault) :
    (assembleFile (m := StateM FileTree) input output).run t =
      ((.error (.unwritable output fault), []), t) := by
  rw [assembleFile, FileTree.run_bind, run_assembleText, hlines]
  change (_ >>= _ : StateM FileTree _).run t = _
  rw [FileTree.run_bind, FileTree.run_writeFile, hwrite]
  rfl

theorem run_assembleFile_of_written
    (hlines : assembled t input = .ok lines)
    (hwrite : t.write output (fileText lines).toUTF8 = .ok t') :
    ∃ records, (assembleFile (m := StateM FileTree) input output).run t =
      ((.ok lines.length, records), t') := by
  rw [assembleFile, FileTree.run_bind, run_assembleText, hlines]
  change ∃ records, (_ >>= _ : StateM FileTree _).run t = _
  rw [FileTree.run_bind, FileTree.run_writeFile, hwrite]
  exact ⟨_, rfl⟩

/-- The three ways in which assembling a file can end. -/
theorem run_assembleFile_cases
    (t : FileTree) (input output : String) :
    (∃ e, (assembleFile (m := StateM FileTree) input output).run t =
        ((.error (.source e), []), t)) ∨
      (∃ fault, (assembleFile (m := StateM FileTree) input output).run t =
        ((.error (.unwritable output fault), []), t)) ∨
      ∃ lines t' records, assembled t input = .ok lines ∧
        t.write output (fileText lines).toUTF8 = .ok t' ∧
        (assembleFile (m := StateM FileTree) input output).run t =
          ((.ok lines.length, records), t') := by
  rcases hlines : assembled t input with e | lines
  · exact .inl ⟨e, run_assembleFile_of_error hlines output⟩
  · rcases hwrite : t.write output (fileText lines).toUTF8 with fault | t'
    · exact .inr (.inl ⟨fault, run_assembleFile_of_unwritable hlines hwrite⟩)
    · obtain ⟨records, hrun⟩ := run_assembleFile_of_written hlines hwrite
      exact .inr (.inr ⟨lines, t', records, rfl, hwrite, hrun⟩)

/-- When assembling fails, whether at the input or at the output, no file is touched. -/
theorem tree_of_run_assembleFile_eq_error
    {e : AssembleError}
    (he : ((assembleFile (m := StateM FileTree) input output).run t).1.1 = .error e) :
    ((assembleFile (m := StateM FileTree) input output).run t).2 = t := by
  rcases run_assembleFile_cases t input output with
    ⟨e', hrun⟩ | ⟨fault, hrun⟩ | ⟨lines, t', records, -, -, hrun⟩
  · rw [hrun]
  · rw [hrun]
  · rw [hrun] at he
    exact absurd he nofun

theorem exists_lines_of_run_assembleFile_eq_ok
    {n : Nat}
    (hn : ((assembleFile (m := StateM FileTree) input output).run t).1.1 = .ok n) :
    ∃ lines, assembled t input = .ok lines ∧ lines.length = n ∧
      t.write output (fileText lines).toUTF8 =
        .ok ((assembleFile (m := StateM FileTree) input output).run t).2 := by
  rcases run_assembleFile_cases t input output with
    ⟨e, hrun⟩ | ⟨fault, hrun⟩ | ⟨lines, t', records, hlines, hwrite, hrun⟩
  · rw [hrun] at hn
    exact absurd hn nofun
  · rw [hrun] at hn
    exact absurd hn nofun
  · rw [hrun] at hn ⊢
    exact ⟨lines, hlines, Except.ok.inj hn, hwrite⟩

/-- The file that has been written holds what was assembled, in a form that is loaded and
assembled without a change. -/
theorem sourceText_of_written
    (hlines : assembled t input = .ok lines)
    (hwrite : t.write output (fileText lines).toUTF8 = .ok t') :
    (sourceText t' output).map load = .ok lines ∧ assembled t' output = .ok lines := by
  obtain ⟨text, -, hassemble⟩ := assembled_eq_ok_iff.mp hlines
  obtain ⟨hload, hagain⟩ := assemble_fileText hassemble
  obtain ⟨place, -, -, -, hread, -⟩ := FileTree.exists_place_of_write hwrite
  refine ⟨?_, assembled_eq_ok_iff.mpr ⟨_, hread, hagain⟩⟩
  rw [sourceText_eq_ok_iff.mpr hread, Except.map, hload]

end Running

/-! ## All or nothing -/

/-- As long as the input cannot be read or is no program, no file is touched.  If the input is
a program and the output can be written, the number of lines is given, and only the output has
changed.  It holds the lines into which the old text of the input was assembled: they are
loaded from it, and assembling it onto itself gives the same number and changes nothing.  The
two paths may lead to the same file. -/
theorem assembleFile_is_all_or_nothing
    (t : FileTree) (input output : String) :
    let done := (assembleFile (m := StateM FileTree) input output).run t
    (∀ e, done.1.1 = .error (.source e) → done.2 = t) ∧
    (∀ n, done.1.1 = .ok n →
      ∃ text lines place, t.read input = .ok text.toUTF8 ∧ assemble text = .ok lines ∧
        lines.length = n ∧ t.LeadsTo output place ∧
        (∀ other, other ≠ place → FileTree.entry? done.2 other = t.entry? other) ∧
        (∀ path other, t.LeadsTo path other → other ≠ place → done.2.read path = t.read path) ∧
        (loadFile (m := StateM FileTree) output).run done.2 = (.ok lines, done.2) ∧
        ∃ records, (assembleFile (m := StateM FileTree) output output).run done.2 =
          ((.ok n, records), done.2)) ∧
    ∀ text lines t', t.read input = .ok text.toUTF8 → assemble text = .ok lines →
      t.write output (fileText lines).toUTF8 = .ok t' → done.1.1 = .ok lines.length := by
  intro done
  refine ⟨fun e he => tree_of_run_assembleFile_eq_error he, ?_, ?_⟩
  · intro n hn
    obtain ⟨lines, hlines, rfl, hwrite⟩ := exists_lines_of_run_assembleFile_eq_ok hn
    obtain ⟨text, hread, hassemble⟩ := assembled_eq_ok_iff.mp hlines
    obtain ⟨place, hplace, hothers, hpaths, -, hagain⟩ := FileTree.exists_place_of_write hwrite
    obtain ⟨hload, hlines'⟩ := sourceText_of_written hlines hwrite
    refine ⟨text, lines, place, hread, hassemble, rfl, hplace, hothers, hpaths, ?_, ?_⟩
    · rw [run_loadFile, hload]
    · exact run_assembleFile_of_written hlines' hagain
  · intro text lines t' hread hassemble hwrite
    have hlines := assembled_eq_ok_iff.mpr ⟨text, hread, hassemble⟩
    obtain ⟨records, hrun⟩ := run_assembleFile_of_written hlines hwrite
    exact congrArg (fun run => run.1.1) hrun

/-- A file is assembled onto itself under another path, next to one that is no program. -/
theorem assembleFile_is_all_or_nothing_in_place :
    let t : FileTree :=
      { entries := [(["a.bc"], .file "  LOAD_CONST   1 \n# c\nHALT\n".toUTF8),
          (["b.bc"], .file "BOGUS".toUTF8)] }
    let failed := (assembleFile (m := StateM FileTree) "b.bc" "a.bc").run t
    let done := (assembleFile (m := StateM FileTree) "./a.bc" "a.bc").run t
    failed.1.1 = .error (.source (.faulty ⟨1, .unknownOpcode "BOGUS"⟩)) ∧ failed.2 = t ∧
      done.1.1 = .ok 2 ∧
      ∃ lines, (loadFile (m := StateM FileTree) "a.bc").run done.2 = (.ok lines, done.2) ∧
        ∃ records, (assembleFile (m := StateM FileTree) "a.bc" "a.bc").run done.2 =
          ((.ok 2, records), done.2) := by
  intro t failed done
  have hfailed : failed.1.1 = .error (.source (.faulty ⟨1, .unknownOpcode "BOGUS"⟩)) := rfl
  have hdone : done.1.1 = .ok 2 := rfl
  have hunchanged := (assembleFile_is_all_or_nothing t "b.bc" "a.bc").1 _ hfailed
  obtain ⟨text, lines, place, -, -, -, -, -, -, hload, hagain⟩ :=
    (assembleFile_is_all_or_nothing t "./a.bc" "a.bc").2.1 2 hdone
  exact ⟨hfailed, hunchanged, hdone, lines, hload, hagain⟩

end Source
end Stackline
