import Stackline.Proofs.Program.Source

/-!
# The grammar of programs

A line is an instruction exactly if its words are the name of an operation and as many
operands as the catalogue says.  Any other line is refused for one of three problems,
and `Instruction.Refused` tells from the words of the line which one it is.  Both are
said of the characters of the line, without splitting them.

A program is read line by line.  If every line is an instruction, the program consists of
these instructions, and else the first line that is none is reported with its number.
-/

namespace Stackline

open Text

/-! ## Lines that are refused -/

theorem Opcode.ofMnemonic?_eq_none_iff
    {name : String} :
    ofMnemonic? name = none ↔ ∀ op : Opcode, op.mnemonic ≠ name := by
  rw [Option.eq_none_iff_forall_ne_some]
  apply forall_congr'
  intro op
  exact not_congr ofMnemonic?_eq_some_iff

namespace Instruction

/-- Words that are no instruction, and the problem with them. -/
inductive Refused : List String → Problem → Prop where
  | empty : Refused [] .empty
  | unknown {name : String} (hname : ∀ op : Opcode, op.mnemonic ≠ name) (operands : List String) :
      Refused (name :: operands) (.unknownOpcode name)
  | count {op : Opcode} {operands : List String} (hcount : operands.length ≠ op.operandCount) :
      Refused (op.mnemonic :: operands) (.operandCount op operands.length)

theorem refused_of_ofWords
    {ws : List String} {problem : Problem} (hread : ofWords ws = .error problem) :
    Refused ws problem := by
  cases ws with
  | nil =>
      rw [ofWords, Except.error.injEq] at hread
      rw [← hread]
      exact .empty
  | cons name operands =>
      rw [ofWords] at hread
      split at hread
      next hunknown =>
        rw [Except.error.injEq] at hread
        rw [← hread]
        exact .unknown (Opcode.ofMnemonic?_eq_none_iff.mp hunknown) operands
      next op hop =>
        rw [Opcode.ofMnemonic?_eq_some_iff] at hop
        split at hread
        next => exact absurd hread (by simp)
        next hcount =>
          rw [Except.error.injEq] at hread
          rw [← hread, ← hop]
          exact .count hcount

/-- Words are refused for the problem that they have. -/
theorem ofWords_eq_error_iff
    {ws : List String} {problem : Problem} :
    ofWords ws = .error problem ↔ Refused ws problem := by
  constructor
  · intro hread
    exact refused_of_ofWords hread
  · intro hrefused
    cases hrefused with
    | empty => rfl
    | unknown hname operands => simp [ofWords, Opcode.ofMnemonic?_eq_none_iff.mpr hname]
    | @count op operands hcount =>
        have hname : Opcode.ofMnemonic? op.mnemonic = some op :=
          Opcode.ofMnemonic?_eq_some_iff.mpr rfl
        simp [ofWords, hname, hcount]

theorem parse_eq_error_iff
    {line : String} {problem : Problem} :
    parse line = .error problem ↔
      ∃ ws : List String, Spells (ws.map String.toList) line.toList ∧ Refused ws problem := by
  rw [parse, ofWords_eq_error_iff]
  constructor
  · intro hrefused
    exact ⟨words line, words_eq_iff.mp rfl, hrefused⟩
  · rintro ⟨ws, hspells, hrefused⟩
    rwa [words_eq_iff.mpr hspells]

end Instruction

/-! ## Lines in a row -/

namespace Source

/-- Reading succeeds with the instructions that the lines are, one for each. -/
theorem read_zipIdx_eq_ok_iff
    {lines : List String} {first : Nat} {program : List Instruction} :
    read (lines.zipIdx first) = .ok program ↔
      lines.map Instruction.parse = program.map .ok := by
  induction lines generalizing first program with
  | nil =>
      rw [List.zipIdx_nil, read, Except.ok.injEq, List.map_nil]
      constructor
      · rintro rfl
        rfl
      · intro hnone
        exact (List.map_eq_nil_iff.mp hnone.symm).symm
  | cons line lines ih =>
      simp only [List.zipIdx_cons, read, bind_eq_ok_iff, pure_eq_ok_iff, readLine_eq_ok_iff,
        ih, List.map_cons]
      constructor
      · rintro ⟨i, hi, is, his, rfl⟩
        rw [hi, his, List.map_cons]
      · intro hall
        obtain ⟨i, is, rfl, hi, his⟩ := List.map_eq_cons_iff.mp hall.symm
        exact ⟨i, hi.symm, is, his.symm, rfl⟩

/-- Reading fails on the first line that is no instruction, with its number. -/
theorem read_zipIdx_eq_error_iff
    {lines : List String} {first : Nat} {fault : SourceFault} :
    read (lines.zipIdx first) = .error fault ↔
      ∃ before line after, lines = before ++ line :: after ∧
        (∀ l ∈ before, ∃ i, Instruction.parse l = .ok i) ∧
        readLine line (before.length + first) = .error fault := by
  induction lines generalizing first with
  | nil =>
      rw [List.zipIdx_nil, read]
      simp
  | cons line lines ih =>
      rw [List.zipIdx_cons, read, bind_eq_error_iff]
      simp only [bind_eq_error_iff, pure_ne_error, and_false, exists_false, or_false, ih,
        readLine_eq_ok_iff]
      constructor
      · rintro (hline | ⟨i, hi, before, faulty, after, rfl, hbefore, hfaulty⟩)
        · refine ⟨[], line, lines, rfl, List.forall_mem_nil _, ?_⟩
          rwa [List.length_nil, Nat.zero_add]
        · refine ⟨line :: before, faulty, after, rfl, ?_, ?_⟩
          · exact List.forall_mem_cons.mpr ⟨⟨i, hi⟩, hbefore⟩
          · rwa [List.length_cons, Nat.add_right_comm, Nat.add_assoc]
      · rintro ⟨before, faulty, after, hsplit, hbefore, hfaulty⟩
        cases before with
        | nil =>
            obtain ⟨rfl, -⟩ := List.cons.inj hsplit
            rw [List.length_nil, Nat.zero_add] at hfaulty
            exact .inl hfaulty
        | cons l before =>
            obtain ⟨rfl, hrest⟩ := List.cons.inj hsplit
            obtain ⟨⟨i, hi⟩, hbefore⟩ := List.forall_mem_cons.mp hbefore
            rw [List.length_cons, Nat.add_right_comm, Nat.add_assoc] at hfaulty
            exact .inr ⟨i, hi, before, faulty, after, hrest, hbefore, hfaulty⟩

theorem exists_parse_iff
    {lines : List String} :
    (∃ program, parse lines = .ok program) ↔
      ∀ line ∈ lines, ∃ i, Instruction.parse line = .ok i := by
  constructor
  · rintro ⟨program, hparse⟩ line hline
    have hall : lines.map Instruction.parse = program.map .ok := read_zipIdx_eq_ok_iff.mp hparse
    have hmem : Instruction.parse line ∈ program.map Except.ok := by
      rw [← hall]
      exact List.mem_map_of_mem hline
    obtain ⟨i, -, hi⟩ := List.mem_map.mp hmem
    exact ⟨i, hi.symm⟩
  · intro hlines
    cases hparse : parse lines with
    | ok program => exact ⟨program, rfl⟩
    | error fault =>
        obtain ⟨before, line, after, rfl, -, hfault⟩ := read_zipIdx_eq_error_iff.mp hparse
        obtain ⟨i, hi⟩ := hlines line (by simp)
        rw [readLine_eq_error_iff, hi] at hfault
        exact absurd hfault.2 (by simp)

/-! ## Programs -/

/-- A line is read as an instruction exactly if it spells the name of the operation and
its operands, as many as the catalogue says, and it is refused exactly for the problem
that its words have, with the number that it carries.  The text of an instruction is read
as that instruction.  Lines are read as a program exactly if each of them is read as an
instruction of it, in order, and else the first one that is refused is reported, with its
place counted from one. -/
theorem parse_accepts_grammar_and_undoes_text :
    (∀ (text : String) (number : Nat) (i : Instruction), readLine text number = .ok i ↔
      Spells ((i.opcode.mnemonic :: i.operands).map String.toList) text.toList ∧
        i.operands.length = i.opcode.operandCount) ∧
    (∀ (text : String) (number : Nat) (fault : SourceFault),
      readLine text number = .error fault ↔ fault.line = number ∧
        ∃ ws : List String, Spells (ws.map String.toList) text.toList ∧
          Instruction.Refused ws fault.problem) ∧
    (∀ (i : Instruction) (number : Nat), i.operands.length = i.opcode.operandCount →
      (∀ w ∈ i.operands, w ≠ "" ∧ ∀ c ∈ w.toList, isBlank c = false) →
      readLine i.text number = .ok i) ∧
    ∀ lines : List String,
      ((∃ program, parse lines = .ok program) ↔
        ∀ line ∈ lines, ∃ i, Instruction.parse line = .ok i) ∧
      (∀ program, parse lines = .ok program ↔
        lines.map Instruction.parse = program.map .ok) ∧
      ∀ fault, parse lines = .error fault ↔
        ∃ before line after, lines = before ++ line :: after ∧
          (∀ l ∈ before, ∃ i, Instruction.parse l = .ok i) ∧
          readLine line (before.length + 1) = .error fault := by
  refine ⟨?_, ?_, ?_, ?_⟩
  · intro text number i
    rw [readLine_eq_ok_iff, Instruction.parse_eq_ok_iff, words_eq_iff]
    rfl
  · intro text number fault
    rw [readLine_eq_error_iff, Instruction.parse_eq_error_iff]
  · intro i number hcomplete hoperands
    have hlegible : i.Legible := by
      refine ⟨hcomplete, ?_⟩
      intro w hw
      obtain ⟨hne, hsolid⟩ := hoperands w hw
      exact ⟨mt String.toList_eq_nil_iff.mp hne, hsolid⟩
    exact readLine_eq_ok_iff.mpr hlegible.parse_text
  · intro lines
    exact ⟨exists_parse_iff, fun program => read_zipIdx_eq_ok_iff,
      fun fault => read_zipIdx_eq_error_iff⟩

/-- Two blanks that are no spaces stand around the name, and a space in the canonical
line.  Of two faulty lines the first is reported. -/
theorem parse_accepts_grammar_and_undoes_text_blanks :
    let i : Instruction := ⟨.storeVar, ["größe"]⟩
    i.operands.length = i.opcode.operandCount ∧
      (∀ w ∈ i.operands, w ≠ "" ∧ ∀ c ∈ w.toList, isBlank c = false) ∧
      readLine "STORE_VAR größe" 7 = .ok i ∧
      readLine "\u3000STORE_VAR\u00a0größe\t" 7 = .ok i ∧
      parse ["HALT", "STORE_VAR große größe", "STORE"] =
        .error ⟨2, .operandCount .storeVar 2⟩ := by
  intro i
  obtain ⟨haccepts, -, hundoes, hlines⟩ := parse_accepts_grammar_and_undoes_text
  have hcomplete : i.operands.length = i.opcode.operandCount := by decide
  have hoperands : ∀ w ∈ i.operands, w ≠ "" ∧ ∀ c ∈ w.toList, isBlank c = false := by
    have hsolid : "größe".toList.all (fun c => !isBlank c) = true := by decide
    refine List.forall_mem_singleton.mpr ⟨by decide, ?_⟩
    simpa using hsolid
  have hwords : words "\u3000STORE_VAR\u00a0größe\t" = i.opcode.mnemonic :: i.operands := by
    decide
  refine ⟨hcomplete, hoperands, hundoes i 7 hcomplete hoperands, ?_, ?_⟩
  · exact (haccepts _ 7 i).mpr ⟨words_eq_iff.mp hwords, hcomplete⟩
  · obtain ⟨-, -, hfails⟩ := hlines ["HALT", "STORE_VAR große größe", "STORE"]
    refine (hfails _).mpr ⟨["HALT"], "STORE_VAR große größe", ["STORE"], rfl, ?_, rfl⟩
    exact List.forall_mem_singleton.mpr ⟨⟨.halt, []⟩, rfl⟩

end Source
end Stackline
