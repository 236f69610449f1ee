import Stackline.Program.Instruction
import Stackline.Proofs.Text.Lines

/-!
# Instructions that are written and read again

An instruction is read from the words of a line: the name of its operation and its
operands, as many as the catalogue says.  Written with single spaces between them
these words are the canonical line of the instruction, from which it is read again.
-/

namespace Stackline

open Text

namespace Opcode

/-- No two operations have the same name. -/
theorem ofMnemonic?_eq_some_iff
    {name : String} {op : Opcode} :
    ofMnemonic? name = some op ↔ op.mnemonic = name := by
  constructor
  · intro hfound
    simpa using List.find?_some hfound
  · rintro rfl
    cases op <;> rfl

theorem isWord_mnemonic
    (op : Opcode) :
    IsWord op.mnemonic.toList := by
  have hchars : op.mnemonic.toList.all (fun c => !isBlank c) = true := by
    cases op <;> rfl
  constructor
  · cases op <;> decide
  · simpa using hchars

end Opcode

namespace Instruction

/-- The instruction has as many operands as its operation takes. -/
def Complete (i : Instruction) : Prop :=
  i.operands.length = i.opcode.operandCount

theorem Complete.operand?_ne_none
    {i : Instruction} (hi : i.Complete) {index : Nat} (hindex : index < i.opcode.operandCount) :
    i.operand? index ≠ none := by
  rw [← hi] at hindex
  simp [operand?, hindex]

/-- The instruction has all its operands, and each of them is a word. -/
structure Legible (i : Instruction) : Prop where
  complete : i.Complete
  operands : ∀ w ∈ i.operands, IsWord w.toList

/-! ## Reading -/

theorem ofWords_eq_ok_iff
    {ws : List String} {i : Instruction} :
    ofWords ws = .ok i ↔ ws = i.opcode.mnemonic :: i.operands ∧ i.Complete := by
  cases ws with
  | nil => simp [ofWords]
  | cons name operands =>
      simp only [ofWords]
      constructor
      · intro hread
        split at hread
        next => cases hread
        next opcode hopcode =>
          split at hread
          next hcount =>
            cases hread
            rw [Opcode.ofMnemonic?_eq_some_iff.mp hopcode]
            exact ⟨rfl, hcount⟩
          next => cases hread
      · rintro ⟨hws, hcomplete⟩
        obtain ⟨rfl, rfl⟩ := List.cons.inj hws
        have hname : Opcode.ofMnemonic? i.opcode.mnemonic = some i.opcode :=
          Opcode.ofMnemonic?_eq_some_iff.mpr rfl
        simp only [hname]
        exact if_pos hcomplete

/-- An instruction is read exactly from the lines that have its words. -/
theorem parse_eq_ok_iff
    {line : String} {i : Instruction} :
    parse line = .ok i ↔ words line = i.opcode.mnemonic :: i.operands ∧ i.Complete :=
  ofWords_eq_ok_iff

theorem legible_of_parse
    {line : String} {i : Instruction} (hparse : parse line = .ok i) :
    i.Legible := by
  obtain ⟨hwords, hcomplete⟩ := parse_eq_ok_iff.mp hparse
  refine ⟨hcomplete, ?_⟩
  intro w hw
  apply isWord_of_mem_words (s := line)
  rw [hwords]
  exact List.mem_cons_of_mem _ hw

/-- A line that is not blank has a first word, so it is never refused as empty. -/
theorem ne_empty_of_parse_error
    {line : String} {problem : Problem} (hline : Trimmed line.toList)
    (hparse : parse line = .error problem) :
    problem ≠ .empty := by
  obtain ⟨name, operands, hwords⟩ := List.exists_cons_of_ne_nil (words_ne_nil hline)
  simp only [parse, hwords, ofWords] at hparse
  rintro rfl
  split at hparse
  next => cases hparse
  next =>
    split at hparse
    next => cases hparse
    next => cases hparse

/-! ## Writing -/

section Writing

variable {i : Instruction}

theorem Legible.isWord_of_mem
    (hi : i.Legible) :
    ∀ w ∈ i.opcode.mnemonic :: i.operands, IsWord w.toList :=
  List.forall_mem_cons.mpr ⟨i.opcode.isWord_mnemonic, hi.operands⟩

/-- What has been written of an instruction is read as that instruction. -/
theorem Legible.parse_text
    (hi : i.Legible) :
    parse i.text = .ok i := by
  rw [parse_eq_ok_iff]
  exact ⟨words_intercalate hi.isWord_of_mem, hi.complete⟩

theorem toList_text
    (i : Instruction) :
    i.text.toList =
      [' '].intercalate (i.opcode.mnemonic.toList :: i.operands.map String.toList) :=
  String.toList_intercalate

theorem exists_toList_text
    (i : Instruction) :
    ∃ rest, i.text.toList = i.opcode.mnemonic.toList ++ rest := by
  cases hoperands : i.operands with
  | nil =>
      refine ⟨[], ?_⟩
      rw [text, hoperands, String.intercalate_singleton, List.append_nil]
  | cons w ws =>
      refine ⟨(" " ++ String.intercalate " " (w :: ws)).toList, ?_⟩
      rw [text, hoperands, String.intercalate_cons_cons, String.append_assoc,
        String.toList_append]

theorem Legible.isWord_of_mem_map
    (hi : i.Legible) :
    ∀ w ∈ i.opcode.mnemonic.toList :: i.operands.map String.toList, IsWord w := by
  simpa using hi.isWord_of_mem

theorem Legible.trimmed_text
    (hi : i.Legible) :
    Trimmed i.text.toList := by
  rw [toList_text]
  exact trimmed_intercalate (List.cons_ne_nil _ _) hi.isWord_of_mem_map

theorem Legible.isLine_text
    (hi : i.Legible) :
    IsLine i.text.toList := by
  apply hi.trimmed_text.isLine
  rw [toList_text]
  exact not_mem_intercalate (by decide) (by decide) hi.isWord_of_mem_map

end Writing

end Instruction
end Stackline
