import Stackline.Proofs.Machine.Step
import Stackline.Proofs.Program.Code
import Stackline.Value.Standard

/-!
# Loading constants

The constants of a program are decoded when its code is made, and an instruction finds
its own by way of a slot.  A machine could as well decode the operand when it comes to
the instruction: that is what the pool amounts to, also for programs whose instructions
lack operands or have too many.
-/

namespace Stackline

variable {β : Type}

namespace Instruction

/-- The value that an instruction loads, decoded from its first operand.  Only the loading
of a constant loads one, and only if it has an operand. -/
def decoded : Instruction → Option (Value β)
  | ⟨.loadConst, text :: _⟩ => some (.ofLiteral text)
  | _ => none

theorem decoded_eq_some_iff
    {i : Instruction} {v : Value β} :
    i.decoded = some v ↔ ∃ text rest, i = ⟨.loadConst, text :: rest⟩ ∧ v = .ofLiteral text := by
  constructor
  · intro hdecoded
    unfold decoded at hdecoded
    split at hdecoded
    next text rest =>
      cases hdecoded
      exact ⟨text, rest, rfl, rfl⟩
    next => cases hdecoded
  · rintro ⟨text, rest, rfl, rfl⟩
    rfl

theorem map_ofLiteral_literal?
    (i : Instruction) :
    (i.literal?.map .ofLiteral : Option (Value β)) = i.decoded := by
  obtain ⟨opcode, operands⟩ := i
  cases opcode <;> cases operands <;> rfl

end Instruction

namespace Code

variable {program : List Instruction} {index : Nat}

theorem constant?_eq_decoded :
    (ofInstructions program : Code β).constant? index =
      program[index]?.bind Instruction.decoded := by
  rw [constant?_ofInstructions]
  cases program[index]? with
  | none => rfl
  | some i => exact i.map_ofLiteral_literal?

theorem constant?_eq_some_iff
    {v : Value β} :
    (ofInstructions program : Code β).constant? index = some v ↔
      ∃ text rest, program[index]? = some ⟨.loadConst, text :: rest⟩ ∧ v = .ofLiteral text := by
  rw [constant?_eq_decoded, Option.bind_eq_some_iff]
  constructor
  · rintro ⟨i, hi, hdecoded⟩
    obtain ⟨text, rest, rfl, rfl⟩ := Instruction.decoded_eq_some_iff.mp hdecoded
    exact ⟨text, rest, hi, rfl⟩
  · rintro ⟨text, rest, hi, rfl⟩
    exact ⟨_, hi, rfl⟩

theorem constant?_eq_none_iff :
    (ofInstructions program : Code β).constant? index = none ↔
      ∀ text rest, program[index]? ≠ some ⟨.loadConst, text :: rest⟩ := by
  rw [Option.eq_none_iff_forall_ne_some]
  simp only [ne_eq, constant?_eq_some_iff]
  constructor
  · intro hnone text rest hi
    exact hnone _ ⟨text, rest, hi, rfl⟩
  · rintro hnone _ ⟨text, rest, hi, -⟩
    exact hnone text rest hi

theorem constant?_of_loadConst
    {operands : List String} (hi : program[index]? = some ⟨.loadConst, operands⟩) :
    (ofInstructions program : Code β).constant? index = operands.head?.map .ofLiteral := by
  rw [constant?_eq_decoded, hi]
  cases operands <;> rfl

end Code

namespace Machine

variable [Host β] {m : Machine β} {f : Frame β} {below : List (Frame β)} {i : Instruction}

/-- A constant is put on the operand stack if there is room for it. -/
theorem step_of_constant_of_lt
    {v : Value β} (hframes : m.calls.frames = f :: below)
    (hi : f.code.instruction? f.ip = some i) (hop : i.opcode = .loadConst)
    (hv : f.code.constant? f.ip = some v) (hroom : f.stack.items.length < f.stack.limit) :
    m.step.machine = m.settle
        ({ f with
            ip := f.ip + 1
            stack := { f.stack with items := v :: f.stack.items } } :: below) ∧
      m.step.error = none := by
  have hperform : ({ f with ip := f.ip + 1 } : Frame β).perform f.ip i m.scopes =
      .ok (.next { f with
        ip := f.ip + 1
        stack := { f.stack with items := v :: f.stack.items } } m.scopes "") := by
    simp only [Frame.perform, hop, Frame.constant, hv, Stack.push, if_pos hroom]
    rfl
  exact step_of_perform_next hframes hi hperform

theorem step_of_constant_of_le
    {v : Value β} (hframes : m.calls.frames = f :: below)
    (hi : f.code.instruction? f.ip = some i) (hop : i.opcode = .loadConst)
    (hv : f.code.constant? f.ip = some v) (hfull : f.stack.limit ≤ f.stack.items.length) :
    m.step.machine = m.settle ({ f with ip := f.ip + 1 } :: below) ∧
      m.step.error = some (.instruction f.ip i.opcode (below.length + 1)
        (.stackOverflow f.stack.limit)) := by
  apply step_of_perform_error (b := ⟨f.stack, "", .stackOverflow f.stack.limit⟩) hframes hi
  simp only [Frame.perform, hop, Frame.constant, hv, Stack.push, if_neg (Nat.not_lt_of_le hfull)]
  rfl

/-- Without a constant the operand is found missing, whether or not there is room. -/
theorem step_of_no_constant
    (hframes : m.calls.frames = f :: below)
    (hi : f.code.instruction? f.ip = some i) (hop : i.opcode = .loadConst)
    (hnone : f.code.constant? f.ip = none) :
    m.step.machine = m.settle ({ f with ip := f.ip + 1 } :: below) ∧
      m.step.error = some (.instruction f.ip i.opcode (below.length + 1)
        (.missingOperand i.opcode 0)) := by
  apply step_of_perform_error (b := ⟨f.stack, "", .missingOperand i.opcode 0⟩) hframes hi
  simp only [Frame.perform, hop, Frame.constant, hnone]
  rfl

/-- Full or not, the operand is found missing exactly if there is no constant. -/
theorem step_finds_operand_missing_iff
    (hframes : m.calls.frames = f :: below)
    (hi : f.code.instruction? f.ip = some i) (hop : i.opcode = .loadConst) :
    m.step.error = some (.instruction f.ip i.opcode (below.length + 1)
        (.missingOperand i.opcode 0)) ↔ f.code.constant? f.ip = none := by
  constructor
  · intro hmissing
    cases hv : f.code.constant? f.ip with
    | none => rfl
    | some v =>
        by_cases hroom : f.stack.items.length < f.stack.limit
        · rw [(step_of_constant_of_lt hframes hi hop hv hroom).2] at hmissing
          cases hmissing
        · have hfull := Nat.le_of_not_lt hroom
          rw [(step_of_constant_of_le hframes hi hop hv hfull).2] at hmissing
          cases hmissing
  · intro hnone
    exact (step_of_no_constant hframes hi hop hnone).2

/-- The constant of an instruction is the literal that its first operand spells, and only
the loading of a constant with an operand has one; the pool holds these constants in the
order of the instructions.  So to load a constant is to decode the operand and to push
the value, and the operand is found missing exactly if there is none. -/
theorem pool_amounts_to_decoding
    (program : List Instruction) :
    let code : Code β := .ofInstructions program
    (∀ ip v, code.constant? ip = some v ↔
      ∃ text rest, program[ip]? = some ⟨.loadConst, text :: rest⟩ ∧ v = .ofLiteral text) ∧
    (∀ ip, code.constant? ip = none ↔
      ∀ text rest, program[ip]? ≠ some ⟨.loadConst, text :: rest⟩) ∧
    code.pool.toList = program.filterMap Instruction.decoded ∧
    ∀ (m : Machine β) (f : Frame β) (below : List (Frame β)) (operands : List String),
      m.calls.frames = f :: below → f.code = code →
      program[f.ip]? = some ⟨.loadConst, operands⟩ →
      (∀ text rest, operands = text :: rest →
        (f.stack.items.length < f.stack.limit →
          m.step.error = none ∧
          m.step.machine = m.settle
            ({ f with
                ip := f.ip + 1
                stack := { f.stack with items := .ofLiteral text :: f.stack.items } } ::
              below)) ∧
        (f.stack.limit ≤ f.stack.items.length →
          m.step.error = some (.instruction f.ip .loadConst (below.length + 1)
            (.stackOverflow f.stack.limit)))) ∧
      (m.step.error = some (.instruction f.ip .loadConst (below.length + 1)
        (.missingOperand .loadConst 0)) ↔ operands = []) := by
  intro code
  refine ⟨fun ip v => Code.constant?_eq_some_iff, fun ip => Code.constant?_eq_none_iff, ?_, ?_⟩
  · simp only [code, Code.toList_pool_ofInstructions, Instruction.map_ofLiteral_literal?]
  · intro m f below operands hframes hcode hoperands
    have hi : f.code.instruction? f.ip = some ⟨.loadConst, operands⟩ := by
      rw [hcode, Code.instruction?_ofInstructions, hoperands]
    have hconstant : f.code.constant? f.ip = operands.head?.map .ofLiteral := by
      rw [hcode, Code.constant?_of_loadConst hoperands]
    refine ⟨?_, ?_⟩
    · rintro text rest rfl
      exact ⟨fun hroom => (step_of_constant_of_lt hframes hi rfl hconstant hroom).symm,
        fun hfull => (step_of_constant_of_le hframes hi rfl hconstant hfull).2⟩
    · refine (step_finds_operand_missing_iff hframes hi rfl).trans ?_
      rw [hconstant, Option.map_eq_none_iff, List.head?_eq_none_iff]

/-- A constant is loaded behind one without an operand, which takes no place in the pool.
Its surplus operand does not count, and neither does that of another instruction. -/
theorem pool_amounts_to_decoding_surplus :
    let program : List Instruction :=
      [⟨.loadConst, []⟩, ⟨.dupTop, ["7"]⟩, ⟨.loadConst, ["10", "x"]⟩]
    let code : Code Standard := .ofInstructions program
    let frame (ip : Nat) : Frame Standard := { Frame.start code .global 1 with ip }
    let m (ip : Nat) : Machine Standard := (idle 1 false).settle [frame ip]
    code.pool.toList = [.ofLiteral "10"] ∧
      (m 0).step.error = some (.instruction 0 .loadConst 1 (.missingOperand .loadConst 0)) ∧
      (m 2).step.error = none ∧
      (m 2).step.machine = (m 2).settle
        [{ frame 3 with stack := { limit := 1, items := [.ofLiteral "10"] } }] := by
  intro program code frame m
  obtain ⟨-, -, hpool, hstep⟩ := pool_amounts_to_decoding (β := Standard) program
  obtain ⟨-, hmissing⟩ := hstep (m 0) (frame 0) [] [] rfl rfl rfl
  obtain ⟨hloads, -⟩ := hstep (m 2) (frame 2) [] ["10", "x"] rfl rfl rfl
  exact ⟨hpool, hmissing.mpr rfl, (hloads "10" ["x"] rfl).1 (by decide)⟩

end Machine
end Stackline
