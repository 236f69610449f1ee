import Stackline.Proofs.Machine.Bounds
import Stackline.Proofs.Machine.Lifetime
import Stackline.Proofs.Program.Code
import Stackline.Proofs.Program.Source
import Stackline.Proofs.Session.Calls

/-!
# How programs given as text fail

An instruction can fail for reasons that have nothing to do with what it is asked
to do: an operand is missing, a scope has been released under it, its stack was
over the limit before.  None of these can happen to a program that a session has
read from a text.  Such a program has all its operands and the only frame, which
uses the global scope, so what is left are the causes that its operations admit.
-/

namespace Stackline

variable {β : Type}

theorem Arena.get_global_ne_releasedScope
    (a : Arena β) (name : String) (id : ScopeId) :
    a.get .global name ≠ .error (.releasedScope id) := by
  have hchain : a.Chain .global [.global] := .last rfl rfl
  exact find_ne_releasedScope_of_chain hchain name _ id

/-- An instruction that has its operand and its constant fails on the globals for
a cause of its operation. -/
theorem Frame.Fails.admits
    {f : Frame β} {index : Nat} {i : Instruction} {scopes : Arena β} {cause : Fault}
    (hfails : f.Fails index i scopes cause) (hcomplete : i.Complete)
    (hconstant : i.opcode = .loadConst → f.code.constant? index ≠ none)
    (hscope : f.scope = .global) (hfits : f.stack.Fits) :
    i.opcode.admits cause := by
  cases hfails with
  | admitted hadmits => exact hadmits
  | operand htakes hnone => exact absurd hnone (hcomplete.operand?_ne_none htakes)
  | constant hop hnone => exact absurd hnone (hconstant hop)
  | released name hget =>
      rw [hscope] at hget
      exact absurd hget (scopes.get_global_ne_releasedScope name _)
  | overfull hover => exact absurd hfits (Nat.not_le_of_lt hover)

namespace Machine

/-- The machine runs this code on the globals, with no frame below, or has come to
its end. -/
inductive RunsOnly (code : Code β) (m : Machine β) : Prop where
  | active (f : Frame β) (hframes : m.calls.frames = [f]) (hcode : f.code = code)
      (hscope : f.scope = .global) (hf : f.WellFormed)
  | ended (hframes : m.calls.frames = [])

theorem runsOnly_step [Host β]
    {code : Code β} {m : Machine β} (hm : m.RunsOnly code) :
    m.step.machine.RunsOnly code := by
  cases hm with
  | ended hframes => exact .ended (step_frames_of_nil hframes)
  | active f hframes hcode hscope hf =>
      have hallows := f.allows_move m.scopes
      have hmoved := Frame.wellFormed_move hf m.scopes
      rw [(step_eq_carryOut hframes).1]
      cases hmove : f.move m.scopes with
      | goOn f' scopes' =>
          rw [hmove] at hallows hmoved
          obtain ⟨hcode', hscope', -⟩ := hallows
          exact .active f' rfl (hcode'.trans hcode) (hscope'.trans hscope) hmoved
      | stop => exact .ended rfl
      | handBack v => exact .ended rfl
      | breakDown opcode f' cause =>
          rw [hmove] at hallows hmoved
          obtain ⟨-, hcode', hscope', -⟩ := hallows
          exact .active f' rfl (hcode'.trans hcode) (hscope'.trans hscope) hmoved

/-- A step of a complete program fails in one of its instructions, at depth one
and for a cause of the operation. -/
theorem RunsOnly.admits_of_step_error [Host β]
    {program : List Instruction} {m : Machine β} {e : RunError}
    (hm : m.RunsOnly (.ofInstructions program)) (hcomplete : ∀ i ∈ program, i.Complete)
    (herror : m.step.error = some e) :
    ∃ ip i cause, program[ip]? = some i ∧ e = .instruction ip i.opcode 1 cause ∧
      i.opcode.admits cause := by
  cases hm with
  | ended hframes =>
      rw [(step_of_nil hframes).2] at herror
      cases herror
  | active f hframes hcode hscope hf =>
      obtain ⟨i, cause, hi, he, hcause⟩ := fails_of_step_error hframes herror
      rw [hcode, Code.instruction?_ofInstructions] at hi
      have hi' : i.Complete := hcomplete i (List.mem_of_getElem? hi)
      rcases hcause with hfails | ⟨caller, rest, hbelow, -⟩
      · refine ⟨f.ip, i, cause, hi, he, hfails.admits hi' ?_ hscope hf.stack⟩
        intro hop
        rw [hcode]
        exact Code.constant?_ofInstructions_ne_none hi hi' hop
      · -- There is no caller that could lack room for a value.
        cases hbelow

theorem RunsOnly.admits_of_runFrom_failed [Host β]
    {program : List Instruction} {m : Machine β} {fuel : Nat} {output : Output β} {e : RunError}
    (hm : m.RunsOnly (.ofInstructions program)) (hcomplete : ∀ i ∈ program, i.Complete)
    (hfailed : (runFrom fuel m output).ending = .failed e) :
    ∃ ip i cause, program[ip]? = some i ∧ e = .instruction ip i.opcode 1 cause ∧
      i.opcode.admits cause := by
  obtain ⟨k, hsteps⟩ := exists_steps_of_runFrom_failed hfailed
  obtain ⟨m₁, hm₁, herror, -⟩ :=
    exists_step_error_of_steps_error (fun m hm _ => runsOnly_step hm) hm hsteps
  exact hm₁.admits_of_step_error hcomplete herror

end Machine

namespace Session

open Machine

theorem failed_of_mapError_run
    {ending : Ending RunError β} {e : RunError}
    (hfailed : ending.mapError ProgramError.run = .failed (.run e)) :
    ending = .failed e := by
  cases ending with
  | failed e' =>
      cases hfailed
      rfl
  | finished value => cases hfailed
  | unfinished => cases hfailed

/-- A session at rest that fails to run a program either could not start it or
fails in one of its instructions. -/
theorem AtRest.run_failed_cases [Host β]
    {s : Session β} (hs : s.AtRest) {fuel : Nat} {program : List Instruction} {e : RunError}
    (hcomplete : ∀ i ∈ program, i.Complete)
    (hfailed : (s.run fuel (s.globalFrame (.ofInstructions program))).ending = .failed e) :
    (∃ cause, e = .setup cause) ∨
      ∃ ip i cause, program[ip]? = some i ∧ e = .instruction ip i.opcode 1 cause ∧
        i.opcode.admits cause := by
  by_cases hroom : s.machine.calls.depth < s.machine.calls.limit
  · obtain ⟨output, hending, -⟩ := run_of_room hroom fuel
    rw [hending] at hfailed
    have hstarted : (s.started (s.globalFrame (.ofInstructions program))).RunsOnly
        (.ofInstructions program) := by
      refine .active (s.globalFrame (.ofInstructions program)) ?_ rfl rfl
        (Frame.wellFormed_start _ _ _)
      show _ :: s.machine.calls.frames = _
      rw [hs.frames]
    exact .inr (hstarted.admits_of_runFrom_failed hcomplete hfailed)
  · obtain ⟨hending, -⟩ := run_of_full _ (Nat.le_of_not_lt hroom) fuel
    rw [hending] at hfailed
    cases hfailed
    exact .inl ⟨_, rfl⟩

/-- If an instruction of a program given as text fails, after whatever calls, it
fails at depth one, the error names an instruction of the program, and the cause is
one that its operation admits. -/
theorem text_program_fails_as_operation_admits [Host β]
    {settings : Settings} {calls : List (Call β)} {answers : List (Answer ProgramError β)}
    {s : Session β} (hs : (new settings).Serves calls answers s) {fuel : Nat} {text : String}
    {ip : Nat} {opcode : Opcode} {depth : Nat} {cause : Fault}
    (hfailed : (s.runText fuel text).ending =
      .failed (.run (.instruction ip opcode depth cause))) :
    depth = 1 ∧
      (∃ program i, Source.parse (Source.load text) = .ok program ∧
        program[ip]? = some i ∧ i.opcode = opcode) ∧
      opcode.admits cause ∧
      (∀ other index, cause ≠ .missingOperand other index) ∧ cause ≠ .noFrame ∧
      (∀ id, cause ≠ .releasedScope id) ∧ ∀ limit, cause ≠ .callOverflow limit := by
  obtain ⟨hrest, -⟩ := hs.atRest (atRest_new settings)
  simp only [runText, runLines] at hfailed
  split at hfailed
  next program hparse =>
    have hrun := failed_of_mapError_run hfailed
    rcases hrest.run_failed_cases (Source.complete_of_parse hparse) hrun with
      ⟨_, he⟩ | ⟨ip', i, cause', hi, he, hadmits⟩
    · cases he
    · cases he
      exact ⟨rfl, ⟨program, i, hparse, hi, rfl⟩, hadmits, Opcode.ne_of_admits hadmits⟩
  next => cases hfailed

/-- A function that an earlier call has bound is called without its argument.  The
comment does not count as an instruction. -/
theorem text_program_fails_as_operation_admits_arity :
    let calls : List (Call Standard) :=
      [.register (Standard.len.native .len), .lines ["CALL len"]]
    let s := (new {}).register (Standard.len.native .len)
    let cause : Fault := .arityMismatch "len" (.exactly 1) 0
    (∃ answers, (new {}).Serves calls answers s) ∧
      (s.runText 2 "LOAD_VAR len\n# no argument\nCALL_FUNC 0").ending =
        .failed (.run (.instruction 1 .callFunc 1 cause)) ∧
      Opcode.callFunc.admits cause := by
  intro calls s cause
  have hserves : (new {}).Serves calls
      [((new {}).call 0 (.register (Standard.len.native .len))).answer,
        (s.call 0 (.lines ["CALL len"])).answer] s :=
    .cons 0 nofun (.cons 0 nofun (.nil s))
  have hfailed : (s.runText 2 "LOAD_VAR len\n# no argument\nCALL_FUNC 0").ending =
      .failed (.run (.instruction 1 .callFunc 1 cause)) := rfl
  obtain ⟨-, -, hadmits, -⟩ := text_program_fails_as_operation_admits hserves hfailed
  exact ⟨⟨_, hserves⟩, hfailed, hadmits⟩

end Session
end Stackline
