import Stackline.Proofs.Machine.Constants
import Stackline.Proofs.Machine.Failure
import Stackline.Proofs.Machine.Run
import Stackline.Proofs.Scope.Bindings

/-!
# Programs that run alone

Most programs run in the only frame of a machine, over the globals.  What such a run has
come to is then told by three things: where it stands in the program, the values on the
operand stack and the globals.  This module gives one rule per kind of instruction in
these terms.  The rules are chained by `Machine.Reaches`, which counts the steps, and
`Machine.runFrom_of_reaches` turns a chain into a part of a run.
-/

namespace Stackline

variable {β : Type}

/-! ## Chains of steps -/

namespace Machine

variable [Host β]

/-- In `k` steps, none of which fails, the one machine becomes the other. -/
def Reaches (k : Nat) (m m' : Machine β) : Prop :=
  m.steps k = .ok m'

theorem Reaches.trans
    {j k : Nat} {m₁ m₂ m₃ : Machine β} (h₁ : Reaches j m₁ m₂) (h₂ : Reaches k m₂ m₃) :
    Reaches (j + k) m₁ m₃ := by
  induction k generalizing m₃ with
  | zero =>
      cases h₂
      exact h₁
  | succ k ih =>
      obtain ⟨m, hsteps, herror, hmachine⟩ := steps_succ_eq_ok_iff.mp h₂
      exact steps_succ_eq_ok_iff.mpr ⟨m, ih hsteps, herror, hmachine⟩

instance (j k : Nat) :
    Trans (Reaches (β := β) j) (Reaches (β := β) k) (Reaches (β := β) (j + k)) where
  trans := Reaches.trans

theorem reaches_one_iff
    {m m' : Machine β} :
    Reaches 1 m m' ↔ m.step.error = none ∧ m.step.machine = m' := by
  rw [Reaches, steps_succ_eq_ok_iff]
  constructor
  · rintro ⟨m₁, hm₁, herror, hmachine⟩
    cases hm₁
    exact ⟨herror, hmachine⟩
  · rintro ⟨herror, hmachine⟩
    exact ⟨m, rfl, herror, hmachine⟩

/-- A machine that has a frame in the end has had one all along. -/
theorem Reaches.frames_ne_nil
    {k : Nat} {m m' : Machine β} (hreaches : Reaches k m m') (hactive : m'.calls.frames ≠ []) :
    m.calls.frames ≠ [] := by
  intro hnil
  apply hactive
  exact steps_induction (P := fun m => m.calls.frames = [])
    (fun m hm _ => step_frames_of_nil hm) hnil hreaches

/-- A run goes through every machine that has a frame and is reached without a failure. -/
theorem runFrom_of_reaches
    {k : Nat} {m m' : Machine β} (hreaches : Reaches k m m') (hactive : m'.calls.frames ≠ [])
    (fuel : Nat) (output : Output β) :
    ∃ output', runFrom (k + fuel) m output = runFrom fuel m' output' := by
  induction k generalizing m output with
  | zero =>
      cases hreaches
      exact ⟨output, by rw [Nat.zero_add]⟩
  | succ k ih =>
      rw [Reaches, steps_succ_eq_of_step] at hreaches
      cases herror : m.step.error with
      | some e =>
          rw [herror] at hreaches
          cases hreaches
      | none =>
          rw [herror] at hreaches
          have hrest : Reaches k m.step.machine m' := hreaches
          have hrunning : m.step.machine.status = .running := by
            cases hstatus : m.step.machine.status with
            | running => rfl
            | halted =>
                have hnil := step_status_eq_halted_iff.mp hstatus
                exact absurd hnil (hrest.frames_ne_nil hactive)
          rw [Nat.add_right_comm]
          simp only [runFrom, herror, hrunning]
          exact ih hrest _

end Machine

/-! ## The rules -/

/-- The operation of an operator applies it. -/
theorem Frame.perform_opcode [Host β]
    (f : Frame β) (index : Nat) (op : Operator) (operands : List String) (scopes : Arena β) :
    f.perform index ⟨op.opcode, operands⟩ scopes = f.binary op scopes := by
  cases op <;> rfl

/-- A program with the machine that it runs on and the number of values that its operand
stack has room for. -/
structure Solo (β : Type) where
  machine : Machine β
  program : List Instruction
  room : Nat

namespace Solo

open Machine

/-- The operand stack with these values. -/
def stack (w : Solo β) (items : List (Value β)) : Stack β :=
  { limit := w.room, items }

/-- The frame of the program at an instruction. -/
def frame (w : Solo β) (ip : Nat) (items : List (Value β)) : Frame β :=
  { code := .ofInstructions w.program, ip, stack := w.stack items, scope := .global }

/-- The scopes with these globals. -/
def scopes (w : Solo β) (globals : Bindings β) : Arena β :=
  { w.machine.scopes with globals }

/-- The machine when the program has come to an instruction, with these values on the
operand stack and with these globals. -/
def state (w : Solo β) (ip : Nat) (items : List (Value β)) (globals : Bindings β) :
    Machine β :=
  { w.machine with scopes := w.scopes globals }.settle [w.frame ip items]

section Parts

variable (w : Solo β)

theorem frames_state
    (ip : Nat) (items : List (Value β)) (g : Bindings β) :
    (w.state ip items g).calls.frames = [w.frame ip items] :=
  rfl

theorem scopes_state
    (ip : Nat) (items : List (Value β)) (g : Bindings β) :
    (w.state ip items g).scopes = w.scopes g :=
  rfl

theorem instruction?_frame
    (ip : Nat) (items : List (Value β)) :
    (w.frame ip items).code.instruction? (w.frame ip items).ip = w.program[ip]? :=
  Code.instruction?_ofInstructions w.program ip

theorem push_stack
    {items : List (Value β)} (hroom : items.length < w.room) (v : Value β) :
    (w.stack items).push v = .ok (w.stack (v :: items)) :=
  if_pos hroom

theorem jump_frame
    {ip target : Nat} {items : List (Value β)} (htarget : target < w.program.length) :
    (w.frame ip items).jump target = .ok (w.frame target items) := by
  have hlength : (w.frame ip items).code.length = w.program.length := by
    have hholds : (Code.ofInstructions w.program : Code β).Holds w.program :=
      Code.holds_ofInstructions w.program
    rw [frame, Code.length, ← Array.length_toList, hholds.instructions]
  rw [Frame.jump, if_pos, Int.toNat_natCast]
  · rfl
  · rw [hlength]
    omega

theorem get_scopes
    {g : Bindings β} {name : String} {v : Value β} (hname : g.get? name = some v) :
    (w.scopes g).get .global name = .ok v := by
  have hscope : (w.scopes g).scope? .global = some { parent := none, bindings := g } := rfl
  simp only [Arena.get, Arena.find, hscope, hname]

end Parts

section Rules

variable [Host β] {w : Solo β} {ip : Nat} {items : List (Value β)} {g : Bindings β}

theorem reaches_of_perform
    {i : Instruction} {ip' : Nat} {items' : List (Value β)} {g' : Bindings β}
    (hi : w.program[ip]? = some i)
    (hperform : (w.frame (ip + 1) items).perform ip i (w.scopes g) =
      .ok (.next (w.frame ip' items') (w.scopes g') "")) :
    Reaches 1 (w.state ip items g) (w.state ip' items' g') := by
  have hnext := (w.instruction?_frame ip items).trans hi
  obtain ⟨hmachine, herror⟩ := step_of_perform_next (w.frames_state ip items g) hnext hperform
  exact reaches_one_iff.mpr ⟨herror, hmachine⟩

theorem reaches_loadConst
    {text : String} {v : Value β} (hi : w.program[ip]? = some ⟨.loadConst, [text]⟩)
    (hv : .ofLiteral text = v) (hroom : items.length < w.room) :
    Reaches 1 (w.state ip items g) (w.state (ip + 1) (v :: items) g) := by
  have hnext := (w.instruction?_frame ip items).trans hi
  have hconstant : (w.frame ip items).code.constant? ip = some v := by
    rw [frame, Code.constant?_of_loadConst hi, ← hv]
    rfl
  obtain ⟨hmachine, herror⟩ :=
    step_of_constant_of_lt (w.frames_state ip items g) hnext rfl hconstant hroom
  exact reaches_one_iff.mpr ⟨herror, hmachine⟩

theorem reaches_loadVar
    {name : String} {v : Value β} (hi : w.program[ip]? = some ⟨.loadVar, [name]⟩)
    (hname : g.get? name = some v) (hroom : items.length < w.room) :
    Reaches 1 (w.state ip items g) (w.state (ip + 1) (v :: items) g) := by
  apply reaches_of_perform hi
  simp only [Frame.perform, bind_eq_ok_iff, pure_eq_ok_iff, Stack.attempt_eq_ok_iff]
  exact ⟨name, rfl, v, w.get_scopes hname, _, w.push_stack hroom _, rfl⟩

theorem reaches_storeVar
    {name : String} {v : Value β} {g' : Bindings β}
    (hi : w.program[ip]? = some ⟨.storeVar, [name]⟩) (hg' : g.set name v = g') :
    Reaches 1 (w.state ip (v :: items) g) (w.state (ip + 1) items g') := by
  subst hg'
  apply reaches_of_perform hi
  simp only [Frame.perform, bind_eq_ok_iff, pure_eq_ok_iff, Stack.attempt_eq_ok_iff]
  exact ⟨name, rfl, _, rfl, _, rfl, rfl⟩

/-- Applies an operator to the two values on top, the lower one on its left. -/
theorem reaches_operator
    {op : Operator} {a b v : Value β} (hi : w.program[ip]? = some ⟨op.opcode, []⟩)
    (happly : Value.apply op a b = .ok v) (hroom : items.length < w.room) :
    Reaches 1 (w.state ip (b :: a :: items) g) (w.state (ip + 1) (v :: items) g) := by
  apply reaches_of_perform hi
  rw [Frame.perform_opcode, Frame.binary]
  simp only [bind_eq_ok_iff, pure_eq_ok_iff, Stack.attempt_eq_ok_iff]
  exact ⟨_, rfl, _, rfl, v, happly, _, w.push_stack hroom _, rfl⟩

theorem reaches_jump
    {text : String} {target : Nat} (hi : w.program[ip]? = some ⟨.jump, [text]⟩)
    (htext : Instruction.target ⟨.jump, [text]⟩ = .ok (target : Int))
    (htarget : target < w.program.length) :
    Reaches 1 (w.state ip items g) (w.state target items g) := by
  apply reaches_of_perform hi
  simp only [Frame.perform, bind_eq_ok_iff, pure_eq_ok_iff, Stack.attempt_eq_ok_iff]
  exact ⟨_, htext, _, w.jump_frame htarget, rfl⟩

theorem reaches_jumpIfFalse_of_false
    {text : String} {target : Nat} {v : Value β}
    (hi : w.program[ip]? = some ⟨.jumpIfFalse, [text]⟩)
    (htext : Instruction.target ⟨.jumpIfFalse, [text]⟩ = .ok (target : Int))
    (htarget : target < w.program.length) (hv : v.truthy = false) :
    Reaches 1 (w.state ip (v :: items) g) (w.state target items g) := by
  have hjump : Frame.jumpIf false (w.frame (ip + 1) items) v target =
      .ok (w.frame target items) := by
    rw [Frame.jumpIf, if_pos hv, w.jump_frame htarget]
  apply reaches_of_perform hi
  simp only [Frame.perform, Frame.branch, bind_eq_ok_iff, pure_eq_ok_iff,
    Stack.attempt_eq_ok_iff]
  exact ⟨_, rfl, _, htext, _, hjump, rfl⟩

theorem reaches_jumpIfFalse_of_true
    {text : String} {target : Int} {v : Value β}
    (hi : w.program[ip]? = some ⟨.jumpIfFalse, [text]⟩)
    (htext : Instruction.target ⟨.jumpIfFalse, [text]⟩ = .ok target) (hv : v.truthy = true) :
    Reaches 1 (w.state ip (v :: items) g) (w.state (ip + 1) items g) := by
  have hstay : Frame.jumpIf false (w.frame (ip + 1) items) v target =
      .ok (w.frame (ip + 1) items) := by
    rw [Frame.jumpIf, if_neg]
    rw [hv]
    decide
  apply reaches_of_perform hi
  simp only [Frame.perform, Frame.branch, bind_eq_ok_iff, pure_eq_ok_iff,
    Stack.attempt_eq_ok_iff]
  exact ⟨_, rfl, _, htext, _, hstay, rfl⟩

/-! ## How the run ends -/

/-- An operator that refuses the two values on top ends the run. -/
theorem runFrom_operator_error
    {op : Operator} {a b : Value β} {cause : Fault}
    (hi : w.program[ip]? = some ⟨op.opcode, []⟩) (happly : Value.apply op a b = .error cause)
    (fuel : Nat) (output : Output β) :
    (runFrom (fuel + 1) (w.state ip (b :: a :: items) g) output).ending =
      .failed (.instruction ip op.opcode 1 cause) := by
  have hnext := (w.instruction?_frame ip (b :: a :: items)).trans hi
  have hperform : (w.frame (ip + 1) (b :: a :: items)).perform ip ⟨op.opcode, []⟩ (w.scopes g) =
      .error { stack := w.stack items, printed := "", cause } := by
    rw [Frame.perform_opcode]
    change ((w.stack items).attempt (Value.apply op a b) >>= _) = _
    rw [happly]
    rfl
  obtain ⟨-, herror⟩ := step_of_perform_error (w.frames_state ip _ g) hnext hperform
  simp only [runFrom, herror]
  rfl

/-- A return ends the run with the value on top. -/
theorem runFrom_returnVal
    {v : Value β} (hi : w.program[ip]? = some ⟨.returnVal, []⟩) (fuel : Nat)
    (output : Output β) :
    let x := runFrom (fuel + 1) (w.state ip (v :: items) g) output
    x.ending = .finished (some v) ∧ x.machine.scopes.globals = g := by
  intro x
  have hnext := (w.instruction?_frame ip (v :: items)).trans hi
  have hmove : (w.frame ip (v :: items)).move (w.scopes g) = .handBack v :=
    Frame.move_of_returnVal hnext rfl rfl (w.scopes g)
  have hcarry : (w.state ip (v :: items) g).carryOut (w.frame ip (v :: items)) [] (.handBack v) =
      ({ (w.state ip (v :: items) g).settle [] with returned := some v }, none) := rfl
  obtain ⟨hmachine, herror⟩ := step_eq_carryOut (w.frames_state ip (v :: items) g)
  rw [scopes_state, hmove, hcarry] at hmachine herror
  simp only [x, runFrom, herror, hmachine]
  exact ⟨rfl, rfl⟩

end Rules

end Solo
end Stackline
