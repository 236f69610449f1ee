import Stackline.Proofs.Machine.Breakdown

/-!
# Runs

A run is a number of steps, one after the other.  `Machine.steps` counts them,
for statements about the machine in the middle of a run; `Machine.runFrom` takes
them until the machine halts or a step fails.  What every step keeps, a run
keeps.  `Machine.stages` lists the machines from which the steps of a run are taken,
for statements about what the steps do on the way.

A run that comes to its end has no frame left, and one that fails does so in an
instruction of the frame that was on top.
-/

namespace Stackline

variable {β : Type}

/-- What stays the same as long as a frame is active. -/
def Frame.activation (f : Frame β) : Code β × ScopeId :=
  (f.code, f.scope)

namespace Machine

/-- The machine after `k` steps.  The first step that fails ends the run, with
its error and the machine that it leaves. -/
def steps [Host β] : (k : Nat) → Machine β → Except (RunError × Machine β) (Machine β)
  | 0, m => .ok m
  | k + 1, m =>
    match steps k m with
    | .error failure => .error failure
    | .ok m' =>
      match m'.step.error with
      | some e => .error (e, m'.step.machine)
      | none => .ok m'.step.machine

theorem steps_succ_eq_ok_iff [Host β]
    {m m₂ : Machine β} {k : Nat} :
    m.steps (k + 1) = .ok m₂ ↔
      ∃ m₁, m.steps k = .ok m₁ ∧ m₁.step.error = none ∧ m₁.step.machine = m₂ := by
  simp only [steps]
  cases hk : m.steps k with
  | error failure => simp
  | ok m₁ => cases herror : m₁.step.error <;> simp [herror]

theorem steps_succ_eq_error_iff [Host β]
    {m m₂ : Machine β} {e : RunError} {k : Nat} :
    m.steps (k + 1) = .error (e, m₂) ↔
      m.steps k = .error (e, m₂) ∨
        ∃ m₁, m.steps k = .ok m₁ ∧ m₁.step.error = some e ∧ m₁.step.machine = m₂ := by
  simp only [steps]
  cases hk : m.steps k with
  | error failure => simp
  | ok m₁ => cases herror : m₁.step.error <;> simp [herror]

/-- The first of the steps can be taken off as well as the last. -/
theorem steps_succ_eq_of_step [Host β]
    (m : Machine β) (k : Nat) :
    m.steps (k + 1) =
      match m.step.error with
      | some e => .error (e, m.step.machine)
      | none => m.step.machine.steps k := by
  induction k with
  | zero => rfl
  | succ k ih =>
      rw [steps, ih]
      cases m.step.error with
      | some e => rfl
      | none => rfl

/-- What every successful step keeps holds after any number of them. -/
theorem steps_induction [Host β]
    {P : Machine β → Prop} (hstep : ∀ m, P m → m.step.error = none → P m.step.machine)
    {m m₁ : Machine β} (hm : P m) {k : Nat} (hsteps : m.steps k = .ok m₁) :
    P m₁ := by
  induction k generalizing m₁ with
  | zero =>
      cases hsteps
      exact hm
  | succ k ih =>
      obtain ⟨m₀, hsteps₀, herror, rfl⟩ := steps_succ_eq_ok_iff.mp hsteps
      exact hstep m₀ (ih hsteps₀) herror

/-- Steps that fail do so from a machine of which everything holds that the
steps before have kept. -/
theorem exists_step_error_of_steps_error [Host β]
    {P : Machine β → Prop} (hstep : ∀ m, P m → m.step.error = none → P m.step.machine)
    {m m₂ : Machine β} (hm : P m) {k : Nat} {e : RunError}
    (hsteps : m.steps k = .error (e, m₂)) :
    ∃ m₁, P m₁ ∧ m₁.step.error = some e ∧ m₁.step.machine = m₂ := by
  induction k with
  | zero => cases hsteps
  | succ k ih =>
      obtain hsteps | ⟨m₁, hsteps₁, herror, hmachine⟩ := steps_succ_eq_error_iff.mp hsteps
      · exact ih hsteps
      · exact ⟨m₁, steps_induction hstep hm hsteps₁, herror, hmachine⟩

/-! ## Where a step leads -/

theorem settle_status_eq_halted_iff
    {m : Machine β} {frames : List (Frame β)} :
    (m.settle frames).status = .halted ↔ frames = [] := by
  cases frames <;> simp [settle]

/-- A step settles the machine on the frames that it had, or on those below the top
one, and gives it a value only if none is left. -/
theorem exists_settle_of_step [Host β]
    (m : Machine β) :
    ∃ scopes returned frames,
      m.step.machine = { m with scopes, returned }.settle frames ∧
      frames.map Frame.activation <:+ m.calls.frames.map Frame.activation ∧
      (frames ≠ [] → returned = m.returned) := by
  cases hframes : m.calls.frames with
  | nil =>
      refine ⟨m.scopes, m.returned, [], ?_, List.suffix_refl _, fun hne => absurd rfl hne⟩
      have hcalls : m.calls = { m.calls with frames := [] } := by rw [← hframes]
      rw [(step_of_nil hframes).1]
      exact congrArg (fun calls => { m with status := .halted, calls }) hcalls
  | cons f below =>
      have hallows := f.allows_move m.scopes
      have hreplaced : ∀ f' : Frame β, f'.code = f.code → f'.scope = f.scope →
          (f' :: below).map Frame.activation <:+ (f :: below).map Frame.activation := by
        intro f' hcode hscope
        have hsame : f'.activation = f.activation := Prod.ext hcode hscope
        exact ⟨[], by rw [List.nil_append, List.map_cons, List.map_cons, hsame]⟩
      rw [(step_eq_carryOut hframes).1]
      cases hmove : f.move m.scopes with
      | goOn f' scopes' =>
          rw [hmove] at hallows
          exact ⟨_, _, f' :: below, rfl, hreplaced f' hallows.code hallows.scope, fun _ => rfl⟩
      | stop => exact ⟨_, _, below, rfl, List.suffix_cons _ _, fun _ => rfl⟩
      | handBack v =>
          cases below with
          | nil => exact ⟨_, _, [], rfl, List.suffix_cons _ _, fun hne => absurd rfl hne⟩
          | cons caller rest =>
              by_cases hroom : caller.stack.items.length < caller.stack.limit
              · rw [carryOut_handBack_of_lt m f rest v hroom]
                exact ⟨_, _, _ :: rest, rfl, List.suffix_cons _ _, fun _ => rfl⟩
              · rw [carryOut_handBack_of_le m f rest v (Nat.le_of_not_lt hroom)]
                exact ⟨_, _, caller :: rest, rfl, List.suffix_cons _ _, fun _ => rfl⟩
      | breakDown opcode f' cause =>
          rw [hmove] at hallows
          obtain ⟨-, hcode, hscope, -⟩ := hallows
          exact ⟨_, _, f' :: below, rfl, hreplaced f' hcode hscope, fun _ => rfl⟩

/-- A step halts the machine exactly if it leaves no frame. -/
theorem step_status_eq_halted_iff [Host β]
    {m : Machine β} :
    m.step.machine.status = .halted ↔ m.step.machine.calls.frames = [] := by
  obtain ⟨scopes, returned, frames, hsettle, -⟩ := m.exists_settle_of_step
  rw [hsettle]
  exact settle_status_eq_halted_iff

/-- A machine without frames gets none. -/
theorem step_frames_of_nil [Host β]
    {m : Machine β} (hframes : m.calls.frames = []) :
    m.step.machine.calls.frames = [] := by
  rw [(step_of_nil hframes).1]
  exact hframes

/-- A step changes nothing of how the machine was set up. -/
theorem step_keeps_setup [Host β]
    (m : Machine β) :
    m.step.machine.calls.limit = m.calls.limit ∧ m.step.machine.tracing = m.tracing := by
  obtain ⟨scopes, returned, frames, hsettle, -⟩ := m.exists_settle_of_step
  rw [hsettle]
  exact ⟨rfl, rfl⟩

/-- A step fails in the instruction at which the top frame stands. -/
theorem exists_instruction_of_step_error [Host β]
    {m : Machine β} {e : RunError} (herror : m.step.error = some e) :
    ∃ ip opcode cause, e = .instruction ip opcode m.calls.depth cause := by
  obtain ⟨f, below, hframes⟩ := exists_frames_of_step_error herror
  have hdepth : m.calls.depth = below.length + 1 := by
    rw [CallStack.depth, hframes, List.length_cons]
  obtain ⟨i, cause, -, he, -⟩ := fails_of_step_error hframes herror
  exact ⟨f.ip, i.opcode, cause, by rw [hdepth, he]⟩

/-! ## Where a run leads -/

/-- What every step keeps, whether it fails or not, a run keeps. -/
theorem runFrom_induction [Host β]
    {P : Machine β → Prop} (hstep : ∀ m, P m → P m.step.machine)
    (hforget : ∀ m, P m → P { m with returned := none })
    (fuel : Nat) {m : Machine β} (hm : P m) (output : Output β) :
    P (runFrom fuel m output).machine := by
  induction fuel generalizing m output with
  | zero => exact hm
  | succ fuel ih =>
      simp only [runFrom]
      split
      next => exact hstep m hm
      next =>
        split
        next => exact ih (hstep m hm) _
        next => exact hforget _ (hstep m hm)

/-- More fuel changes nothing about a run that has come to an end. -/
theorem runFrom_add [Host β]
    {fuel : Nat} {m : Machine β} {output : Output β}
    (hends : (runFrom fuel m output).ending ≠ .unfinished) (more : Nat) :
    runFrom (fuel + more) m output = runFrom fuel m output := by
  induction fuel generalizing m output with
  | zero => exact absurd rfl hends
  | succ fuel ih =>
      rw [Nat.add_right_comm]
      simp only [runFrom] at hends ⊢
      cases herror : m.step.error with
      | some e => rfl
      | none =>
          simp only [herror] at hends
          cases hstatus : m.step.machine.status with
          | running =>
              simp only [hstatus] at hends
              exact ih hends
          | halted => rfl

/-- A run that comes to its end has no frame left. -/
theorem frames_eq_nil_of_runFrom_finished [Host β]
    {fuel : Nat} {m : Machine β} {output : Output β} {value : Option (Value β)}
    (hfinished : (runFrom fuel m output).ending = .finished value) :
    (runFrom fuel m output).machine.calls.frames = [] := by
  induction fuel generalizing m output with
  | zero => cases hfinished
  | succ fuel ih =>
      simp only [runFrom] at hfinished ⊢
      split at hfinished
      next => cases hfinished
      next =>
        split at hfinished
        next => exact ih hfinished
        next hhalted => exact step_status_eq_halted_iff.mp hhalted

/-- A run that fails does so after a number of steps. -/
theorem exists_steps_of_runFrom_failed [Host β]
    {fuel : Nat} {m : Machine β} {output : Output β} {e : RunError}
    (hfailed : (runFrom fuel m output).ending = .failed e) :
    ∃ k, m.steps k = .error (e, (runFrom fuel m output).machine) := by
  induction fuel generalizing m output with
  | zero => cases hfailed
  | succ fuel ih =>
      simp only [runFrom] at hfailed ⊢
      split at hfailed
      next e' herror =>
        cases hfailed
        refine ⟨1, ?_⟩
        simp only [steps_succ_eq_of_step, herror]
      next herror =>
        split at hfailed
        next =>
          obtain ⟨k, hsteps⟩ := ih hfailed
          refine ⟨k + 1, ?_⟩
          simp only [steps_succ_eq_of_step, herror]
          exact hsteps
        next => cases hfailed

/-- A run that fails, fails in an instruction. -/
theorem exists_instruction_of_runFrom_failed [Host β]
    {fuel : Nat} {m : Machine β} {output : Output β} {e : RunError}
    (hfailed : (runFrom fuel m output).ending = .failed e) :
    ∃ ip opcode depth cause, e = .instruction ip opcode depth cause := by
  obtain ⟨k, hsteps⟩ := exists_steps_of_runFrom_failed hfailed
  obtain ⟨m₁, -, herror, -⟩ :=
    exists_step_error_of_steps_error (P := fun _ => True) (fun _ _ _ => trivial) trivial hsteps
  obtain ⟨ip, opcode, cause, he⟩ := exists_instruction_of_step_error herror
  exact ⟨ip, opcode, _, cause, he⟩

/-! ## The steps of a run -/

/-- A machine that is about to run.  What an earlier run has left is forgotten. -/
def begun (m : Machine β) : Machine β :=
  { m with status := .running, returned := none }

theorem execute_eq_runFrom [Host β]
    (fuel : Nat) (m : Machine β) (output : Output β) :
    m.execute fuel output = runFrom fuel m.begun output :=
  rfl

/-- The machines from which steps are taken one after the other, by someone who
takes `k` of them at most and after each step decides whether to go on. -/
def stages [Host β] (goesOn : Progress β → Bool) : (k : Nat) → Machine β → List (Machine β)
  | 0, _ => []
  | k + 1, m => m :: if goesOn m.step then stages goesOn k m.step.machine else []

theorem stages_succ_of_true [Host β]
    {goesOn : Progress β → Bool} {m : Machine β} (hgoes : goesOn m.step = true) (k : Nat) :
    m.stages goesOn (k + 1) = m :: m.step.machine.stages goesOn k := by
  rw [stages, if_pos hgoes]

theorem stages_succ_of_false [Host β]
    {goesOn : Progress β → Bool} {m : Machine β} (hstops : goesOn m.step = false) (k : Nat) :
    m.stages goesOn (k + 1) = [m] := by
  rw [stages, if_neg (Bool.eq_false_iff.mp hstops)]

/-- What every step after which there is another one keeps holds of each machine from
which a step is taken. -/
theorem stages_induction [Host β]
    {goesOn : Progress β → Bool} {P : Machine β → Prop}
    (hstep : ∀ m, P m → goesOn m.step = true → P m.step.machine)
    {m m₁ : Machine β} (hm : P m) {k : Nat} (hmem : m₁ ∈ m.stages goesOn k) :
    P m₁ := by
  induction k generalizing m with
  | zero => cases hmem
  | succ k ih =>
      cases hgoes : goesOn m.step with
      | true =>
          rw [stages_succ_of_true hgoes] at hmem
          rcases List.mem_cons.mp hmem with rfl | hrest
          · exact hm
          · exact ih (hstep m hm hgoes) hrest
      | false =>
          rw [stages_succ_of_false hgoes] at hmem
          obtain rfl := List.mem_singleton.mp hmem
          exact hm

end Machine

/-- A run goes on after a step that has not failed and has not halted the machine. -/
def Progress.goesOn (p : Progress β) : Bool :=
  p.error.isNone && decide (p.machine.status = .running)

theorem Progress.goesOn_eq_true_iff
    {p : Progress β} :
    p.goesOn = true ↔ p.error = none ∧ p.machine.status = .running := by
  simp [goesOn]

end Stackline
