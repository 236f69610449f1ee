import Stackline.Proofs.Machine.Run
import Stackline.Value.Standard

/-!
# Activations do not depend on their callers

A frame that runs on top of callers does exactly what it does when it runs
alone: the same frames, one after the other, on the same scopes.  The callers
are left as they are for as long as the frame is active.

Only the ending tells the two runs apart.  Alone, the machine has come to its
end and keeps the value that was returned; on callers, that value goes to the
topmost of them, which may have no room for it.
-/

namespace Stackline
namespace Machine

variable {β : Type}

/-- The machine with other frames and all else as it is. -/
def withFrames (m : Machine β) (frames : List (Frame β)) : Machine β :=
  { m with calls := { m.calls with frames } }

/-! ## One step, alone and on callers -/

section OneStep

variable [Host β] {m : Machine β} {f : Frame β}

/-- The move of the top frame is carried out on whatever frames lie below. -/
theorem step_withFrames
    (m : Machine β) (f : Frame β) (below : List (Frame β)) :
    (m.withFrames (f :: below)).step.machine =
        (m.carryOut f below (f.move m.scopes)).1 ∧
      (m.withFrames (f :: below)).step.error =
        (m.carryOut f below (f.move m.scopes)).2 := by
  have hsame : (m.withFrames (f :: below)).carryOut f below (f.move m.scopes) =
      m.carryOut f below (f.move m.scopes) := by
    cases f.move m.scopes <;> rfl
  rw [← hsame]
  exact step_eq_carryOut rfl

/-- A step after which the frame is still active is the same step on callers. -/
theorem step_withFrames_of_active
    (hframes : m.calls.frames = [f]) (herror : m.step.error = none)
    {f₁ : Frame β} {below : List (Frame β)}
    (hactive : m.step.machine.calls.frames = f₁ :: below) (callers : List (Frame β)) :
    below = [] ∧ (m.withFrames (f :: callers)).step.error = none ∧
      (m.withFrames (f :: callers)).step.machine =
        m.step.machine.withFrames (f₁ :: callers) := by
  obtain ⟨hmachine, herror'⟩ := step_eq_carryOut hframes
  obtain ⟨hmachine₂, herror₂⟩ := step_withFrames m f callers
  rw [herror'] at herror
  rw [hmachine] at hactive
  rw [hmachine, hmachine₂, herror₂]
  cases hmove : f.move m.scopes with
  | goOn f' scopes' =>
      simp only [hmove, carryOut, settle] at hactive
      cases hactive
      simp [withFrames, carryOut, settle]
  | stop => simp [hmove, carryOut, settle] at hactive
  | handBack v => simp [hmove, carryOut, leave, settle] at hactive
  | breakDown opcode f' cause => simp [hmove, carryOut] at herror

/-- A step that ends the frame alone ends it on callers too.  A value that it
returns goes to the topmost caller if there is room. -/
theorem step_withFrames_of_end
    (hframes : m.calls.frames = [f]) (herror : m.step.error = none)
    (hend : m.step.machine.calls.frames = [])
    (caller : Frame β) (rest : List (Frame β)) :
    let stacked := (m.withFrames (f :: caller :: rest)).step
    let after := { m with scopes := m.step.machine.scopes }
    (f.AtStop ∧ stacked.error = none ∧
        stacked.machine = after.settle (caller :: rest)) ∨
      (f.AtReturn ∧ ∃ v, f.stack.items.head? = some v ∧
        m.step.machine.returned = some v ∧
        (caller.stack.items.length < caller.stack.limit →
          stacked.error = none ∧
          stacked.machine = after.settle
            ({ caller with
                stack := { caller.stack with items := v :: caller.stack.items } } :: rest)) ∧
        (caller.stack.limit ≤ caller.stack.items.length →
          stacked.error = some (.instruction f.ip .returnVal
            ((caller :: rest).length + 1) (.stackOverflow caller.stack.limit)) ∧
          stacked.machine = after.settle (caller :: rest))) := by
  dsimp only
  obtain ⟨hmachine, herror'⟩ := step_eq_carryOut hframes
  obtain ⟨hmachine₂, herror₂⟩ := step_withFrames m f (caller :: rest)
  have hallows := f.allows_move m.scopes
  rw [herror'] at herror
  rw [hmachine] at hend
  rw [hmachine, hmachine₂, herror₂]
  cases hmove : f.move m.scopes with
  | goOn f' scopes' => simp [hmove, carryOut, settle] at hend
  | stop =>
      rw [hmove] at hallows
      refine .inl ⟨hallows, ?_, ?_⟩
      · simp [carryOut]
      · simp [carryOut, settle]
  | handBack v =>
      rw [hmove] at hallows
      refine .inr ⟨hallows.1, v, hallows.2, ?_, ?_, ?_⟩
      · simp [carryOut, leave]
      · intro hroom
        rw [carryOut_handBack_of_lt m f rest v hroom]
        exact ⟨rfl, rfl⟩
      · intro hfull
        rw [carryOut_handBack_of_le m f rest v hfull]
        exact ⟨rfl, rfl⟩
  | breakDown opcode f' cause => simp [hmove, carryOut] at herror

/-- A step that fails alone fails on callers for the same reason. -/
theorem step_withFrames_of_error
    (hframes : m.calls.frames = [f]) {e : RunError} (herror : m.step.error = some e)
    (callers : List (Frame β)) :
    ∃ opcode cause f₂,
      e = .instruction f.ip opcode 1 cause ∧
      m.step.machine.calls.frames = [f₂] ∧
      (m.withFrames (f :: callers)).step.error =
        some (.instruction f.ip opcode (callers.length + 1) cause) ∧
      (m.withFrames (f :: callers)).step.machine =
        m.step.machine.withFrames (f₂ :: callers) := by
  obtain ⟨hmachine, herror'⟩ := step_eq_carryOut hframes
  obtain ⟨hmachine₂, herror₂⟩ := step_withFrames m f callers
  rw [herror'] at herror
  rw [hmachine, hmachine₂, herror₂]
  cases hmove : f.move m.scopes with
  | goOn f' scopes' => simp [hmove, carryOut] at herror
  | stop => simp [hmove, carryOut] at herror
  | handBack v => simp [hmove, carryOut, leave] at herror
  | breakDown opcode f' cause =>
      simp only [hmove, carryOut, Option.some.injEq] at herror
      refine ⟨opcode, cause, f', herror.symm, ?_, ?_, ?_⟩
      · simp [carryOut, settle]
      · simp [carryOut]
      · simp [withFrames, carryOut, settle]

end OneStep

/-! ## Whole runs, alone and on callers -/

/-- As long as the frame is active, its callers lie untouched below it. -/
theorem steps_withFrames_of_active [Host β]
    {m : Machine β} {f : Frame β} (hframes : m.calls.frames = [f])
    (callers : List (Frame β)) {k : Nat} {m₁ : Machine β} {f₁ : Frame β}
    {below : List (Frame β)}
    (hsteps : m.steps k = .ok m₁) (hactive : m₁.calls.frames = f₁ :: below) :
    below = [] ∧
      (m.withFrames (f :: callers)).steps k = .ok (m₁.withFrames (f₁ :: callers)) := by
  induction k generalizing m₁ f₁ below with
  | zero =>
      cases hsteps
      rw [hframes] at hactive
      cases hactive
      exact ⟨rfl, rfl⟩
  | succ k ih =>
      obtain ⟨m₀, hsteps₀, herror, rfl⟩ := steps_succ_eq_ok_iff.mp hsteps
      -- A machine without frames would have none after the step either.
      cases hframes₀ : m₀.calls.frames with
      | nil =>
          rw [step_frames_of_nil hframes₀] at hactive
          cases hactive
      | cons f₀ below₀ =>
          obtain ⟨rfl, hstacked₀⟩ := ih hsteps₀ hframes₀
          obtain ⟨hbelow, herror', hmachine⟩ :=
            step_withFrames_of_active hframes₀ herror hactive callers
          refine ⟨hbelow, ?_⟩
          exact steps_succ_eq_ok_iff.mpr ⟨_, hstacked₀, herror', hmachine⟩

/-- A run that fails alone fails on callers after as many steps, for the same
reason and with the callers untouched. -/
theorem steps_withFrames_of_error [Host β]
    {m : Machine β} {f : Frame β} (hframes : m.calls.frames = [f])
    (callers : List (Frame β)) {k : Nat} {m₂ : Machine β} {e : RunError}
    (hsteps : m.steps k = .error (e, m₂)) :
    ∃ ip opcode cause f₂,
      e = .instruction ip opcode 1 cause ∧ m₂.calls.frames = [f₂] ∧
      (m.withFrames (f :: callers)).steps k =
        .error (.instruction ip opcode (callers.length + 1) cause,
          m₂.withFrames (f₂ :: callers)) := by
  induction k with
  | zero => cases hsteps
  | succ k ih =>
      obtain hsteps | ⟨m₁, hsteps₁, herror, rfl⟩ := steps_succ_eq_error_iff.mp hsteps
      · obtain ⟨ip, opcode, cause, f₂, he, hframes₂, hstacked⟩ := ih hsteps
        exact ⟨ip, opcode, cause, f₂, he, hframes₂,
          steps_succ_eq_error_iff.mpr (.inl hstacked)⟩
      · cases hframes₁ : m₁.calls.frames with
        | nil =>
            rw [(step_of_nil hframes₁).2] at herror
            cases herror
        | cons f₁ below =>
            obtain ⟨rfl, hstacked₁⟩ :=
              steps_withFrames_of_active hframes callers hsteps₁ hframes₁
            obtain ⟨opcode, cause, f₂, he, hframes₂, herror', hmachine⟩ :=
              step_withFrames_of_error hframes₁ herror callers
            refine ⟨f₁.ip, opcode, cause, f₂, he, hframes₂, ?_⟩
            exact steps_succ_eq_error_iff.mpr (.inr ⟨_, hstacked₁, herror', hmachine⟩)

/-- A frame runs on top of its callers as it runs alone.  While it is active the
callers are untouched and the scopes are the same.  When it ends without a value
the callers are left with the same scopes; when it returns a value, the topmost
caller receives it, or the return fails because that caller has no room.  When
an instruction fails alone, the same one fails on the callers for the same
cause, and only the depth that is reported differs. -/
theorem steps_on_callers [Host β]
    (m : Machine β) (f caller : Frame β) (rest : List (Frame β)) (k : Nat) :
    let alone := m.withFrames [f]
    let stacked := m.withFrames (f :: caller :: rest)
    (∀ m₁ f₁ below,
      alone.steps k = .ok m₁ → m₁.calls.frames = f₁ :: below →
      below = [] ∧ stacked.steps k = .ok (m₁.withFrames (f₁ :: caller :: rest))) ∧
    (∀ m₁ f₁ m₂,
      alone.steps k = .ok m₁ → m₁.calls.frames = [f₁] →
      alone.steps (k + 1) = .ok m₂ → m₂.calls.frames = [] →
      let after := { m₁ with scopes := m₂.scopes }
      (f₁.AtStop ∧ stacked.steps (k + 1) = .ok (after.settle (caller :: rest))) ∨
      (f₁.AtReturn ∧ ∃ v, f₁.stack.items.head? = some v ∧ m₂.returned = some v ∧
        (caller.stack.items.length < caller.stack.limit →
          stacked.steps (k + 1) = .ok (after.settle
            ({ caller with
                stack := { caller.stack with items := v :: caller.stack.items } } :: rest))) ∧
        (caller.stack.limit ≤ caller.stack.items.length →
          stacked.steps (k + 1) = .error
            (.instruction f₁.ip .returnVal ((caller :: rest).length + 1)
              (.stackOverflow caller.stack.limit),
              after.settle (caller :: rest))))) ∧
    (∀ e m₂,
      alone.steps k = .error (e, m₂) →
      ∃ ip opcode cause f₂,
        e = .instruction ip opcode 1 cause ∧ m₂.calls.frames = [f₂] ∧
        stacked.steps k = .error
          (.instruction ip opcode ((caller :: rest).length + 1) cause,
            m₂.withFrames (f₂ :: caller :: rest))) := by
  intro alone stacked
  have hframes : alone.calls.frames = [f] := rfl
  refine ⟨?_, ?_, ?_⟩
  · intro m₁ f₁ below hsteps hactive
    exact steps_withFrames_of_active hframes (caller :: rest) hsteps hactive
  · intro m₁ f₁ m₂ hsteps hframes₁ hnext hend
    obtain ⟨-, hstacked⟩ :=
      steps_withFrames_of_active hframes (caller :: rest) hsteps hframes₁
    obtain ⟨m₁', hsteps', herror, rfl⟩ := steps_succ_eq_ok_iff.mp hnext
    cases hsteps.symm.trans hsteps'
    rcases step_withFrames_of_end hframes₁ herror hend caller rest with
      ⟨hstop, herror', hmachine⟩ | ⟨hreturn, v, htop, hvalue, hroom, hfull⟩
    · exact .inl ⟨hstop, steps_succ_eq_ok_iff.mpr ⟨_, hstacked, herror', hmachine⟩⟩
    · refine .inr ⟨hreturn, v, htop, hvalue, ?_, ?_⟩
      · intro hlt
        obtain ⟨herror', hmachine⟩ := hroom hlt
        exact steps_succ_eq_ok_iff.mpr ⟨_, hstacked, herror', hmachine⟩
      · intro hle
        obtain ⟨herror', hmachine⟩ := hfull hle
        exact steps_succ_eq_error_iff.mpr (.inr ⟨_, hstacked, herror', hmachine⟩)
  · intro e m₂ hsteps
    exact steps_withFrames_of_error hframes (caller :: rest) hsteps

/-- Alone the frame returns its value; on a caller without room the return fails,
and the frame is gone all the same. -/
theorem steps_on_callers_without_room :
    let f : Frame Standard :=
      { Frame.start (.ofInstructions [⟨.dupTop, []⟩, ⟨.returnVal, []⟩]) ⟨1⟩ 2 with
        stack := { limit := 2, items := [.int 7] } }
    let caller : Frame Standard := .start .empty .global 0
    let m : Machine Standard := { idle 2 false with scopes := (Arena.empty.push none).2 }
    (m.withFrames [f]).steps 2 =
        .ok { ({ m with scopes := .empty }.settle []) with returned := some (.int 7) } ∧
      (m.withFrames [f, caller]).steps 2 =
        .error (.instruction 1 .returnVal 2 (.stackOverflow 0),
          { m with scopes := .empty }.settle [caller]) := by
  intro f caller m
  refine ⟨rfl, ?_⟩
  obtain ⟨-, hend, -⟩ := steps_on_callers m f caller [] 1
  rcases hend _ _ _ rfl rfl rfl rfl with ⟨hstop, -⟩ | ⟨-, v, -, -, -, hfull⟩
  · cases hstop _ rfl
  · exact hfull (Nat.le_refl 0)

end Machine
end Stackline
