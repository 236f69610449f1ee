import Stackline.Proofs.Machine.Failure
import Stackline.Proofs.Machine.Run

/-!
# The value of a run

A machine keeps the value that its bottom frame has returned in a place of its own,
which is read when the run has come to its end.  Between the two nothing may write
there.  A frame that is not the bottom one hands its value to its caller, and a
frame that stops hands over nothing.

So the last step of a run tells its value.  It is a step of the bottom frame alone,
and that frame is the one that lay at the bottom when the run began.
-/

namespace Stackline

variable {β : Type}

namespace Frame

/-- The frame stands at a return and has the value to return on top of its stack. -/
def Returns (f : Frame β) (v : Value β) : Prop :=
  f.AtReturn ∧ f.stack.items.head? = some v

theorem Returns.unique
    {f : Frame β} {v w : Value β} (hv : f.Returns v) (hw : f.Returns w) :
    v = w := by
  have hsame : some v = some w := hv.2.symm.trans hw.2
  exact Option.some.inj hsame

theorem Returns.not_atStop
    {f : Frame β} {v : Value β} (hreturns : f.Returns v) :
    ¬f.AtStop := by
  intro hstop
  obtain ⟨i, hi, hop⟩ := hreturns.1
  have hhalt : i.opcode = .halt := hstop i hi
  rw [hop] at hhalt
  cases hhalt

theorem Returns.move [Host β]
    {f : Frame β} {v : Value β} (hreturns : f.Returns v) (scopes : Arena β) :
    f.move scopes = .handBack v := by
  obtain ⟨⟨i, hi, hop⟩, htop⟩ := hreturns
  exact move_of_returnVal hi hop htop scopes

end Frame

namespace Machine

/-! ## What one step does to the value -/

/-- A step after which frames are active returns nothing out of the machine. -/
theorem step_returned_of_running [Host β]
    {m : Machine β} (hrunning : m.step.machine.status = .running) :
    m.step.machine.returned = m.returned := by
  obtain ⟨scopes, returned, frames, hsettle, -, hkept⟩ := m.exists_settle_of_step
  rw [hsettle] at hrunning ⊢
  refine hkept ?_
  rintro rfl
  cases hrunning

/-- How a step can end a run, and with which value: there is no frame at all, or a
single one that stops or returns. -/
inductive Concludes (m : Machine β) : Option (Value β) → Prop where
  | idle (hframes : m.calls.frames = []) : Concludes m none
  | stopped (f : Frame β) (hframes : m.calls.frames = [f]) (hstop : f.AtStop) :
      Concludes m none
  | returned (f : Frame β) (v : Value β) (hframes : m.calls.frames = [f])
      (hreturns : f.Returns v) : Concludes m (some v)

theorem Concludes.eq_some_iff
    {m : Machine β} {value : Option (Value β)} (hconcludes : m.Concludes value) {v : Value β} :
    value = some v ↔ ∃ f, m.calls.frames = [f] ∧ f.Returns v := by
  constructor
  · rintro rfl
    cases hconcludes with
    | returned f _ hframes hreturns => exact ⟨f, hframes, hreturns⟩
  · rintro ⟨f, hframes, hreturns⟩
    cases hconcludes with
    | idle hempty =>
        rw [hempty] at hframes
        cases hframes
    | stopped f' hframes' hstop =>
        cases hframes'.symm.trans hframes
        exact absurd hstop hreturns.not_atStop
    | returned f' w hframes' hreturns' =>
        cases hframes'.symm.trans hframes
        rw [hreturns'.unique hreturns]

theorem Concludes.eq_none_iff
    {m : Machine β} {value : Option (Value β)} (hconcludes : m.Concludes value) :
    value = none ↔ m.calls.frames = [] ∨ ∃ f, m.calls.frames = [f] ∧ f.AtStop := by
  cases hconcludes with
  | idle hempty => exact iff_of_true rfl (.inl hempty)
  | stopped f hframes hstop => exact iff_of_true rfl (.inr ⟨f, hframes, hstop⟩)
  | returned f v hframes hreturns =>
      refine iff_of_false (fun hnone => nomatch hnone) ?_
      rintro (hempty | ⟨f', hframes', hstop⟩)
      · rw [hempty] at hframes
        cases hframes
      · cases hframes.symm.trans hframes'
        exact hreturns.not_atStop hstop

/-- A frame with a caller that returns without an error hands its value to the
caller. -/
theorem step_of_returns_to_caller [Host β]
    {m : Machine β} {f caller : Frame β} {rest : List (Frame β)} {v : Value β}
    (hframes : m.calls.frames = f :: caller :: rest) (hreturns : f.Returns v)
    (herror : m.step.error = none) :
    ∃ caller', caller.push v = .ok caller' ∧
      m.step.machine.calls.frames = caller' :: rest ∧
      m.step.machine.returned = m.returned := by
  obtain ⟨hmachine, hfails⟩ := step_eq_carryOut hframes
  rw [hreturns.move] at hmachine hfails
  by_cases hroom : caller.stack.items.length < caller.stack.limit
  · rw [carryOut_handBack_of_lt m f rest v hroom] at hmachine
    rw [hmachine]
    exact ⟨_, Frame.push_of_lt hroom v, rfl, rfl⟩
  · rw [carryOut_handBack_of_le m f rest v (Nat.le_of_not_lt hroom)] at hfails
    rw [hfails] at herror
    cases herror

theorem concludes_of_step_halted [Host β]
    {m : Machine β} (hreturned : m.returned = none) (herror : m.step.error = none)
    (hhalted : m.step.machine.status = .halted) :
    m.Concludes m.step.machine.returned := by
  have hempty : m.step.machine.calls.frames = [] := step_status_eq_halted_iff.mp hhalted
  cases hframes : m.calls.frames with
  | nil =>
      rw [(step_of_nil hframes).1]
      change m.Concludes m.returned
      rw [hreturned]
      exact .idle hframes
  | cons f below =>
      have hallows := f.allows_move m.scopes
      obtain ⟨hmachine, hfails⟩ := step_eq_carryOut hframes
      cases hmove : f.move m.scopes with
      | goOn f' scopes' =>
          rw [hmachine, hmove] at hempty
          cases hempty
      | stop =>
          rw [hmove] at hmachine hallows
          rw [hmachine] at hempty ⊢
          have hbelow : below = [] := hempty
          subst below
          change m.Concludes m.returned
          rw [hreturned]
          exact .stopped f hframes hallows
      | handBack v =>
          rw [hmove] at hmachine hallows
          cases below with
          | nil =>
              rw [hmachine]
              exact .returned f v hframes hallows
          | cons caller rest =>
              obtain ⟨caller', -, hafter, -⟩ := step_of_returns_to_caller hframes hallows herror
              rw [hafter] at hempty
              cases hempty
      | breakDown opcode f' cause =>
          rw [hfails, hmove] at herror
          cases herror

/-! ## What holds all along a run -/

/-- A run that comes to its end has taken no step that failed, and its last one has
halted the machine and left the value. -/
theorem exists_last_of_runFrom_finished [Host β]
    {fuel : Nat} {m : Machine β} {output : Output β} {value : Option (Value β)}
    (hfinished : (runFrom fuel m output).ending = .finished value) :
    (∀ m₁ ∈ m.stages Progress.goesOn fuel, m₁.step.error = none) ∧
      ∃ last, (m.stages Progress.goesOn fuel).getLast? = some last ∧
        last.step.machine.status = .halted ∧ last.step.machine.returned = value := by
  induction fuel generalizing m output with
  | zero => cases hfinished
  | succ fuel ih =>
      simp only [runFrom] at hfinished
      cases herror : m.step.error with
      | some e =>
          simp only [herror] at hfinished
          cases hfinished
      | none =>
          simp only [herror] at hfinished
          cases hstatus : m.step.machine.status with
          | running =>
              simp only [hstatus] at hfinished
              have hgoes : m.step.goesOn = true :=
                Progress.goesOn_eq_true_iff.mpr ⟨herror, hstatus⟩
              obtain ⟨hrest, last, hlast, hhalted, hvalue⟩ := ih hfinished
              rw [stages_succ_of_true hgoes]
              refine ⟨List.forall_mem_cons.mpr ⟨herror, hrest⟩, last, ?_, hhalted, hvalue⟩
              rw [List.getLast?_cons, hlast, Option.getD_some]
          | halted =>
              simp only [hstatus, Ending.finished.injEq] at hfinished
              have hstops : m.step.goesOn = false := by
                simp [Progress.goesOn, hstatus]
              rw [stages_succ_of_false hstops]
              exact ⟨by simpa using herror, m, rfl, hstatus, hfinished⟩

section Stages

variable [Host β] {m m₁ : Machine β} {fuel : Nat}

theorem returned_of_mem_stages
    (hreturned : m.returned = none) (hmem : m₁ ∈ m.stages Progress.goesOn fuel) :
    m₁.returned = none := by
  refine stages_induction (P := fun m₁ => m₁.returned = none) ?_ hreturned hmem
  intro m₀ hbefore hgoes
  obtain ⟨-, hrunning⟩ := Progress.goesOn_eq_true_iff.mp hgoes
  rw [step_returned_of_running hrunning, hbefore]

theorem frames_eq_nil_iff_of_mem_stages
    (hmem : m₁ ∈ m.stages Progress.goesOn fuel) :
    m₁.calls.frames = [] ↔ m.calls.frames = [] := by
  refine stages_induction (P := fun m₁ => m₁.calls.frames = [] ↔ m.calls.frames = [])
    ?_ Iff.rfl hmem
  intro m₀ hbefore hgoes
  obtain ⟨-, hrunning⟩ := Progress.goesOn_eq_true_iff.mp hgoes
  have hactive : m₀.step.machine.calls.frames ≠ [] := by
    intro hempty
    rw [step_status_eq_halted_iff.mpr hempty] at hrunning
    cases hrunning
  have hactive₀ : m₀.calls.frames ≠ [] := fun hempty => hactive (step_frames_of_nil hempty)
  exact iff_of_false hactive fun hempty => hactive₀ (hbefore.mpr hempty)

theorem activations_suffix_of_mem_stages
    (hmem : m₁ ∈ m.stages Progress.goesOn fuel) :
    m₁.calls.frames.map Frame.activation <:+ m.calls.frames.map Frame.activation := by
  refine stages_induction
    (P := fun m₁ => m₁.calls.frames.map Frame.activation <:+ m.calls.frames.map Frame.activation)
    ?_ (List.suffix_refl _) hmem
  intro m₀ hbefore _
  obtain ⟨scopes, returned, frames, hsettle, hsuffix, -⟩ := m₀.exists_settle_of_step
  rw [hsettle]
  exact hsuffix.trans hbefore

/-- A frame that is left alone is the one that lay at the bottom from the start. -/
theorem exists_bottom_of_mem_stages
    (hmem : m₁ ∈ m.stages Progress.goesOn fuel) {f : Frame β} (hframes : m₁.calls.frames = [f]) :
    ∃ bottom, m.calls.frames.getLast? = some bottom ∧
      f.code = bottom.code ∧ f.scope = bottom.scope := by
  have hsuffix := activations_suffix_of_mem_stages hmem
  rw [hframes] at hsuffix
  obtain ⟨above, habove⟩ := hsuffix
  have hlast : (m.calls.frames.map Frame.activation).getLast? = some f.activation := by
    rw [← habove]
    exact List.getLast?_concat
  rw [List.getLast?_map] at hlast
  obtain ⟨bottom, hbottom, hsame⟩ := Option.map_eq_some_iff.mp hlast
  exact ⟨bottom, hbottom, congrArg Prod.fst hsame.symm, congrArg Prod.snd hsame.symm⟩

end Stages

/-- The value of a run that comes to its end is the one that the bottom frame returns
in the last step, and there is none exactly if there was no frame to begin with or
the bottom frame stops in the last step.  What the machine held before does not
matter, and neither do the values that other frames return: each of those goes to
the frame below and nowhere else. -/
theorem value_of_run_is_returned_by_bottom_frame [Host β]
    {m : Machine β} {fuel : Nat} {output : Output β} {value : Option (Value β)}
    (hfinished : (m.execute fuel output).ending = .finished value) :
    let stages := m.begun.stages Progress.goesOn fuel
    (∀ v, value = some v ↔
      ∃ last f, stages.getLast? = some last ∧ last.calls.frames = [f] ∧ f.Returns v) ∧
    (value = none ↔ m.calls.frames = [] ∨
      ∃ last f, stages.getLast? = some last ∧ last.calls.frames = [f] ∧ f.AtStop) ∧
    (∀ m₁ ∈ stages, ∀ f, m₁.calls.frames = [f] →
      ∃ bottom, m.calls.frames.getLast? = some bottom ∧
        f.code = bottom.code ∧ f.scope = bottom.scope) ∧
    ∀ m₁ ∈ stages, ∀ f caller rest v, m₁.calls.frames = f :: caller :: rest → f.Returns v →
      ∃ caller', caller.push v = .ok caller' ∧
        m₁.step.machine.calls.frames = caller' :: rest ∧ m₁.step.machine.returned = none := by
  intro stages
  rw [execute_eq_runFrom] at hfinished
  obtain ⟨hsucceeds, last, hlast, hhalted, hvalue⟩ := exists_last_of_runFrom_finished hfinished
  have hmem : last ∈ stages := List.mem_of_getLast? hlast
  have hnone : ∀ m₁ ∈ stages, m₁.returned = none := fun m₁ hm₁ => returned_of_mem_stages rfl hm₁
  have hstart : last.calls.frames = [] ↔ m.calls.frames = [] :=
    frames_eq_nil_iff_of_mem_stages (m := m.begun) hmem
  have hconcludes : last.Concludes value := by
    rw [← hvalue]
    exact concludes_of_step_halted (hnone last hmem) (hsucceeds last hmem) hhalted
  refine ⟨?_, ?_, fun m₁ hm₁ f => exists_bottom_of_mem_stages hm₁, ?_⟩
  · intro v
    rw [hconcludes.eq_some_iff]
    simp [stages, hlast]
  · rw [hconcludes.eq_none_iff, hstart]
    simp [stages, hlast]
  · intro m₁ hm₁ f caller rest v hframes hreturns
    obtain ⟨caller', hpush, hafter, hkept⟩ :=
      step_of_returns_to_caller hframes hreturns (hsucceeds m₁ hm₁)
    exact ⟨caller', hpush, hafter, hkept.trans (hnone m₁ hm₁)⟩

/-- The callee returns a value and an earlier run has left another, but the bottom
frame stops, so the run has no value. -/
theorem value_of_run_is_returned_by_bottom_frame_none :
    let callee : Frame Standard :=
      { Frame.start (.ofInstructions [⟨.returnVal, []⟩]) .global 1 with
        stack := { limit := 1, items := [.int 7] } }
    let bottom : Frame Standard := .start (.ofInstructions [⟨.halt, []⟩]) .global 1
    let m : Machine Standard :=
      { idle 2 false with
        returned := some (.int 9), calls := { limit := 2, frames := [callee, bottom] } }
    (m.execute 5 .empty).ending = .finished none ∧
      ∃ last f, (m.begun.stages Progress.goesOn 5).getLast? = some last ∧
        last.calls.frames = [f] ∧ f.AtStop := by
  intro callee bottom m
  have hfinished : (m.execute 5 .empty).ending = .finished none := rfl
  obtain ⟨-, hnone, -, -⟩ := value_of_run_is_returned_by_bottom_frame hfinished
  refine ⟨hfinished, (hnone.mp rfl).resolve_left ?_⟩
  intro hempty
  cases hempty

end Machine
end Stackline
