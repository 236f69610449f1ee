import Stackline.Proofs.Machine.Breakdown
import Stackline.Value.Standard

/-!
# What a failing step leaves behind

An instruction may fail after it has taken values off its operand stack, and those
are lost.  Nothing else is: no variable has changed, the callers are as they were,
and the frame stands behind the instruction that failed.

One failure is different.  A return is carried out before the caller is found to
have no room for the value, so by then the frame and its scope are gone.
-/

namespace Stackline

variable {β : Type}

namespace Frame

/-- The instruction `i` returns the top value of the frame, and the caller refuses
it. -/
def ReturnRefused
    (f : Frame β) (below : List (Frame β)) (i : Instruction) (cause : Fault) : Prop :=
  i.opcode = .returnVal ∧ ∃ v caller rest, f.stack.items.head? = some v ∧
    below = caller :: rest ∧ caller.push v = .error cause

theorem move_of_returnVal [Host β]
    {f : Frame β} {i : Instruction} {v : Value β} (hi : f.code.instruction? f.ip = some i)
    (hop : i.opcode = .returnVal) (htop : f.stack.items.head? = some v) (scopes : Arena β) :
    f.move scopes = .handBack v := by
  obtain ⟨items, hitems⟩ := List.head?_eq_some_iff.mp htop
  have hpop : f.stack.pop = .ok (v, { f.stack with items }) := by simp only [Stack.pop, hitems]
  have hperform : ({ f with ip := f.ip + 1 } : Frame β).perform f.ip i scopes =
      .ok (.leave (some v)) := by
    simp only [perform, hop, hpop]
    rfl
  simp only [move, hi, hperform]

end Frame

namespace Machine

/-- No scope has changed, and neither have the frames below `f`.  The frame itself
stands behind its instruction, with a part of its operand stack. -/
structure KeepsFrame (m : Machine β) (f : Frame β) (below : List (Frame β)) (m' : Machine β) :
    Prop where
  scopes : m'.scopes = m.scopes
  frames : ∃ f', m'.calls.frames = f' :: below ∧ f'.code = f.code ∧ f'.scope = f.scope ∧
    f'.ip = f.ip + 1 ∧ f'.stack.LeftOf f.stack

/-- The frame `f` has gone, and its own scope has been released.  Every other scope
is as it was, and so are the frames below. -/
structure LosesFrame (m : Machine β) (f : Frame β) (below : List (Frame β)) (m' : Machine β) :
    Prop where
  frames : m'.calls.frames = below
  own : f.scope ≠ .global → m'.scopes.Dead f.scope
  others : ∀ id, id = .global ∨ id ≠ f.scope → m'.scopes.scope? id = m.scopes.scope? id

theorem losesFrame_of_release
    {m m' : Machine β} {f : Frame β} {below : List (Frame β)}
    (hframes : m'.calls.frames = below) (hscopes : m'.scopes = m.scopes.release f.scope) :
    m.LosesFrame f below m' := by
  refine ⟨hframes, ?_, ?_⟩
  · intro hne
    rw [hscopes, Arena.dead_iff]
    exact m.scopes.scope?_release_self hne
  · intro id hid
    rw [hscopes]
    by_cases hown : id = f.scope
    · have hglobal : f.scope = .global := by
        rcases hid with hid | hne
        · rw [← hown, hid]
        · exact absurd hown hne
      rw [hglobal]
      rfl
    · exact m.scopes.scope?_release_of_ne hown

/-- A step that fails names the instruction at which the top frame stands, and the
depth.  It has changed no variable, and it has ended no frame unless a caller refused
the value that was returned to it. -/
theorem failing_step_changes_no_variable [Host β]
    {m : Machine β} {e : RunError} (herror : m.step.error = some e) :
    ∃ f below i cause,
      m.calls.frames = f :: below ∧ f.code.instruction? f.ip = some i ∧
      e = .instruction f.ip i.opcode m.calls.depth cause ∧
      (¬f.ReturnRefused below i cause → m.KeepsFrame f below m.step.machine) ∧
      (f.ReturnRefused below i cause → m.LosesFrame f below m.step.machine) := by
  obtain ⟨f, below, hframes⟩ := exists_frames_of_step_error herror
  have hdepth : m.calls.depth = below.length + 1 := by
    rw [CallStack.depth, hframes, List.length_cons]
  have hallows := f.allows_move m.scopes
  rcases step_error_cases hframes herror with
    ⟨opcode, f', cause, hmove, he, hmachine⟩ |
      ⟨v, caller, rest, hmove, hbelow, hfull, he, hmachine⟩
  · obtain ⟨i, hi, rfl, hleft, -⟩ := Frame.fails_of_move_breakDown hmove
    rw [hmove] at hallows
    obtain ⟨-, hcode, hscope, hip⟩ := hallows
    refine ⟨f, below, i, cause, hframes, hi, ?_, ?_, ?_⟩
    · rw [he, hdepth]
    · intro _
      rw [hmachine]
      exact ⟨rfl, f', rfl, hcode, hscope, hip, hleft⟩
    · -- A frame with a value to return does not break down.
      rintro ⟨hop, v, _, _, htop, -, -⟩
      rw [Frame.move_of_returnVal hi hop htop] at hmove
      cases hmove
  · rw [hmove] at hallows
    obtain ⟨⟨i, hi, hop⟩, htop⟩ := hallows
    refine ⟨f, below, i, .stackOverflow caller.stack.limit, hframes, hi, ?_, ?_, ?_⟩
    · rw [he, hdepth, hop]
    · intro hnot
      refine absurd ?_ hnot
      exact ⟨hop, v, caller, rest, htop, hbelow, Frame.push_of_le hfull v⟩
    · intro _
      rw [hmachine]
      exact losesFrame_of_release rfl rfl

/-- A jump that leads out of the code costs the callee its condition and nothing
else. -/
theorem failing_step_changes_no_variable_jump :
    let f : Frame Standard :=
      { Frame.start (.ofInstructions [⟨.jumpIfTrue, ["9"]⟩]) ⟨1⟩ 2 with
        stack := { limit := 2, items := [.int 1, .int 5] } }
    let caller : Frame Standard := .start .empty .global 0
    let m : Machine Standard :=
      { idle 2 false with
        calls := { limit := 2, frames := [f, caller] }
        scopes := (Arena.empty.push (some .global)).2 }
    m.step.error = some (.instruction 0 .jumpIfTrue 2 (.jumpOutside 9 1)) ∧
      m.KeepsFrame f [caller] m.step.machine := by
  intro f caller m
  have herror : m.step.error = some (.instruction 0 .jumpIfTrue 2 (.jumpOutside 9 1)) := rfl
  obtain ⟨_, _, i, cause, hframes, hi, he, hkeeps, -⟩ :=
    failing_step_changes_no_variable herror
  cases hframes
  injection he with _ hop
  refine ⟨herror, hkeeps ?_⟩
  rintro ⟨hreturn, -⟩
  cases hop.trans hreturn

end Machine
end Stackline
