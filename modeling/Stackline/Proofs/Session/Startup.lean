import Stackline.Proofs.Session.Faults
import Stackline.Settings.Document

/-!
# Accepted settings start every program

A program cannot start if the call stack has no room for its frame.  Settings that a
document gives have room for one frame at least, the flags of a run change no limit,
and whatever a session has done before, no frame is left from it.  So a session with
such settings never turns a program away.
-/

namespace Stackline

/-! ## Limits of accepted settings -/

namespace Settings

theorem limits_pos_of_validate
    {path : String} {s s' : Settings} (hvalid : s.validate path = .ok s') :
    0 < s'.maxStackSize ∧ 0 < s'.maxCallDepth := by
  unfold validate at hvalid
  split at hvalid
  next => cases hvalid
  next hstack =>
    split at hvalid
    next => cases hvalid
    next hdepth =>
      cases hvalid
      exact ⟨Nat.pos_of_ne_zero hstack, Nat.pos_of_ne_zero hdepth⟩

theorem limits_pos_of_parse
    {path text : String} {s : Settings} (hparse : parse path text = .ok s) :
    0 < s.maxStackSize ∧ 0 < s.maxCallDepth := by
  unfold parse at hparse
  split at hparse
  next => cases hparse
  next => exact limits_pos_of_validate hparse

end Settings

namespace Session

open Machine

variable {β : Type}

/-! ## Sessions with room for a frame -/

section Room

variable {s : Session β}

theorem AtRest.room
    (hs : s.AtRest) (hdepth : 0 < s.settings.maxCallDepth) :
    s.machine.calls.depth < s.machine.calls.limit := by
  rw [hs.bare.limit_eq, CallStack.depth, hs.frames]
  exact hdepth

variable [Host β]

/-- A program that can be read is run in the only frame that is active. -/
theorem AtRest.call_starts
    (hs : s.AtRest) (hdepth : 0 < s.settings.maxCallDepth) {c : Call β} {lines : List String}
    (hc : c.program? = some lines) {program : List Instruction}
    (hparse : Source.parse lines = .ok program) (fuel : Nat) :
    let f := s.globalFrame (.ofInstructions program)
    (s.started f).calls.frames = [f] ∧
      ∃ output, (s.call fuel c).ending =
        (runFrom fuel (s.started f) output).ending.mapError .run := by
  intro f
  obtain ⟨output, hending, -⟩ := run_of_room (f := f) (hs.room hdepth) fuel
  refine ⟨?_, output, ?_⟩
  · rw [started, hs.frames]
  · rw [call_program hc, runLines, hparse]
    dsimp only
    rw [runProgram, hending]

theorem AtRest.call_ne_setup
    (hs : s.AtRest) (hdepth : 0 < s.settings.maxCallDepth) (fuel : Nat) (c : Call β)
    (cause : Fault) :
    (s.call fuel c).ending ≠ .failed (.run (.setup cause)) := by
  intro hsetup
  rcases c.register_or_program with ⟨f, rfl⟩ | ⟨lines, hc⟩
  · cases hsetup
  · rw [call_program hc, runLines] at hsetup
    split at hsetup
    next program _ =>
      have hfull := full_of_run_setup (failed_of_mapError_run hsetup)
      exact absurd (hs.room hdepth) (Nat.not_lt_of_le hfull)
    next => cases hsetup

/-- No call of a sequence fails to start, since each one finds the session at rest. -/
theorem Serves.answers_ne_setup
    {s' : Session β} {calls : List (Call β)} {answers : List (Answer ProgramError β)}
    (hserves : s.Serves calls answers s') (hs : s.AtRest)
    (hdepth : 0 < s.settings.maxCallDepth) :
    ∀ answer ∈ answers, ∀ cause, answer.ending ≠ .failed (.run (.setup cause)) := by
  induction hserves with
  | nil s => exact List.forall_mem_nil _
  | @cons s s' c calls answers fuel hreturns _ ih =>
      obtain ⟨hrest, hsettings⟩ := hs.call hreturns
      rw [← hsettings] at hdepth
      refine List.forall_mem_cons.mpr ⟨?_, ih hrest hdepth⟩
      intro cause
      exact hs.call_ne_setup (hsettings ▸ hdepth) fuel c cause

end Room

/-- With settings that a document gives, and whatever flags of a run on top of them, no
call of a session ever fails to start, however the calls before it ended: each program
that can be read is run, in the only frame that is active. -/
theorem accepted_settings_start_every_program [Host β]
    {path text : String} {settings : Settings} (hparse : Settings.parse path text = .ok settings)
    (trace keepGoing : Bool) {calls : List (Call β)} {answers : List (Answer ProgramError β)}
    {s : Session β} (hserves : (new (settings.withFlags trace keepGoing)).Serves calls answers s) :
    (∀ answer ∈ answers, ∀ cause, answer.ending ≠ .failed (.run (.setup cause))) ∧
      (∀ fuel c cause, (s.call fuel c).ending ≠ .failed (.run (.setup cause))) ∧
      ∀ fuel c lines program, c.program? = some lines → Source.parse lines = .ok program →
        let f := s.globalFrame (.ofInstructions program)
        (s.started f).calls.frames = [f] ∧
          ∃ output, (s.call fuel c).ending =
            (runFrom fuel (s.started f) output).ending.mapError .run := by
  have hdepth : 0 < settings.maxCallDepth := (Settings.limits_pos_of_parse hparse).2
  have hnew := atRest_new (β := β) (settings.withFlags trace keepGoing)
  obtain ⟨hs, hsettings⟩ := hserves.atRest hnew
  have hdepth' : 0 < s.settings.maxCallDepth := by
    rw [hsettings]
    exact hdepth
  refine ⟨hserves.answers_ne_setup hnew hdepth, ?_, ?_⟩
  · intro fuel c cause
    exact hs.call_ne_setup hdepth' fuel c cause
  · intro fuel c lines program hc hprogram
    exact hs.call_starts hdepth' hc hprogram fuel

/-- There is room for one frame.  A program that fails and one that cannot be read do
not take it away from the next. -/
theorem accepted_settings_start_every_program_again :
    let settings : Settings := { maxCallDepth := 1 }
    let failing : Call Standard := .text "LOAD_CONST 1\nPOP_TOP\nPOP_TOP"
    let unreadable : Call Standard := .lines ["STORE x"]
    let returning : Call Standard := .lines ["LOAD_CONST 1", "RETURN_VAL"]
    Settings.parse "vm.toml" "[limits]\nmax_call_depth = 1\n" = .ok settings ∧
      ∃ answers s, (new (settings.withFlags true true)).Serves [failing, unreadable] answers s ∧
        (∀ cause, (s.call 3 returning).ending ≠ .failed (.run (.setup cause))) ∧
        (s.call 3 returning).ending = .finished (some (.int 1)) := by
  intro settings failing unreadable returning
  have hparse : Settings.parse "vm.toml" "[limits]\nmax_call_depth = 1\n" = .ok settings := by
    decide +kernel
  have hserves : (new (settings.withFlags true true)).Serves [failing, unreadable] _ _ :=
    .cons 3 nofun (.cons 0 nofun (.nil _))
  obtain ⟨-, hstarts, -⟩ := accepted_settings_start_every_program hparse true true hserves
  exact ⟨hparse, _, _, hserves, hstarts 3 returning, rfl⟩

end Session

end Stackline
