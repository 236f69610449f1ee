import Stackline.Proofs.Files.View
import Stackline.Proofs.Session.Faults

/-!
# Batches of files

Several files run in one session.  With the setting to halt on errors the first file
that fails is the last one to be attempted, without it all of them are.  The two differ
in nothing else: a batch that halts prints and leaves what a batch that keeps going does
on the files that were attempted.
-/

namespace Stackline

variable {β : Type}

/-! ## The run of one file -/

namespace Session

/-- The session with the setting to halt on errors or to keep going. -/
def withHalt (s : Session β) (halt : Bool) : Session β :=
  { s with settings := { s.settings with haltOnError := halt } }

end Session

/-- The run in a session that halts on errors or keeps going. -/
def Run.withHalt {ε : Type} (r : Run ε β) (halt : Bool) : Run ε β :=
  { r with session := r.session.withHalt halt }

namespace Session

open Machine

variable [Host β]

/-- What the run of a file comes to whose text is given, or the fault in reading it. -/
def runContent (fuel : Nat) (s : Session β) (path : String)
    (text : Except FileFault String) : Run ProgramError β :=
  let r := match text with
    | .ok text => s.runText fuel text
    | .error fault =>
      { session := s, ending := .failed (.source (.unreadable path fault)), output := .empty }
  r.precededBy (.loading path)

theorem result_runFile_bind {m : Type → Type} [Monad m] [LawfulMonad m] [MonadFiles m]
    (view : FileView m) {α : Type} (fuel : Nat) (s : Session β) (path : String)
    (next : Run ProgramError β → m α) :
    view.result (s.runFile fuel path >>= next) =
      view.result (next (s.runContent fuel path (view.text path))) := by
  simp only [runFile, bind_assoc, view.result_loadFile_bind]
  cases view.text path with
  | ok text => simp only [Except.mapError, Except.map, pure_bind, runContent, runText]
  | error fault => simp only [Except.mapError, Except.map, pure_bind, runContent]

/-! The setting to halt on errors is for batches.  A run keeps it and does not look at it. -/

theorem runLines_settings
    (fuel : Nat) (s : Session β) (lines : List String) :
    (s.runLines fuel lines).session.settings = s.settings := by
  unfold runLines
  split
  next => exact run_settings _ _ _
  next => rfl

theorem runContent_settings
    (fuel : Nat) (s : Session β) (path : String) (text : Except FileFault String) :
    (s.runContent fuel path text).session.settings = s.settings := by
  cases text with
  | ok text => exact runLines_settings fuel s (Source.load text)
  | error fault => rfl

theorem run_withHalt
    (fuel : Nat) (s : Session β) (halt : Bool) (f : Frame β) :
    (s.withHalt halt).run fuel f = (s.run fuel f).withHalt halt := by
  have hmachine : (s.withHalt halt).machine = s.machine := rfl
  simp only [run, hmachine]
  cases s.machine.calls.push f with
  | error cause => rfl
  | ok calls =>
      dsimp only
      split <;> rfl

theorem runLines_withHalt
    (fuel : Nat) (s : Session β) (halt : Bool) (lines : List String) :
    (s.withHalt halt).runLines fuel lines = (s.runLines fuel lines).withHalt halt := by
  unfold runLines
  split
  next program _ =>
    have hframe : (s.withHalt halt).globalFrame (.ofInstructions program) =
        s.globalFrame (.ofInstructions program) := rfl
    simp only [runProgram, hframe, run_withHalt]
    rfl
  next => rfl

theorem runContent_withHalt
    (fuel : Nat) (s : Session β) (halt : Bool) (path : String) (text : Except FileFault String) :
    (s.withHalt halt).runContent fuel path text =
      (s.runContent fuel path text).withHalt halt := by
  cases text with
  | ok text =>
      simp only [runContent, runText, runLines_withHalt, Run.precededBy, Run.withHalt]
  | error fault => rfl

end Session

/-! ## One file after the other -/

/-- A file that is run, and the session before. -/
structure Visit (β : Type) where
  path : String
  before : Session β
  run : Run ProgramError β

namespace Visit

/-- The run did not come to its end: the file could not be read, is no program or fails,
or there was not enough fuel. -/
def fails (v : Visit β) : Bool :=
  match v.run.ending with
  | .finished _ => false
  | _ => true

/-- What the file adds to standard output: what the program printed, and its value. -/
def printed (v : Visit β) : String :=
  v.run.output.printed ++ Batch.valueLine v.run.ending

/-- The visit in a session that halts on errors or keeps going. -/
def withHalt (v : Visit β) (halt : Bool) : Visit β :=
  { v with before := v.before.withHalt halt, run := v.run.withHalt halt }

theorem isSome_failure?
    (v : Visit β) :
    (Batch.failure? v.run.ending).isSome = v.fails := by
  unfold fails Batch.failure?
  cases v.run.ending <;> rfl

end Visit

namespace Session

variable [Host β]

/-- The files run one after the other, each in the session that the one before has left,
whether it failed or not. -/
def visits (fuel : Nat) (text : String → Except FileFault String) :
    List String → Session β → List (Visit β)
  | [], _ => []
  | path :: rest, s =>
    let run := s.runContent fuel path (text path)
    { path, before := s, run } :: visits fuel text rest run.session

section Visits

variable {fuel : Nat} {text : String → Except FileFault String}

theorem path_visits
    (files : List String) (s : Session β) :
    (s.visits fuel text files).map Visit.path = files := by
  induction files generalizing s with
  | nil => rfl
  | cons path rest ih =>
      rw [visits, List.map_cons, ih]

theorem visits_take
    (n : Nat) (files : List String) (s : Session β) :
    s.visits fuel text (files.take n) = (s.visits fuel text files).take n := by
  induction files generalizing n s with
  | nil => rw [List.take_nil, visits, List.take_nil]
  | cons path rest ih =>
      cases n with
      | zero => rfl
      | succ n => rw [List.take_succ_cons, visits, visits, List.take_succ_cons, ih]

theorem visits_withHalt
    (files : List String) (s : Session β) (halt : Bool) :
    (s.withHalt halt).visits fuel text files =
      (s.visits fuel text files).map (Visit.withHalt · halt) := by
  induction files generalizing s with
  | nil => rfl
  | cons path rest ih =>
      have hsession : ((s.runContent fuel path (text path)).withHalt halt).session =
          (s.runContent fuel path (text path)).session.withHalt halt := rfl
      rw [visits, visits, List.map_cons, runContent_withHalt, hsession, ih]
      rfl

end Visits

end Session

/-! ## Batches -/

theorem Event.level_ne_info
    (e : Event β) :
    e.level ≠ .info := by
  intro hinfo
  cases e <;> cases hinfo

namespace Batch

/-- The batch after files that were run. -/
def followAll (b : Batch β) (vs : List (Visit β)) : Batch β :=
  vs.foldl (fun b v => b.follow v.path v.run) b

/-- The files that a batch has announced in its log. -/
def announced (b : Batch β) : List String :=
  (b.log.filter fun r => r.level = .info).map Record.message

theorem followAll_cons
    (b : Batch β) (v : Visit β) (vs : List (Visit β)) :
    b.followAll (v :: vs) = (b.follow v.path v.run).followAll vs :=
  rfl

theorem printed_followAll
    (b : Batch β) (vs : List (Visit β)) :
    (b.followAll vs).printed = b.printed ++ String.join (vs.map Visit.printed) := by
  induction vs generalizing b with
  | nil => exact String.append_empty.symm
  | cons v vs ih =>
      have hfollow : (b.follow v.path v.run).printed = b.printed ++ v.printed :=
        String.append_assoc
      rw [followAll_cons, ih, hfollow, List.map_cons, String.join_cons, String.append_assoc]

theorem globals_followAll
    (b : Batch β) (vs : List (Visit β)) :
    (b.followAll vs).session.globals =
      (vs.getLast?.map (·.run.session.globals)).getD b.session.globals := by
  induction vs generalizing b with
  | nil => rfl
  | cons v vs ih =>
      rw [followAll_cons, ih, List.getLast?_cons]
      cases vs.getLast? with
      | none => rfl
      | some last => rfl

theorem failed_followAll
    (b : Batch β) (vs : List (Visit β)) :
    (b.followAll vs).failed = (b.failed || vs.any Visit.fails) := by
  induction vs generalizing b with
  | nil => exact (Bool.or_false _).symm
  | cons v vs ih =>
      have hfollow : (b.follow v.path v.run).failed = (b.failed || v.fails) := by
        rw [← v.isSome_failure?]
        rfl
      rw [followAll_cons, ih, hfollow, List.any_cons, Bool.or_assoc]

theorem filter_info_filter_kept
    (tracing : Bool) (records : List Record) :
    (records.filter (Record.kept tracing)).filter (fun r => r.level = .info) =
      records.filter fun r => r.level = .info := by
  rw [List.filter_filter]
  refine List.filter_congr ?_
  intro r _
  by_cases hinfo : r.level = .info
  · simp [hinfo, Record.kept]
  · simp [hinfo]

/-- Nothing but the announcement of a file is told at its level. -/
theorem announced_follow
    (b : Batch β) (path : String) (r : Run ProgramError β) :
    (b.follow path r).announced = b.announced ++ [s!"running {path}"] := by
  have hevents : ∀ e ∈ r.output.events.toList.map Event.record,
      ¬decide (e.level = .info) = true := by
    intro e he hinfo
    obtain ⟨event, -, rfl⟩ := List.mem_map.mp he
    exact event.level_ne_info (of_decide_eq_true hinfo)
  have htold : failureLevel b.session.settings ≠ .info := by
    intro hinfo
    unfold failureLevel at hinfo
    split at hinfo <;> cases hinfo
  simp only [announced, follow, List.filter_append, List.map_append, filter_info_filter_kept]
  rw [List.filter_cons_of_pos rfl, List.filter_eq_nil_iff.mpr hevents]
  cases failure? r.ending with
  | none => rfl
  | some message => simp [htold]

theorem announced_followAll
    (b : Batch β) (vs : List (Visit β)) :
    (b.followAll vs).announced =
      b.announced ++ (vs.map Visit.path).map fun path => s!"running {path}" := by
  induction vs generalizing b with
  | nil => exact (List.append_nil _).symm
  | cons v vs ih =>
      rw [followAll_cons, ih, announced_follow, List.append_assoc, List.map_cons, List.map_cons]
      rfl

end Batch

namespace Session

variable [Host β]

/-- The files that a batch attempts: those up to the first that fails, or all of them. -/
def attempted (fuel : Nat) (text : String → Except FileFault String) (files : List String)
    (s : Session β) : List (Visit β) :=
  let all := s.visits fuel text files
  if s.settings.haltOnError then all.take (all.findIdx Visit.fails + 1) else all

theorem attempted_cons
    (fuel : Nat) (text : String → Except FileFault String) (path : String) (rest : List String)
    (s : Session β) :
    let v : Visit β := { path, before := s, run := s.runContent fuel path (text path) }
    s.attempted fuel text (path :: rest) =
      v :: if v.fails && s.settings.haltOnError then []
        else v.run.session.attempted fuel text rest := by
  intro v
  have hsettings : v.run.session.settings = s.settings := runContent_settings _ _ _ _
  have hvisits : s.visits fuel text (path :: rest) = v :: v.run.session.visits fuel text rest :=
    rfl
  simp only [attempted, hsettings, hvisits, List.findIdx_cons, List.take_succ_cons]
  by_cases hhalt : s.settings.haltOnError = true
  · by_cases hfails : v.fails = true
    · simp [hhalt, hfails]
    · simp [hhalt, hfails]
  · simp [hhalt]

end Session

/-- A batch attempts the files of its session one after the other, and nothing else. -/
theorem Batch.result_runFiles_bind [Host β] {m : Type → Type} [Monad m] [LawfulMonad m]
    [MonadFiles m] (view : FileView m) (fuel : Nat) (files : List String) (b : Batch β)
    {α : Type} (next : Batch β → m α) :
    view.result (Batch.runFiles fuel files b >>= next) =
      view.result (next (b.followAll (b.session.attempted fuel view.text files))) := by
  induction files generalizing b with
  | nil =>
      have hnone : b.session.attempted fuel view.text [] = [] := by
        unfold Session.attempted
        split <;> rfl
      rw [runFiles, pure_bind, hnone]
      rfl
  | cons path rest ih =>
      let v : Visit β :=
        { path, before := b.session
          run := b.session.runContent fuel path (view.text path) }
      have hfails : (failure? v.run.ending).isSome = v.fails := v.isSome_failure?
      rw [runFiles, bind_assoc, Session.result_runFile_bind, Session.attempted_cons,
        followAll_cons]
      change view.result ((if ((failure? v.run.ending).isSome && _) = true then _ else _) >>= _) =
        view.result (next ((b.follow v.path v.run).followAll
          (if (v.fails && _) = true then _ else _)))
      rw [hfails]
      by_cases hhalts : (v.fails && b.session.settings.haltOnError) = true
      · rw [if_pos hhalts, if_pos hhalts, pure_bind]
        rfl
      · rw [if_neg hhalts, if_neg hhalts]
        exact ih _

/-! ## Globals after a failure -/

namespace Session

open Machine

theorem globals_unwind
    (m : Machine β) :
    (unwind m).scopes.globals = m.scopes.globals := by
  have hglobal : (unwind m).scopes.scope? .global =
      some { parent := none, bindings := m.scopes.globals } :=
    m.scopes.scope?_releaseAll_global _
  exact congrArg Scope.bindings (Option.some.inj hglobal)

variable [Host β]

/-- The globals after a run that fails are those of the machine at the step that fails,
and the ones from before if the run could not start. -/
theorem globals_of_run_failed
    {s : Session β} {f : Frame β} {fuel : Nat} {e : RunError}
    (hfailed : (s.run fuel f).ending = .failed e) :
    (∃ cause, e = .setup cause ∧ (s.run fuel f).session.globals = s.globals) ∨
      ∃ ip opcode depth cause k m, e = .instruction ip opcode depth cause ∧
        (s.started f).steps k = .error (e, m) ∧
        (s.run fuel f).session.globals = m.scopes.globals := by
  by_cases hroom : s.machine.calls.depth < s.machine.calls.limit
  · obtain ⟨output, hending, hmachine⟩ := run_of_room (f := f) hroom fuel
    rw [hending] at hfailed
    obtain ⟨k, hsteps⟩ := exists_steps_of_runFrom_failed hfailed
    obtain ⟨ip, opcode, depth, cause, he⟩ := exists_instruction_of_runFrom_failed hfailed
    refine .inr ⟨ip, opcode, depth, cause, k, _, he, hsteps, ?_⟩
    rw [globals, hmachine, hfailed]
    exact globals_unwind _
  · obtain ⟨hending, hmachine⟩ := run_of_full f (Nat.le_of_not_lt hroom) fuel
    rw [hending] at hfailed
    cases hfailed
    refine .inl ⟨_, rfl, ?_⟩
    rw [globals, hmachine]
    exact globals_unwind _

theorem run_of_mem_visits
    {fuel : Nat} {text : String → Except FileFault String} {files : List String}
    {s : Session β} {v : Visit β} (hv : v ∈ s.visits fuel text files) :
    v.run = v.before.runContent fuel v.path (text v.path) := by
  induction files generalizing s with
  | nil => cases hv
  | cons path rest ih =>
      rcases List.mem_cons.mp hv with rfl | hrest
      · rfl
      · exact ih hrest

end Session

/-- What a failing file leaves in the globals.  If one of its instructions fails, this is
what they were at that step, with all that was stored before; and if it has run none, it
is what they were before the file. -/
def Visit.KeepsStored [Host β] (text : String → Except FileFault String) (v : Visit β) : Prop :=
  match v.run.ending with
  | .failed (.run (.instruction ip opcode depth cause)) =>
    ∃ source program k m, text v.path = .ok source ∧
      Source.parse (Source.load source) = .ok program ∧
      (v.before.started (v.before.globalFrame (.ofInstructions program))).steps k =
        .error (.instruction ip opcode depth cause, m) ∧
      v.run.session.globals = m.scopes.globals
  | .failed _ => v.run.session.globals = v.before.globals
  | _ => True

theorem Session.keepsStored_of_mem_visits [Host β]
    {fuel : Nat} {text : String → Except FileFault String} {files : List String}
    {s : Session β} {v : Visit β} (hv : v ∈ s.visits fuel text files) :
    v.KeepsStored text := by
  unfold Visit.KeepsStored
  rw [run_of_mem_visits hv]
  cases hsource : text v.path with
  | error fault => rfl
  | ok source =>
      simp only [runContent, runText, runLines]
      cases hparse : Source.parse (Source.load source) with
      | error fault => rfl
      | ok program =>
          let f := v.before.globalFrame (.ofInstructions program)
          dsimp only [Run.precededBy, runProgram]
          cases hending : (v.before.run fuel f).ending with
          | finished value => trivial
          | unfinished => trivial
          | failed e =>
              rcases globals_of_run_failed hending with
                ⟨cause, rfl, hglobals⟩ | ⟨ip, opcode, depth, cause, k, m, rfl, hsteps, hglobals⟩
              · exact hglobals
              · exact ⟨source, program, k, m, rfl, hparse, hsteps, hglobals⟩

/-! ## Halting and keeping going -/

theorem Settings.with_halt_eq
    {settings : Settings} {halt : Bool} (hhalt : settings.haltOnError = halt) :
    { settings with haltOnError := halt } = settings := by
  subst hhalt
  rfl

namespace Session

variable [Host β] {s : Session β} {fuel : Nat} {text : String → Except FileFault String}

theorem attempted_of_keepGoing
    (hgoes : s.settings.haltOnError = false) (files : List String) :
    s.attempted fuel text files = s.visits fuel text files := by
  simp [attempted, hgoes]

/-- A session that halts attempts what one that keeps going does up to the first file
that fails. -/
theorem attempted_of_halt
    (files : List String) :
    let all := s.visits fuel text files
    (s.withHalt true).attempted fuel text files =
      (all.take (all.findIdx Visit.fails + 1)).map (Visit.withHalt · true) := by
  intro all
  have hhalts : (s.withHalt true).settings.haltOnError = true := rfl
  have hsame : (Visit.fails ∘ fun v : Visit β => v.withHalt true) = Visit.fails := rfl
  rw [attempted, if_pos hhalts, visits_withHalt, List.findIdx_map, hsame, List.map_take]

end Session

namespace FileView

variable {m : Type → Type} [Monad m] [MonadFiles m]

/-- The batch of a command that runs files with the standard functions. -/
def batch (view : FileView m) (fuel : Nat) (settings : Settings) (files : List String) :
    Batch Standard :=
  view.result (Batch.runFiles fuel files (.start (.standard settings)))

variable [LawfulMonad m] (view : FileView m) (fuel : Nat) (settings : Settings)

theorem batch_eq_followAll
    (files : List String) :
    view.batch fuel settings files =
      (Batch.start (Session.standard settings)).followAll
        ((Session.standard settings).attempted fuel view.text files) := by
  rw [batch, ← bind_pure (Batch.runFiles fuel files _), Batch.result_runFiles_bind,
    view.result_pure]
  rfl

theorem batch_of_keepGoing
    (files : List String) :
    let s := Session.standard { settings with haltOnError := false }
    view.batch fuel { settings with haltOnError := false } files =
      (Batch.start s).followAll (s.visits fuel view.text files) := by
  intro s
  rw [batch_eq_followAll, Session.attempted_of_keepGoing rfl]

theorem batch_of_halt
    (files : List String) :
    let s := Session.standard { settings with haltOnError := false }
    let all := s.visits fuel view.text files
    view.batch fuel { settings with haltOnError := true } files =
      (Batch.start (s.withHalt true)).followAll
        ((all.take (all.findIdx Visit.fails + 1)).map (Visit.withHalt · true)) := by
  intro s all
  have hsession : Session.standard { settings with haltOnError := true } = s.withHalt true := rfl
  rw [batch_eq_followAll, hsession, Session.attempted_of_halt]

/-- What the command comes to whose settings are accepted. -/
theorem result_runReport
    {o : RunOptions} (hsettings : view.result (Command.runSettings o) = .ok settings) :
    view.result (Command.runReport fuel o) =
      (view.batch fuel settings o.files).report o.globals := by
  rw [Command.runReport, result_runSettings_bind, hsettings, batch_eq_followAll]
  dsimp only
  rw [Batch.result_runFiles_bind, view.result_pure]
  rfl

end FileView

/-- With the setting to halt on errors, a command attempts the files up to the first that
fails, and what it prints and leaves in the globals is the same as if it kept going and
had been given no others.  A command that keeps going attempts all files in one session,
so that a file meets the globals of the ones before it, also of those that failed.  Either
way the exit code says whether an attempted file failed.

The result is about fuel at which every attempted run ends.  At less fuel it still holds,
but then it takes a run that has not ended for a failed file. -/
theorem batch_halts_at_first_failure
    {m : Type → Type} [Monad m] [LawfulMonad m] [MonadFiles m] (view : FileView m) (fuel : Nat)
    (settings : Settings) (files : List String) :
    let halting := view.batch fuel { settings with haltOnError := true }
    let going := view.batch fuel { settings with haltOnError := false }
    let start := Session.standard { settings with haltOnError := false }
    let all := start.visits fuel view.text files
    let n := all.findIdx Visit.fails + 1
    ((halting files).announced = (files.take n).map (fun path => s!"running {path}") ∧
      (halting files).session.globals = (going (files.take n)).session.globals ∧
      ∀ showGlobals, ((halting files).report showGlobals).printed =
        ((going (files.take n)).report showGlobals).printed) ∧
    ((going files).announced = files.map (fun path => s!"running {path}") ∧
      (going files).printed = String.join (all.map Visit.printed) ∧
      (going files).session.globals =
        (all.getLast?.map (·.run.session.globals)).getD start.globals ∧
      ∀ v ∈ all, v.KeepsStored view.text) ∧
    (∀ showGlobals,
      ((halting files).report showGlobals).exitCode =
        (if (all.take n).any Visit.fails then 1 else 0) ∧
      ((going files).report showGlobals).exitCode = if all.any Visit.fails then 1 else 0) ∧
    ∀ o : RunOptions, o.files = files → view.result (Command.runSettings o) = .ok settings →
      view.result (Command.runReport fuel o) =
        (if settings.haltOnError then halting files else going files).report o.globals := by
  intro halting going start all n
  have hhalting : halting files = (Batch.start (start.withHalt true)).followAll
      ((all.take n).map (Visit.withHalt · true)) := view.batch_of_halt fuel settings files
  have hgoing : going files = (Batch.start start).followAll all :=
    view.batch_of_keepGoing fuel settings files
  have hfirst : going (files.take n) = (Batch.start start).followAll (all.take n) := by
    rw [← Session.visits_take]
    exact view.batch_of_keepGoing fuel settings (files.take n)
  have hpaths : all.map Visit.path = files := Session.path_visits files start
  -- The setting is no part of what a file prints, of the globals or of the failure.
  have hprinted : (halting files).printed = (going (files.take n)).printed := by
    rw [hhalting, hfirst, Batch.printed_followAll, Batch.printed_followAll, List.map_map]
    rfl
  have hglobals : (halting files).session.globals = (going (files.take n)).session.globals := by
    rw [hhalting, hfirst, Batch.globals_followAll, Batch.globals_followAll, List.getLast?_map,
      Option.map_map]
    rfl
  refine ⟨⟨?_, hglobals, ?_⟩, ⟨?_, ?_, ?_, ?_⟩, ?_, ?_⟩
  · have hattempted : ((all.take n).map (Visit.withHalt · true)).map Visit.path =
        files.take n := by
      rw [List.map_map, List.map_take]
      exact congrArg (List.take n) hpaths
    rw [hhalting, Batch.announced_followAll, hattempted]
    rfl
  · intro showGlobals
    rw [Batch.report, Batch.report, hprinted, hglobals]
  · rw [hgoing, Batch.announced_followAll, hpaths]
    rfl
  · rw [hgoing, Batch.printed_followAll]
    exact String.empty_append
  · rw [hgoing, Batch.globals_followAll]
    rfl
  · intro v hv
    exact Session.keepsStored_of_mem_visits hv
  · intro showGlobals
    have hsame : (Visit.fails ∘ fun v : Visit Standard => v.withHalt true) = Visit.fails := rfl
    have hfailed : (halting files).failed = (all.take n).any Visit.fails := by
      rw [hhalting, Batch.failed_followAll, List.any_map, hsame]
      exact Bool.false_or _
    have hfailed' : (going files).failed = all.any Visit.fails := by
      rw [hgoing, Batch.failed_followAll]
      exact Bool.false_or _
    rw [Batch.report, Batch.report, hfailed, hfailed']
    exact ⟨rfl, rfl⟩
  · intro o hfiles hsettings
    rw [view.result_runReport fuel settings hsettings, hfiles]
    by_cases hhalt : settings.haltOnError = true
    · rw [if_pos hhalt]
      simp only [halting, Settings.with_halt_eq hhalt]
    · rw [if_neg hhalt]
      simp only [going, Settings.with_halt_eq (Bool.eq_false_iff.mpr hhalt)]

/-- Of three files the second stores a variable and then fails.  The third would meet what
it has stored, but is attempted only by the command that keeps going. -/
theorem batch_halts_at_first_failure_second :
    let tree : FileTree :=
      { entries :=
          [(["a"], .file "LOAD_CONST 1\nSTORE_VAR x".toUTF8),
            (["b"], .file "LOAD_CONST 2\nSTORE_VAR x\nPOP_TOP".toUTF8),
            (["c"], .file "LOAD_VAR x\nRETURN_VAL".toUTF8)] }
    let files := ["a", "b", "c"]
    let halting := tree.view.batch 9 { haltOnError := true }
    let going := tree.view.batch 9 { haltOnError := false }
    (halting files).announced = ["running a", "running b"] ∧
      (halting files).session.globals = (going ["a", "b"]).session.globals ∧
      (going files).announced = ["running a", "running b", "running c"] ∧
      (going files).printed = "2\n" ∧
      ((halting files).report false).exitCode = 1 ∧
      ((going files).report false).exitCode = 1 := by
  intro tree files halting going
  let all := (Session.standard { haltOnError := false }).visits 9 tree.view.text files
  obtain ⟨hindex, hany, hany', hprints⟩ : all.findIdx Visit.fails = 1 ∧
      (all.take 2).any Visit.fails = true ∧ all.any Visit.fails = true ∧
      String.join (all.map Visit.printed) = "2\n" := by
    decide +kernel
  obtain ⟨⟨hannounced, hglobals, -⟩, ⟨hannounced', hprinted, -, -⟩, hexit, -⟩ :=
    batch_halts_at_first_failure tree.view 9 {} files
  obtain ⟨hhalts, hgoes⟩ := hexit false
  change (halting files).announced =
    (files.take (all.findIdx Visit.fails + 1)).map _ at hannounced
  change _ = (going (files.take (all.findIdx Visit.fails + 1))).session.globals at hglobals
  change _ = (if (all.take (all.findIdx Visit.fails + 1)).any _ then 1 else 0) at hhalts
  rw [hindex] at hannounced hglobals hhalts
  rw [hany] at hhalts
  exact ⟨hannounced, hglobals, hannounced', hprinted.trans hprints, hhalts,
    hgoes.trans (if_pos hany')⟩

end Stackline
