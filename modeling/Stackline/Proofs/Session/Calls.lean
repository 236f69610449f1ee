import Stackline.Proofs.Session.Cleanup

/-!
# Sessions are determined by their globals

A host uses a session by one call after the other: it binds native functions and
runs programs, some of which fail.  Between two calls a session is at rest.  No
frame is active and the global scope is the only one, so all that an earlier call
can have left for a later one is what it has bound there.

A call that does not come to an end has no answer.  `Session.Serves` therefore
speaks of calls that all return, each after as many steps as it needs, and the
number of steps that were allowed does not show in the answers.
-/

namespace Stackline

variable {β : Type}

/-! ## Arenas that hold the global scope alone -/

namespace Arena

theorem slots_set_of_nil
    {a b : Arena β} (hslots : a.slots = []) {id : ScopeId} {name : String} {v : Value β}
    (hset : a.set id name v = .ok b) :
    b.slots = [] := by
  rcases id with ⟨_ | slot⟩
  · cases hset
    exact hslots
  · simp [set, hslots] at hset

theorem slots_release_of_nil
    {a : Arena β} (hslots : a.slots = []) (id : ScopeId) :
    (a.release id).slots = [] := by
  rcases id with ⟨_ | slot⟩
  · exact hslots
  · simp [release, hslots, dropFree]

theorem slots_releaseAll_of_nil
    {a : Arena β} (hslots : a.slots = []) (ids : List ScopeId) :
    (a.releaseAll ids).slots = [] := by
  induction ids generalizing a with
  | nil => exact hslots
  | cons id rest ih => exact ih (slots_release_of_nil hslots id)

theorem live_iff_of_nil
    {a : Arena β} (hslots : a.slots = []) (id : ScopeId) :
    a.Live id ↔ id = .global := by
  rcases id with ⟨_ | slot⟩
  · exact iff_of_true rfl rfl
  · refine iff_of_false ?_ nofun
    rw [not_live_iff, scope?_succ, hslots]
    rfl

end Arena

namespace Machine

/-- The machine is set up like this and holds the global scope alone. -/
structure Bare (limit : Nat) (tracing : Bool) (m : Machine β) : Prop where
  limit_eq : m.calls.limit = limit
  tracing_eq : m.tracing = tracing
  slots : m.scopes.slots = []

theorem bare_step [Host β]
    {limit : Nat} {tracing : Bool} {m : Machine β} (hm : m.Bare limit tracing) :
    m.step.machine.Bare limit tracing := by
  obtain ⟨hlimit, htracing⟩ := m.step_keeps_setup
  refine ⟨hlimit.trans hm.limit_eq, htracing.trans hm.tracing_eq, ?_⟩
  cases m.scopeEffect_step with
  | kept _ hscopes =>
      rw [hscopes]
      exact hm.slots
  | written _ _ _ _ _ hset => exact Arena.slots_set_of_nil hm.slots hset
  | released id _ hscopes =>
      rw [hscopes]
      exact Arena.slots_release_of_nil hm.slots id

theorem bare_runFrom [Host β]
    {limit : Nat} {tracing : Bool} {m : Machine β} (hm : m.Bare limit tracing)
    (fuel : Nat) (output : Output β) :
    (runFrom fuel m output).machine.Bare limit tracing := by
  refine runFrom_induction (P := Bare limit tracing) ?_ ?_ fuel hm output
  · intro m hm
    exact bare_step hm
  · intro m hm
    exact ⟨hm.limit_eq, hm.tracing_eq, hm.slots⟩

end Machine

/-! ## Sessions at rest -/

/-- What a host sees of a call. -/
structure Answer (ε β : Type) where
  ending : Ending ε β
  output : Output β
  globals : Bindings β

/-- The answer that a run gives. -/
def Run.answer {ε : Type} (r : Run ε β) : Answer ε β :=
  { ending := r.ending, output := r.output, globals := r.session.globals }

namespace Session

open Machine

/-- No frame is active and no scope is left but the global one. -/
structure AtRest (s : Session β) : Prop where
  frames : s.machine.calls.frames = []
  bare : s.machine.Bare s.settings.maxCallDepth s.settings.trace

theorem atRest_new (settings : Settings) :
    (new settings : Session β).AtRest :=
  ⟨rfl, rfl, rfl, rfl⟩

theorem AtRest.register
    {s : Session β} (hs : s.AtRest) (f : Native β) :
    (s.register f).AtRest :=
  ⟨hs.frames, hs.bare.limit_eq, hs.bare.tracing_eq, hs.bare.slots⟩

theorem bare_unwind
    {limit : Nat} {tracing : Bool} {m : Machine β} (hm : m.Bare limit tracing) :
    (unwind m).Bare limit tracing :=
  ⟨hm.limit_eq, hm.tracing_eq, Arena.slots_releaseAll_of_nil hm.slots _⟩

theorem run_settings [Host β]
    (fuel : Nat) (s : Session β) (f : Frame β) :
    (s.run fuel f).session.settings = s.settings := by
  simp only [run]
  split
  next => rfl
  next => split <;> rfl

/-- A session is at rest after a run that has returned, whether it succeeded,
failed or could not start. -/
theorem AtRest.run [Host β]
    {s : Session β} (hs : s.AtRest) {fuel : Nat} {f : Frame β}
    (hreturns : (s.run fuel f).ending ≠ .unfinished) :
    (s.run fuel f).session.AtRest := by
  suffices hclean : (s.run fuel f).session.machine.calls.frames = [] ∧
      (s.run fuel f).session.machine.Bare s.settings.maxCallDepth s.settings.trace by
    refine ⟨hclean.1, ?_⟩
    rw [run_settings]
    exact hclean.2
  by_cases hroom : s.machine.calls.depth < s.machine.calls.limit
  · obtain ⟨output, hending, hmachine⟩ := run_of_room (f := f) hroom fuel
    have hstarted : (s.started f).Bare s.settings.maxCallDepth s.settings.trace :=
      ⟨hs.bare.limit_eq, hs.bare.tracing_eq, hs.bare.slots⟩
    have hbare := bare_runFrom hstarted fuel output
    rw [hending] at hreturns
    rw [hmachine]
    cases hx : (runFrom fuel (s.started f) output).ending with
    | finished value => exact ⟨frames_eq_nil_of_runFrom_finished hx, hbare⟩
    | failed e => exact ⟨unwind_frames _, bare_unwind hbare⟩
    | unfinished => exact absurd hx hreturns
  · obtain ⟨-, hmachine⟩ := run_of_full f (Nat.le_of_not_lt hroom) fuel
    rw [hmachine]
    exact ⟨unwind_frames _, bare_unwind hs.bare⟩

/-- A session that has bound these globals and done nothing else. -/
def fresh (settings : Settings) (globals : Bindings β) : Session β :=
  (new settings).withScopes { globals, slots := [] }

/-- A run neither sees nor shows in which state an earlier one has left the
machine. -/
theorem answer_run_of_forget [Host β]
    (s : Session β) (status : Status) (returned : Option (Value β)) (fuel : Nat) (f : Frame β) :
    (({ s with machine := { s.machine with status, returned } } : Session β).run fuel f).answer =
      (s.run fuel f).answer := by
  simp only [run]
  cases s.machine.calls.push f with
  | error cause => rfl
  | ok calls => rfl

/-- A session at rest runs a frame like a fresh one with its globals. -/
theorem AtRest.answer_run [Host β]
    {s : Session β} (hs : s.AtRest) (fuel : Nat) (f : Frame β) :
    (s.run fuel f).answer = ((fresh s.settings s.globals).run fuel f).answer := by
  rcases s with ⟨settings, ⟨status, tracing, returned, ⟨limit, frames⟩, ⟨globals, slots⟩⟩⟩
  obtain ⟨hframes, hlimit, htracing, hslots⟩ := hs
  dsimp only at hframes hlimit htracing hslots
  subst hframes hlimit htracing hslots
  exact answer_run_of_forget (fresh settings globals) status returned fuel f

/-! ## Calls -/

/-- One use of a session by its host. -/
inductive Call (β : Type) where
  /-- Binds a native function. -/
  | register (f : Native β)
  /-- Runs a program given as text. -/
  | text (source : String)
  /-- Runs a program given by its lines. -/
  | lines (program : List String)

/-- The lines of the program that a call runs. -/
def Call.program? : Call β → Option (List String)
  | .register _ => none
  | .text source => some (Source.load source)
  | .lines program => some program

/-- What a call comes to. -/
def call [Host β] (fuel : Nat) (s : Session β) : Call β → Run ProgramError β
  | .register f => { session := s.register f, ending := .finished none, output := .empty }
  | .text source => s.runText fuel source
  | .lines program => s.runLines fuel program

/-- The session `s` answers calls, one after the other, each of which returns,
and is `s'` afterwards. -/
inductive Serves [Host β] :
    Session β → List (Call β) → List (Answer ProgramError β) → Session β → Prop where
  | nil (s : Session β) : Serves s [] [] s
  | cons {s s' : Session β} {c : Call β} {calls : List (Call β)}
      {answers : List (Answer ProgramError β)} (fuel : Nat)
      (hreturns : (s.call fuel c).ending ≠ .unfinished)
      (hrest : Serves (s.call fuel c).session calls answers s') :
      Serves s (c :: calls) ((s.call fuel c).answer :: answers) s'

theorem mapError_ne_unfinished_iff
    {ε δ : Type} {g : ε → δ} {ending : Ending ε β} :
    ending.mapError g ≠ .unfinished ↔ ending ≠ .unfinished := by
  cases ending <;> simp [Ending.mapError]

theorem mapError_eq_finished_iff
    {ε δ : Type} {g : ε → δ} {ending : Ending ε β} {value : Option (Value β)} :
    ending.mapError g = .finished value ↔ ending = .finished value := by
  cases ending <;> simp [Ending.mapError]

/-- A call of a program runs it on the globals, unless it cannot be read. -/
theorem call_program [Host β]
    {c : Call β} {lines : List String} (hc : c.program? = some lines) (fuel : Nat)
    (s : Session β) :
    s.call fuel c = s.runLines fuel lines := by
  cases c with
  | register f => cases hc
  | text source =>
      cases hc
      rfl
  | lines program =>
      cases hc
      rfl

theorem Call.register_or_program
    (c : Call β) :
    (∃ f, c = .register f) ∨ ∃ lines, c.program? = some lines := by
  cases c with
  | register f => exact .inl ⟨f, rfl⟩
  | text source => exact .inr ⟨Source.load source, rfl⟩
  | lines program => exact .inr ⟨program, rfl⟩

theorem AtRest.call [Host β]
    {s : Session β} (hs : s.AtRest) {fuel : Nat} {c : Call β}
    (hreturns : (s.call fuel c).ending ≠ .unfinished) :
    (s.call fuel c).session.AtRest ∧ (s.call fuel c).session.settings = s.settings := by
  rcases c.register_or_program with ⟨f, rfl⟩ | ⟨lines, hc⟩
  · exact ⟨hs.register f, rfl⟩
  · rw [call_program hc] at hreturns ⊢
    simp only [runLines] at hreturns ⊢
    split at hreturns
    next program hparse =>
      simp only [runProgram, mapError_ne_unfinished_iff] at hreturns
      exact ⟨hs.run hreturns, run_settings _ _ _⟩
    next => exact ⟨hs, rfl⟩

/-- A session at rest answers a call like a fresh one with its globals. -/
theorem AtRest.answer_call [Host β]
    {s : Session β} (hs : s.AtRest) (fuel : Nat) (c : Call β) :
    (s.call fuel c).answer = ((fresh s.settings s.globals).call fuel c).answer := by
  rcases c.register_or_program with ⟨f, rfl⟩ | ⟨lines, hc⟩
  · rfl
  · rw [call_program hc, call_program hc]
    simp only [runLines]
    split
    next program hparse =>
      have hrun := hs.answer_run fuel (s.globalFrame (.ofInstructions program))
      simp only [Run.answer, Answer.mk.injEq] at hrun
      obtain ⟨hending, houtput, hglobals⟩ := hrun
      simp only [Run.answer, runProgram, hending, houtput, hglobals]
      rfl
    next => rfl

/-! ## The number of steps does not show -/

/-- More fuel changes nothing about a run that has returned. -/
theorem run_add [Host β]
    {fuel : Nat} {s : Session β} {f : Frame β}
    (hreturns : (s.run fuel f).ending ≠ .unfinished) (more : Nat) :
    s.run (fuel + more) f = s.run fuel f := by
  simp only [run] at hreturns ⊢
  cases hpush : s.machine.calls.push f with
  | error cause => rfl
  | ok calls =>
      simp only [hpush, execute] at hreturns ⊢
      rw [runFrom_add ?_ more]
      intro hunfinished
      simp only [hunfinished] at hreturns
      exact hreturns rfl

theorem call_add [Host β]
    {fuel : Nat} {s : Session β} {c : Call β}
    (hreturns : (s.call fuel c).ending ≠ .unfinished) (more : Nat) :
    s.call (fuel + more) c = s.call fuel c := by
  rcases c.register_or_program with ⟨f, rfl⟩ | ⟨lines, hc⟩
  · rfl
  · rw [call_program hc] at hreturns
    rw [call_program hc, call_program hc]
    simp only [runLines] at hreturns ⊢
    split at hreturns
    next program hparse =>
      simp only [runProgram, mapError_ne_unfinished_iff] at hreturns
      simp only [runProgram, run_add hreturns more]
    next => rfl

/-- A call that returns within two numbers of steps gives the same in both. -/
theorem call_eq_of_returns [Host β]
    {fuel fuel' : Nat} {s : Session β} {c : Call β}
    (hreturns : (s.call fuel c).ending ≠ .unfinished)
    (hreturns' : (s.call fuel' c).ending ≠ .unfinished) :
    s.call fuel c = s.call fuel' c := by
  calc
    s.call fuel c = s.call (fuel + fuel') c := (call_add hreturns fuel').symm
    _ = s.call (fuel' + fuel) c := by rw [Nat.add_comm]
    _ = s.call fuel' c := call_add hreturns' fuel

/-! ## Sequences of calls -/

theorem Serves.atRest [Host β]
    {s s' : Session β} {calls : List (Call β)} {answers : List (Answer ProgramError β)}
    (hserves : s.Serves calls answers s') (hs : s.AtRest) :
    s'.AtRest ∧ s'.settings = s.settings := by
  induction hserves with
  | nil s => exact ⟨hs, rfl⟩
  | cons fuel hreturns _ ih =>
      obtain ⟨hcall, hsettings⟩ := hs.call hreturns
      obtain ⟨hrest, hsettings'⟩ := ih hcall
      exact ⟨hrest, hsettings'.trans hsettings⟩

/-- A session gives one sequence of answers to a sequence of calls. -/
theorem Serves.unique [Host β]
    {s s₁ s₂ : Session β} {calls : List (Call β)}
    {answers₁ answers₂ : List (Answer ProgramError β)}
    (h₁ : s.Serves calls answers₁ s₁) (h₂ : s.Serves calls answers₂ s₂) :
    answers₁ = answers₂ ∧ s₁ = s₂ := by
  induction h₁ generalizing answers₂ s₂ with
  | nil s =>
      cases h₂
      exact ⟨rfl, rfl⟩
  | cons fuel hreturns _ ih =>
      cases h₂ with
      | cons fuel' hreturns' hrest' =>
          -- The two may have allowed the call different numbers of steps.
          rw [call_eq_of_returns hreturns' hreturns] at hrest' ⊢
          obtain ⟨rfl, rfl⟩ := ih hrest'
          exact ⟨rfl, rfl⟩

/-- Sessions at rest with the same settings and globals give the same answers. -/
theorem Serves.of_globals_eq [Host β]
    {s s' t : Session β} {calls : List (Call β)} {answers : List (Answer ProgramError β)}
    (hserves : s.Serves calls answers s') (hs : s.AtRest) (ht : t.AtRest)
    (hsettings : s.settings = t.settings) (hglobals : s.globals = t.globals) :
    ∃ t', t.Serves calls answers t' ∧ s'.globals = t'.globals := by
  induction hserves generalizing t with
  | nil s => exact ⟨t, .nil t, hglobals⟩
  | @cons s s' c calls answers fuel hreturns _ ih =>
      have hanswer : (s.call fuel c).answer = (t.call fuel c).answer := by
        rw [hs.answer_call, ht.answer_call, hsettings, hglobals]
      have hending : (s.call fuel c).ending = (t.call fuel c).ending :=
        congrArg Answer.ending hanswer
      have hreturns' : (t.call fuel c).ending ≠ .unfinished := by
        rw [← hending]
        exact hreturns
      obtain ⟨hs', hsettings₁⟩ := hs.call hreturns
      obtain ⟨ht', hsettings₂⟩ := ht.call hreturns'
      have hsettings' : (s.call fuel c).session.settings = (t.call fuel c).session.settings := by
        rw [hsettings₁, hsettings₂, hsettings]
      obtain ⟨t', hrest, hlast⟩ := ih hs' ht' hsettings' (congrArg Answer.globals hanswer)
      rw [hanswer]
      exact ⟨t', .cons fuel hreturns' hrest, hlast⟩

/-- After any calls that have returned, no frame is active and the global scope is
the only one alive; a program that cannot be read changes nothing; and the answers
to all further calls depend on the settings and the globals alone. -/
theorem calls_leave_nothing_but_globals [Host β]
    {settings : Settings} {calls calls' : List (Call β)}
    {answers answers' : List (Answer ProgramError β)} {s t : Session β}
    (hs : (new settings).Serves calls answers s)
    (ht : (new settings).Serves calls' answers' t) :
    (s.machine.calls.frames = [] ∧ ∀ id, s.machine.scopes.Live id ↔ id = .global) ∧
      (∀ fuel c lines fault, c.program? = some lines → Source.parse lines = .error fault →
        (s.call fuel c).ending = .failed (.source (.faulty fault)) ∧
          (s.call fuel c).session.globals = s.globals) ∧
      (s.globals = t.globals → ∀ further given s', s.Serves further given s' →
        ∃ t', t.Serves further given t' ∧ s'.globals = t'.globals ∧
          ∀ others t'', t.Serves further others t'' → others = given ∧ t'' = t') := by
  obtain ⟨hrest, hsettings⟩ := hs.atRest (atRest_new settings)
  obtain ⟨hrest', hsettings'⟩ := ht.atRest (atRest_new settings)
  refine ⟨⟨hrest.frames, Arena.live_iff_of_nil hrest.bare.slots⟩, ?_, ?_⟩
  · intro fuel c lines fault hc hparse
    rw [call_program hc, runLines, hparse]
    exact ⟨rfl, rfl⟩
  · intro hglobals further given s' hserves
    obtain ⟨t', ht', hlast⟩ :=
      hserves.of_globals_eq hrest hrest' (hsettings.trans hsettings'.symm) hglobals
    exact ⟨t', ht', hlast, fun others t'' ht'' => ht''.unique ht'⟩

/-- A program that stores a variable and then fails leaves the machine otherwise
than one that stores the same and ends.  A program that returns the variable gets
the same answer after both. -/
theorem calls_leave_nothing_but_globals_after_failure :
    let left (status : Status) : Session Standard :=
      { settings := {}
        machine :=
          { status, tracing := false, returned := none, calls := .empty 256
            scopes := { globals := [("x", .int 1)], slots := [] } } }
    let failing : Call Standard := .text "LOAD_CONST 1\nSTORE_VAR x\nPOP_TOP"
    let unreadable : Call Standard := .lines ["STORE x"]
    let storing : Call Standard := .lines ["LOAD_CONST 1", "STORE_VAR x"]
    let returning : Call Standard := .lines ["LOAD_VAR x", "RETURN_VAL"]
    (∃ answers, (new {}).Serves [failing] answers (left .running)) ∧
      (∃ answers, (new {}).Serves [unreadable, storing] answers (left .halted)) ∧
      ((left .running).call 3 returning).ending = .finished (some (.int 1)) ∧
      ∃ t', (left .halted).Serves [returning] [((left .running).call 3 returning).answer] t' := by
  intro left failing unreadable storing returning
  have hs : (new {}).Serves [failing] [((new {}).call 3 failing).answer] (left .running) := by
    have hcall : (new {}).call 3 failing = (new {}).runProgram 3
        [⟨.loadConst, ["1"]⟩, ⟨.storeVar, ["x"]⟩, ⟨.popTop, []⟩] := by
      rw [call_program rfl, runLines]
      rfl
    have hsession : ((new {}).call 3 failing).session = left .running := by
      rw [hcall]
      rfl
    rw [← hsession]
    refine .cons 3 ?_ (.nil _)
    rw [hcall]
    nofun
  have ht : (new {}).Serves [unreadable, storing]
      [((new {}).call 0 unreadable).answer, ((new {}).call 3 storing).answer]
      (left .halted) := by
    have hcall : (new {}).call 3 storing = (new {}).runProgram 3
        [⟨.loadConst, ["1"]⟩, ⟨.storeVar, ["x"]⟩] := by
      rw [call_program rfl, runLines]
      rfl
    have hsession : ((new {}).call 3 storing).session = left .halted := by
      rw [hcall]
      rfl
    have hunread : ((new {}).call 0 unreadable).session = new {} := rfl
    rw [← hsession]
    refine .cons 0 nofun ?_
    rw [hunread]
    refine .cons 3 ?_ (.nil _)
    rw [hcall]
    nofun
  have hending : ((left .running).call 3 returning).ending = .finished (some (.int 1)) := rfl
  have hreturns : (left .running).Serves [returning]
      [((left .running).call 3 returning).answer] ((left .running).call 3 returning).session := by
    refine .cons 3 ?_ (.nil _)
    rw [hending]
    nofun
  obtain ⟨-, -, hagree⟩ := calls_leave_nothing_but_globals hs ht
  obtain ⟨t', ht', -⟩ := hagree rfl [returning] _ _ hreturns
  exact ⟨⟨_, hs⟩, ⟨_, ht⟩, hending, t', ht'⟩

end Session
end Stackline
