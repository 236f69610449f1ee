import Mathlib.Tactic.ByContra
import Stackline.Proofs.Machine.Run
import Stackline.Session

/-!
# What a run leaves behind

A session keeps its globals from one run to the next and nothing else.  However
a run that has started ends, all frames are gone afterwards, the scopes of these
frames are released, and every other scope is what it was.

A run that cannot start is different.  It ends the frames that were waiting and
releases their scopes, but the frame that was turned away is not among them, so
the private scope made for that frame stays in the arena.
-/

namespace Stackline

variable {β : Type}

namespace Arena

/-- How an arena compares with the one `before` a run, whose frames hold the
scopes `held` in all and of which the frames with the scopes `active` are still
there. -/
structure Tidy
    (before : Arena β) (held active : List ScopeId) (a : Arena β) : Prop where
  /-- Only scopes of the run's frames are in use. -/
  subset : ∀ id ∈ active, id ∈ held
  /-- The scopes of the frames that have ended are released. -/
  ended : ∀ id ∈ held, id ≠ .global → id ∉ active → a.scope? id = none
  /-- The scopes that no frame holds have not changed. -/
  others : ∀ id, id ∉ held → id ≠ .global → a.scope? id = before.scope? id

theorem tidy_refl
    (a : Arena β) (held : List ScopeId) :
    Tidy a held held a where
  subset _ hmem := hmem
  ended _ hheld _ hactive := absurd hheld hactive
  others _ _ _ := rfl

theorem Tidy.set
    {before a b : Arena β} {held active : List ScopeId} {id : ScopeId} {name : String}
    {v : Value β}
    (htidy : Tidy before held active a) (hmem : id ∈ active)
    (hset : a.set id name v = .ok b) :
    Tidy before held active b where
  subset := htidy.subset
  ended other hheld hne hactive := by
    have hother : other ≠ id := fun heq => hactive (heq ▸ hmem)
    rw [scope?_set_of_ne hset hother]
    exact htidy.ended other hheld hne hactive
  others other hheld hne := by
    have hother : other ≠ id := fun heq => hheld (heq ▸ htidy.subset id hmem)
    rw [scope?_set_of_ne hset hother]
    exact htidy.others other hheld hne

theorem Tidy.release
    {before a : Arena β} {held active : List ScopeId} {id : ScopeId}
    (htidy : Tidy before held (id :: active) a) :
    Tidy before held active (a.release id) where
  subset other hmem := htidy.subset other (List.mem_cons_of_mem id hmem)
  ended other hheld hne hactive := by
    by_cases hother : other = id
    · subst other
      exact a.scope?_release_self hne
    · refine scope?_release_eq_none (htidy.ended other hheld hne ?_) id
      simp [hother, hactive]
  others other hheld hne := by
    have hother : other ≠ id :=
      fun heq => hheld (heq ▸ htidy.subset id List.mem_cons_self)
    rw [a.scope?_release_of_ne hother]
    exact htidy.others other hheld hne

/-- Releasing the scopes of all frames that are left completes the clean-up, in
whatever order it is done. -/
theorem Tidy.releaseAll
    {before a : Arena β} {held active ids : List ScopeId}
    (htidy : Tidy before held active a) (hids : ∀ id, id ∈ ids ↔ id ∈ active) :
    Tidy before held [] (a.releaseAll ids) where
  subset id hmem := absurd hmem List.not_mem_nil
  ended id hheld hne _ := by
    by_cases hactive : id ∈ active
    · exact a.scope?_releaseAll_of_mem ((hids id).mpr hactive) hne
    · exact scope?_releaseAll_eq_none (htidy.ended id hheld hne hactive) ids
  others id hheld hne := by
    have hmem : id ∉ ids := fun hmem => hheld (htidy.subset id ((hids id).mp hmem))
    rw [a.scope?_releaseAll_of_not_mem hmem]
    exact htidy.others id hheld hne

end Arena

namespace Machine

/-- The scopes of a machine compare with those before a run. -/
def Tidy (before : Arena β) (held : List ScopeId) (m : Machine β) : Prop :=
  Arena.Tidy before held m.activeScopes m.scopes

/-- A step, also one that fails, leaves the scopes tidy. -/
theorem tidy_step [Host β]
    {before : Arena β} {held : List ScopeId} {m : Machine β}
    (htidy : m.Tidy before held) :
    m.step.machine.Tidy before held := by
  unfold Tidy at htidy ⊢
  cases m.scopeEffect_step with
  | kept hactive hscopes =>
      rw [hactive, hscopes]
      exact htidy
  | written id name v hmem hactive hset =>
      rw [hactive]
      exact htidy.set hmem hset
  | released id hactive hscopes =>
      rw [hactive] at htidy
      rw [hscopes]
      exact htidy.release

theorem tidy_runFrom [Host β]
    {before : Arena β} {held : List ScopeId} {m : Machine β}
    (htidy : m.Tidy before held) (fuel : Nat) (output : Output β) :
    (runFrom fuel m output).machine.Tidy before held := by
  refine runFrom_induction (P := Tidy before held) ?_ ?_ fuel htidy output
  · intro m hm
    exact tidy_step hm
  · intro m hm
    exact hm

end Machine

namespace Session

open Machine

theorem unwind_frames (m : Machine β) :
    (unwind m).calls.frames = [] :=
  rfl

theorem tidy_unwind
    {before : Arena β} {held : List ScopeId} {m : Machine β}
    (htidy : m.Tidy before held) :
    (unwind m).Tidy before held := by
  refine Arena.Tidy.releaseAll htidy ?_
  intro id
  simp [activeScopes]

/-! ## How a run starts -/

/-- The machine of a session that has just activated a frame to run it. -/
def started (s : Session β) (f : Frame β) : Machine β :=
  { s.machine with
    status := .running
    returned := none
    calls := { s.machine.calls with frames := f :: s.machine.calls.frames } }

theorem tidy_started
    (s : Session β) (f : Frame β) :
    (s.started f).Tidy s.machine.scopes
      (f.scope :: s.machine.calls.frames.map Frame.scope) :=
  Arena.tidy_refl _ _

/-- With room for the frame, the machine runs, and its frames are ended if the
run fails. -/
theorem run_of_room [Host β]
    {s : Session β} {f : Frame β}
    (hroom : s.machine.calls.depth < s.machine.calls.limit) (fuel : Nat) :
    ∃ output,
      let x := runFrom fuel (s.started f) output
      (s.run fuel f).ending = x.ending ∧
        (s.run fuel f).session.machine =
          match x.ending with
          | .failed _ => unwind x.machine
          | _ => x.machine := by
  refine ⟨Output.empty.report (.started f.code.length (s.machine.calls.depth + 1)), ?_⟩
  simp only [run, CallStack.push, if_pos hroom, execute, started]
  split
  next hending => simp [hending]
  next hending => simp [hending]
  next hending => simp [hending]

/-- Without room, the run fails at once and the frames that waited are ended. -/
theorem run_of_full [Host β]
    {s : Session β} (f : Frame β)
    (hfull : s.machine.calls.limit ≤ s.machine.calls.depth) (fuel : Nat) :
    (s.run fuel f).ending = .failed (.setup (.callOverflow s.machine.calls.limit)) ∧
      (s.run fuel f).session.machine = unwind s.machine := by
  simp [run, CallStack.push, if_neg (Nat.not_lt_of_le hfull)]

/-- A run that could not start found no room for its frame. -/
theorem full_of_run_setup [Host β]
    {s : Session β} {f : Frame β} {fuel : Nat} {cause : Fault}
    (hsetup : (s.run fuel f).ending = .failed (.setup cause)) :
    s.machine.calls.limit ≤ s.machine.calls.depth := by
  by_contra hroom
  obtain ⟨output, hending, -⟩ :=
    run_of_room (f := f) (Nat.lt_of_not_le hroom) fuel
  rw [hending] at hsetup
  obtain ⟨ip, opcode, depth, cause', he⟩ := exists_instruction_of_runFrom_failed hsetup
  cases he

/-! ## Runs that start -/

/-- However a run ends, it leaves no frame, none of the scopes that its frames
held, and every other scope as it was. -/
theorem run_leaves_only_foreign_scopes [Host β]
    (fuel : Nat) (s : Session β) (f : Frame β)
    (hroom : s.machine.calls.depth < s.machine.calls.limit)
    (hreturns : (s.run fuel f).ending ≠ .unfinished) :
    let after := (s.run fuel f).session.machine
    let held := f.scope :: s.machine.calls.frames.map Frame.scope
    after.calls.frames = [] ∧
      (∀ id ∈ held, id ≠ .global → after.scopes.scope? id = none) ∧
      ∀ id, id ∉ held → id ≠ .global →
        after.scopes.scope? id = s.machine.scopes.scope? id := by
  intro after held
  suffices hclean : after.calls.frames = [] ∧ after.Tidy s.machine.scopes held by
    obtain ⟨hframes, htidy⟩ := hclean
    refine ⟨hframes, ?_, htidy.others⟩
    intro id hheld hne
    refine htidy.ended id hheld hne ?_
    simp [activeScopes, hframes]
  obtain ⟨output, hending, hmachine⟩ := run_of_room (f := f) hroom fuel
  have htidy := tidy_runFrom (tidy_started s f) fuel output
  rw [hending] at hreturns
  simp only [after, hmachine]
  cases hx : (runFrom fuel (s.started f) output).ending with
  | finished value => exact ⟨frames_eq_nil_of_runFrom_finished hx, htidy⟩
  | failed e => exact ⟨unwind_frames _, tidy_unwind htidy⟩
  | unfinished => exact absurd hx hreturns

/-- A failing run of a frame on a waiting one, beside a scope that neither
holds. -/
theorem run_leaves_only_foreign_scopes_underflow :
    let s : Session Standard :=
      { settings := {}
        machine :=
          { status := .halted, tracing := false, returned := none
            calls := { limit := 2, frames := [.start .empty ⟨1⟩ 4] }
            scopes := { globals := [], slots := List.replicate 3 (some (.empty none)) } } }
    let f : Frame Standard := .start (.ofInstructions [⟨.popTop, []⟩]) ⟨2⟩ 4
    let after := (s.run 1 f).session.machine.scopes
    s.machine.calls.depth < s.machine.calls.limit ∧
      (s.run 1 f).ending = .failed (.instruction 0 .popTop 2 .stackUnderflow) ∧
      after.scope? ⟨1⟩ = none ∧ after.scope? ⟨2⟩ = none ∧
      after.scope? ⟨3⟩ = s.machine.scopes.scope? ⟨3⟩ := by
  intro s f after
  have hroom : s.machine.calls.depth < s.machine.calls.limit := by decide
  have hending : (s.run 1 f).ending =
      .failed (.instruction 0 .popTop 2 .stackUnderflow) := rfl
  have hreturns : (s.run 1 f).ending ≠ .unfinished := by
    rw [hending]
    nofun
  obtain ⟨-, hheld, hothers⟩ := run_leaves_only_foreign_scopes 1 s f hroom hreturns
  exact ⟨hroom, hending, hheld ⟨1⟩ (by decide) (by decide),
    hheld ⟨2⟩ (by decide) (by decide), hothers ⟨3⟩ (by decide) (by decide)⟩

/-! ## Runs that cannot start -/

/-- Ending the waiting frames releases their scopes, of whatever arena, and no
others. -/
theorem scope?_unwind_withScopes
    (s : Session β) (scopes : Arena β) (id : ScopeId) :
    (unwind (s.withScopes scopes).machine).scopes.scope? id =
      if id ∈ s.machine.calls.frames.map Frame.scope ∧ id ≠ .global then none
      else scopes.scope? id := by
  have hscopes : (unwind (s.withScopes scopes).machine).scopes =
      scopes.releaseAll (s.machine.calls.frames.reverse.map Frame.scope) := rfl
  simp only [hscopes, Arena.scope?_releaseAll, List.map_reverse, List.mem_reverse]

theorem live_unwind_withScopes_iff
    (s : Session β) (scopes : Arena β) (id : ScopeId) :
    (unwind (s.withScopes scopes).machine).scopes.Live id ↔
      scopes.Live id ∧ ¬(id ∈ s.machine.calls.frames.map Frame.scope ∧ id ≠ .global) := by
  rw [Arena.Live, scope?_unwind_withScopes]
  split
  next hheld => simp [hheld]
  next hfree => exact (and_iff_left hfree).symm

/-- A frame with a private scope may be turned away because the call stack is
full.  The waiting frames are ended then and their scopes are released, but the
new scope stays.  It is released, and so the live scopes are those from before
without the ones of the waiting frames, exactly if a waiting frame holds the
number of the new scope. -/
theorem rejected_scope_released_iff [Host β]
    (fuel : Nat) (s : Session β) (code : Code β) (parent : ScopeId) {cause : Fault}
    (hsetup : ((s.scopedFrame code parent).2.run fuel
      (s.scopedFrame code parent).1).ending = .failed (.setup cause)) :
    let rejected := (s.scopedFrame code parent).1
    let before := s.machine
    let after := ((s.scopedFrame code parent).2.run fuel rejected).session.machine
    let waiting := before.calls.frames.map Frame.scope
    let new : ScopeId := ⟨before.scopes.slots.length + 1⟩
    before.calls.limit ≤ before.calls.depth ∧
      cause = .callOverflow before.calls.limit ∧
      after.calls.frames = [] ∧
      (before.scopes.slots.length < ScopeId.last.index → rejected.scope = new) ∧
      (after.scopes.scope? new =
        if new ∈ waiting then none else some (Scope.empty (some parent))) ∧
      (∀ id, id ≠ new → (after.scopes.Live id ↔
        before.scopes.Live id ∧ ¬(id ∈ waiting ∧ id ≠ .global))) ∧
      ((after.scopes.scope? new = none ∧ ∀ id, after.scopes.Live id ↔
        before.scopes.Live id ∧ ¬(id ∈ waiting ∧ id ≠ .global)) ↔ new ∈ waiting) := by
  intro rejected before after waiting new
  have hfull := full_of_run_setup hsetup
  change before.calls.limit ≤ before.calls.depth at hfull
  obtain ⟨hending, hmachine⟩ :=
    run_of_full (s := (s.scopedFrame code parent).2) rejected hfull fuel
  have hcause : cause = .callOverflow before.calls.limit := by
    cases hending.symm.trans hsetup
    rfl
  have hafter : after =
      unwind (s.withScopes (before.scopes.push (some parent)).2).machine := hmachine
  have hnew : new ≠ .global := by
    intro heq
    exact Nat.succ_ne_zero _ (congrArg ScopeId.index heq)
  have hscope : after.scopes.scope? new =
      if new ∈ waiting then none else some (Scope.empty (some parent)) := by
    rw [hafter, scope?_unwind_withScopes, Arena.scope?_push_new]
    simp [hnew, waiting, before]
  have hothers : ∀ id, id ≠ new → (after.scopes.Live id ↔
      before.scopes.Live id ∧ ¬(id ∈ waiting ∧ id ≠ .global)) := by
    intro id hne
    have hindex : id.index ≠ before.scopes.slots.length + 1 := by
      intro heq
      exact hne (congrArg ScopeId.mk heq)
    rw [hafter, live_unwind_withScopes_iff, Arena.Live,
      Arena.scope?_push_of_ne _ _ hindex]
    exact Iff.rfl
  refine ⟨hfull, hcause, ?_, Arena.push_fst before.scopes (some parent), hscope, hothers, ?_, ?_⟩
  · rw [hafter]
    exact unwind_frames _
  · rintro ⟨hnone, -⟩
    by_contra hmem
    rw [hscope, if_neg hmem] at hnone
    cases hnone
  · intro hmem
    have hnone : after.scopes.scope? new = none := by rw [hscope, if_pos hmem]
    refine ⟨hnone, ?_⟩
    intro id
    by_cases hid : id = new
    · subst id
      have hunborn : before.scopes.scope? new = none :=
        Arena.scope?_eq_none_of_length_lt (Nat.lt_succ_self _)
      simp [Arena.Live, hnone, hunborn]
    · exact hothers id hid

/-- With no frame allowed, the first private scope is left behind. -/
theorem rejected_scope_released_iff_none_waiting :
    let s : Session Standard := .new { maxCallDepth := 0 }
    let r := (s.scopedFrame .empty .global).2.run 1 (s.scopedFrame .empty .global).1
    let after := r.session.machine.scopes
    r.ending = .failed (.setup (.callOverflow 0)) ∧
      after.scope? ⟨1⟩ = some (.empty (some .global)) ∧
      ¬(after.scope? ⟨1⟩ = none ∧ ∀ id, after.Live id ↔
        s.machine.scopes.Live id ∧ ¬(id ∈ [] ∧ id ≠ .global)) := by
  intro s r after
  have hsetup : r.ending = .failed (.setup (.callOverflow 0)) := rfl
  obtain ⟨-, -, -, -, hscope, -, hiff⟩ :=
    rejected_scope_released_iff 1 s .empty .global hsetup
  refine ⟨hsetup, hscope, ?_⟩
  intro hclean
  exact absurd (hiff.mp hclean) List.not_mem_nil

end Session
end Stackline
