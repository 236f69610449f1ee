import Stackline.Proofs.Machine.Run
import Stackline.Value.Standard

/-!
# Scopes live as long as they are used

A frame looks names up in its own scope and in the parents of that scope, one
after the other.  When a frame ends, its scope is released, whatever else may
still refer to it.  So nobody who goes on may depend on that scope: the chain of
a frame's parents must not lead through the scope of a frame above it.

`Arena.WellOwned` says this of the scopes held by a stack of frames.  It is kept
by every step, in whatever order the scopes were made, and as long as it holds no
instruction meets a released scope.
-/

namespace Stackline

variable {β : Type}

namespace Arena

/-- The scopes that a lookup from `id` goes through to the end, all of them
live. -/
inductive Chain (a : Arena β) : ScopeId → List ScopeId → Prop where
  | last {id : ScopeId} {scope : Scope β} (hscope : a.scope? id = some scope)
      (hparent : scope.parent = none) : Chain a id [id]
  | link {id parent : ScopeId} {scope : Scope β} {ids : List ScopeId}
      (hscope : a.scope? id = some scope) (hparent : scope.parent = some parent)
      (hchain : Chain a parent ids) : Chain a id (id :: ids)

/-- The frames of a stack, the top one first, hold the scopes `active` in such a
way that none needs the scope of a frame above it. -/
structure WellOwned (a : Arena β) (active : List ScopeId) : Prop where
  live : ∀ id ∈ active, id ≠ .global → a.Live id
  distinct : active.Pairwise fun id other => id = other → id = .global
  chain : ∀ id below, id :: below <:+ active →
    ∃ ids, a.Chain id ids ∧ ∀ j ∈ ids, j = .global ∨ j ∈ id :: below ∨ j ∉ active

/-- A chain depends on nothing but the parents of the scopes on it. -/
theorem Chain.of_parents
    {a b : Arena β} {id : ScopeId} {ids : List ScopeId} (hchain : a.Chain id ids)
    (hparents : ∀ j ∈ ids, (b.scope? j).map Scope.parent = (a.scope? j).map Scope.parent) :
    b.Chain id ids := by
  induction hchain with
  | @last id scope hscope hparent =>
      have hmap := hparents id (List.mem_singleton_self id)
      rw [hscope, Option.map_some, hparent, Option.map_eq_some_iff] at hmap
      obtain ⟨scope', hscope', hparent'⟩ := hmap
      exact .last hscope' hparent'
  | @link id parent scope ids hscope hparent _ ih =>
      have hmap := hparents id List.mem_cons_self
      rw [hscope, Option.map_some, hparent, Option.map_eq_some_iff] at hmap
      obtain ⟨scope', hscope', hparent'⟩ := hmap
      refine .link hscope' hparent' (ih ?_)
      intro j hj
      exact hparents j (List.mem_cons_of_mem id hj)

/-- No lookup along a chain meets a released scope. -/
theorem find_ne_releasedScope_of_chain
    {a : Arena β} {id : ScopeId} {ids : List ScopeId} (hchain : a.Chain id ids)
    (name : String) (fuel : Nat) (released : ScopeId) :
    a.find name fuel id ≠ .error (.releasedScope released) := by
  induction hchain generalizing fuel with
  | @last id scope hscope hparent =>
      cases fuel with
      | zero => nofun
      | succ fuel =>
          cases hbound : Bindings.get? name scope.bindings with
          | some v => simp [find, hscope, hbound]
          | none => simp [find, hscope, hbound, hparent]
  | @link id parent scope ids hscope hparent _ ih =>
      cases fuel with
      | zero => nofun
      | succ fuel =>
          cases hbound : Bindings.get? name scope.bindings with
          | some v => simp [find, hscope, hbound]
          | none =>
              simp only [find, hscope, hbound, hparent]
              exact ih fuel

/-! ## What keeps scopes well owned -/

theorem WellOwned.set
    {a b : Arena β} {active : List ScopeId} {id : ScopeId} {name : String} {v : Value β}
    (howned : a.WellOwned active) (hset : a.set id name v = .ok b) :
    b.WellOwned active where
  live j hj hne := by
    have hmap := congrArg Option.isSome (map_parent_of_set hset j)
    simp only [Option.isSome_map] at hmap
    rw [Live, hmap]
    exact howned.live j hj hne
  distinct := howned.distinct
  chain j below hbelow := by
    obtain ⟨ids, hchain, hids⟩ := howned.chain j below hbelow
    refine ⟨ids, hchain.of_parents ?_, hids⟩
    intro k _
    exact map_parent_of_set hset k

/-- The scope of the top frame lies on no chain of a frame below it, so it may be
released. -/
theorem WellOwned.release
    {a : Arena β} {id : ScopeId} {active : List ScopeId}
    (howned : a.WellOwned (id :: active)) :
    (a.release id).WellOwned active := by
  obtain ⟨hfirst, hdistinct⟩ := List.pairwise_cons.mp howned.distinct
  have hkept : ∀ j, j ≠ id ∨ j = .global → (a.release id).scope? j = a.scope? j := by
    rintro j (hne | rfl)
    · exact a.scope?_release_of_ne hne
    · rcases id with ⟨_ | slot⟩ <;> rfl
  refine ⟨?_, hdistinct, ?_⟩
  · intro j hj hne
    have hj' : j ≠ id := by
      rintro rfl
      exact hne (hfirst j hj rfl)
    rw [Live, hkept j (.inl hj')]
    exact howned.live j (List.mem_cons_of_mem id hj) hne
  · intro j below hbelow
    obtain ⟨ids, hchain, hids⟩ := howned.chain j below (hbelow.trans (List.suffix_cons id active))
    refine ⟨ids, hchain.of_parents ?_, ?_⟩
    · intro k hk
      -- The released scope is not on the chain, unless it is the global one: it is the scope
      -- of an active frame, and that frame is not among those from `j` down.
      have hk' : k ≠ id ∨ k = .global := by
        by_cases hkid : k = id
        · subst k
          right
          rcases hids id hk with hglobal | hmem | hfree
          · exact hglobal
          · exact hfirst id (hbelow.subset hmem) rfl
          · exact absurd List.mem_cons_self hfree
        · exact .inl hkid
      rw [hkept k hk']
    · intro k hk
      rcases hids k hk with hglobal | hmem | hfree
      · exact .inl hglobal
      · exact .inr (.inl hmem)
      · exact .inr (.inr fun hmem => hfree (List.mem_cons_of_mem id hmem))

end Arena

namespace Machine

/-- The frames of a machine own their scopes well. -/
def WellOwned (m : Machine β) : Prop :=
  m.scopes.WellOwned m.activeScopes

/-- A step keeps the scopes well owned, also if it fails. -/
theorem wellOwned_step [Host β]
    {m : Machine β} (howned : m.WellOwned) :
    m.step.machine.WellOwned := by
  unfold WellOwned at howned ⊢
  cases m.scopeEffect_step with
  | kept hactive hscopes =>
      rw [hactive, hscopes]
      exact howned
  | written id name v _ hactive hset =>
      rw [hactive]
      exact howned.set hset
  | released id hactive hscopes =>
      rw [hactive] at howned
      rw [hscopes]
      exact howned.release

/-- A step of a machine whose scopes are well owned meets no released scope. -/
theorem cause_ne_releasedScope_of_step_error [Host β]
    {m : Machine β} (howned : m.WellOwned) {e : RunError} (herror : m.step.error = some e)
    (id : ScopeId) :
    e.cause ≠ .releasedScope id := by
  obtain ⟨f, below, hframes⟩ := exists_frames_of_step_error herror
  obtain ⟨i, cause, -, rfl, hfails | ⟨caller, rest, -, -, rfl, -⟩⟩ :=
    fails_of_step_error hframes herror
  · rintro rfl
    obtain ⟨name, hget⟩ := hfails.get_of_releasedScope
    have hactive : m.activeScopes = f.scope :: below.map Frame.scope := by
      rw [activeScopes, hframes, List.map_cons]
    have hsuffix : f.scope :: below.map Frame.scope <:+ m.activeScopes :=
      ⟨[], hactive.symm⟩
    obtain ⟨ids, hchain, -⟩ := howned.chain _ _ hsuffix
    exact Arena.find_ne_releasedScope_of_chain hchain name _ id hget
  · intro hcause
    cases hcause

/-- Where the frames of a machine own their scopes well, they do so after every
step, and no instruction of a run, however long, meets a released scope. -/
theorem wellOwned_run_meets_no_released_scope [Host β]
    (m : Machine β) (howned : m.WellOwned) :
    (m.step.error = none → m.step.machine.WellOwned) ∧
      (∀ k m', m.steps k = .ok m' → m'.WellOwned) ∧
      (∀ k e m', m.steps k = .error (e, m') → ∀ id, e.cause ≠ .releasedScope id) ∧
      ∀ fuel output e, (m.execute fuel output).ending = .failed e →
        ∀ id, e.cause ≠ .releasedScope id := by
  have hstep : ∀ m : Machine β, m.WellOwned → m.step.error = none →
      m.step.machine.WellOwned := fun m howned _ => wellOwned_step howned
  have hsteps : ∀ m : Machine β, m.WellOwned → ∀ k e m', m.steps k = .error (e, m') →
      ∀ id, e.cause ≠ .releasedScope id := by
    intro m howned k e m' hfails
    obtain ⟨m₁, howned₁, herror, -⟩ := exists_step_error_of_steps_error hstep howned hfails
    exact cause_ne_releasedScope_of_step_error howned₁ herror
  refine ⟨hstep m howned, ?_, hsteps m howned, ?_⟩
  · intro k m' hsteps
    exact steps_induction hstep howned hsteps
  · intro fuel output e hfailed
    obtain ⟨k, hfails⟩ := exists_steps_of_runFrom_failed hfailed
    exact hsteps { m with status := .running, returned := none } howned k e _ hfails

/-- A callee whose scope is older than that of its caller, and has it for its
parent, ends; the caller then looks up a name that nobody has bound. -/
theorem wellOwned_run_meets_no_released_scope_younger_caller :
    let callee : Frame Standard := .start (.ofInstructions [⟨.halt, []⟩]) ⟨1⟩ 1
    let caller : Frame Standard := .start (.ofInstructions [⟨.loadVar, ["x"]⟩]) ⟨2⟩ 1
    let scopes : Arena Standard :=
      { globals := []
        slots := [some (.empty (some ⟨2⟩)), some (.empty (some .global))] }
    let m : Machine Standard :=
      { idle 2 false with calls := { limit := 2, frames := [callee, caller] }, scopes }
    m.WellOwned ∧
      (∃ m', m.steps 2 = .error (.instruction 0 .loadVar 1 (.undefined "x"), m')) ∧
      ∀ id, Fault.undefined "x" ≠ .releasedScope id := by
  intro callee caller scopes m
  have hcaller : m.scopes.Chain ⟨2⟩ [⟨2⟩, .global] := .link rfl rfl (.last rfl rfl)
  have hcallee : m.scopes.Chain ⟨1⟩ [⟨1⟩, ⟨2⟩, .global] := .link rfl rfl hcaller
  have hactive : m.activeScopes = [⟨1⟩, ⟨2⟩] := rfl
  have howned : m.WellOwned := by
    rw [WellOwned, hactive]
    refine ⟨?_, by decide, ?_⟩
    · intro id hid _
      obtain rfl | rfl : id = ⟨1⟩ ∨ id = ⟨2⟩ := by simpa using hid
      · rfl
      · rfl
    · intro id below hbelow
      rcases List.suffix_cons_iff.mp hbelow with hcons | hbelow
      · cases hcons
        exact ⟨_, hcallee, by decide⟩
      rcases List.suffix_cons_iff.mp hbelow with hcons | hbelow
      · cases hcons
        exact ⟨_, hcaller, by decide⟩
      · exact absurd (List.suffix_nil.mp hbelow) (List.cons_ne_nil id below)
  obtain ⟨-, -, hfails, -⟩ := wellOwned_run_meets_no_released_scope m howned
  exact ⟨howned, ⟨_, rfl⟩, hfails 2 _ _ rfl⟩

end Machine
end Stackline
