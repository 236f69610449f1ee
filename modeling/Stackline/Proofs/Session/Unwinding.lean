import Mathlib.Data.List.Dedup
import Mathlib.Logic.Relation
import Stackline.Proofs.Machine.Step
import Stackline.Proofs.Scope.Slots
import Stackline.Session

/-!
# Unwinding in any order

Frames end in two ways.  While a machine runs, the top frame ends first, and its scope
is released then.  When a run is given up, all frames are ended at once, and their
scopes are released from the bottom up.

Each release gives back the free slots at the end, so a number may lie within the slots
in one order and beyond them in the other.  The arena that is left is the same.
-/

namespace Stackline

variable {β : Type}

namespace Machine

/-- The top frame has ended, with a value or without one.  The frame below may have had
no room for the value. -/
def EndsTop (m m' : Machine β) : Prop :=
  ∃ f below value, m.calls.frames = f :: below ∧
    (m.leave f below value = .ok m' ∨ ∃ cause, m.leave f below value = .error (m', cause))

/-- All frames have ended, one after the other and the top one first. -/
def EndsAll (m m' : Machine β) : Prop :=
  Relation.ReflTransGen EndsTop m m' ∧ m'.calls.frames = []

/-- With the top frame goes its scope. -/
theorem EndsTop.exists_released
    {m m' : Machine β} (hends : m.EndsTop m') :
    ∃ id, m.activeScopes = id :: m'.activeScopes ∧ m'.scopes = m.scopes.release id := by
  obtain ⟨f, below, value, hframes, hleave⟩ := hends
  have hactive : m.activeScopes = f.scope :: below.map Frame.scope := by
    rw [activeScopes, hframes, List.map_cons]
  refine ⟨f.scope, ?_⟩
  rw [hactive]
  cases value with
  | none =>
      rcases hleave with hleave | ⟨cause, hleave⟩
      · cases hleave
        exact ⟨rfl, rfl⟩
      · cases hleave
  | some v =>
      have hcarry : (m.carryOut f below (.handBack v)).1 = m' := by
        rcases hleave with hleave | ⟨cause, hleave⟩
        · rw [carryOut, hleave]
        · rw [carryOut, hleave]
      obtain ⟨m₀, frames, hsettle, hscopes, hreleased⟩ := m.exists_settle_of_handBack f below v
      rw [hcarry] at hsettle
      rw [hsettle, ← hscopes]
      exact ⟨rfl, hreleased⟩

theorem endsTop_of_frames
    {m : Machine β} {f : Frame β} {below : List (Frame β)}
    (hframes : m.calls.frames = f :: below) :
    m.EndsTop ({ m with scopes := m.scopes.release f.scope }.settle below) :=
  ⟨f, below, none, hframes, .inl rfl⟩

/-- All frames can be ended. -/
theorem exists_endsAll
    (m : Machine β) :
    ∃ m', m.EndsAll m' := by
  induction hframes : m.calls.frames generalizing m with
  | nil => exact ⟨m, .refl, hframes⟩
  | cons f below ih =>
      have hfirst := endsTop_of_frames hframes
      obtain ⟨m', hrest, hnil⟩ :=
        ih ({ m with scopes := m.scopes.release f.scope }.settle below) rfl
      exact ⟨m', .head hfirst hrest, hnil⟩

end Machine

namespace Session

open Machine

theorem scopes_unwind
    (m : Machine β) :
    (unwind m).scopes = m.scopes.releaseAll m.activeScopes := by
  apply m.scopes.releaseAll_eq_of_mem_iff
  intro id
  simp [activeScopes]

/-- It makes no difference whether the top frame has ended before the others are
unwound. -/
theorem scopes_unwind_of_endsTop
    {m m' : Machine β} (hends : m.EndsTop m') :
    (unwind m').scopes = (unwind m).scopes := by
  obtain ⟨id, hactive, hscopes⟩ := hends.exists_released
  rw [scopes_unwind, scopes_unwind, hactive, hscopes]
  rfl

theorem scopes_of_endsAll
    {m m' : Machine β} (hends : m.EndsAll m') :
    m'.scopes = (unwind m).scopes := by
  obtain ⟨hchain, hnil⟩ := hends
  have hsame : (unwind m').scopes = (unwind m).scopes := by
    clear hnil
    induction hchain with
    | refl => rfl
    | tail _ hlast ih => exact (scopes_unwind_of_endsTop hlast).trans ih
  rw [← hsame, scopes_unwind, activeScopes, hnil]
  rfl

/-- Scopes that are released one after the other leave the same arena in every order,
and with or without repetitions.  So the scopes of frames that end one by one, the top
one first, leave the arena that is left when the frames are unwound from the bottom. -/
theorem release_order_is_immaterial
    (a : Arena β) (ids : List ScopeId) :
    (∀ ids', ids'.Perm ids → a.releaseAll ids' = a.releaseAll ids) ∧
    a.releaseAll ids.dedup = a.releaseAll ids ∧
    ∀ m : Machine β,
      (∃ m', m.EndsAll m') ∧ ∀ m', m.EndsAll m' → m'.scopes = (unwind m).scopes := by
  refine ⟨?_, ?_, ?_⟩
  · intro ids' hperm
    exact a.releaseAll_eq_of_mem_iff fun _ => hperm.mem_iff
  · exact a.releaseAll_eq_of_mem_iff fun _ => List.mem_dedup
  · intro m
    exact ⟨m.exists_endsAll, fun m' hends => scopes_of_endsAll hends⟩

/-- The last two slots are given back at once in one order and in two steps in the other.
The frames end by a return that finds no room and by a halt. -/
theorem release_order_is_immaterial_refused :
    let a : Arena Empty :=
      { globals := [], slots := [some (.empty none), some (.empty none), some (.empty none)] }
    let ids : List ScopeId := [⟨2⟩, .global, ⟨3⟩, ⟨2⟩, ⟨9⟩]
    let ids' : List ScopeId := [⟨9⟩, ⟨3⟩, ⟨2⟩, ⟨2⟩, .global]
    let f : Frame Empty := .start .empty ⟨3⟩ 1
    let caller : Frame Empty := .start .empty ⟨2⟩ 0
    let m : Machine Empty :=
      { Machine.idle 2 false with
        calls := { limit := 2, frames := [f, caller] }
        scopes := a }
    let m₁ := { m with scopes := a.release ⟨3⟩ }.settle [caller]
    let m₂ := { m₁ with scopes := m₁.scopes.release ⟨2⟩ }.settle []
    ids'.Perm ids ∧ a.releaseAll ids' = a.releaseAll ids ∧ (a.releaseAll ids).slots.length = 1 ∧
      m.leave f [caller] (some (.int 1)) = .error (m₁, .stackOverflow 0) ∧
      m.EndsAll m₂ ∧ m₂.scopes = (unwind m).scopes := by
  intro a ids ids' f caller m m₁ m₂
  have hperm : ids'.Perm ids := by decide
  have hrefused : m.leave f [caller] (some (.int 1)) = .error (m₁, .stackOverflow 0) := rfl
  have hfirst : m.EndsTop m₁ := ⟨f, [caller], some (.int 1), rfl, .inr ⟨_, hrefused⟩⟩
  have hsecond : m₁.EndsTop m₂ := endsTop_of_frames (f := caller) rfl
  have hends : m.EndsAll m₂ := ⟨.tail (.single hfirst) hsecond, rfl⟩
  obtain ⟨horder, -, hunwind⟩ := release_order_is_immaterial a ids
  exact ⟨hperm, horder ids' hperm, rfl, hrefused, hends, (hunwind m).2 m₂ hends⟩

end Session
end Stackline
