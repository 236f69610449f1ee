import Mathlib.Tactic.Push
import Stackline.Proofs.Scope.History

/-!
# What the slots of an arena tell

An arena is used through its view, which gives the scope of each number.  Here the
view is compared with the slots behind it.  They hold as many scopes as are counted,
and as long as the last slot is in use they hold nothing else that could matter: two
such arenas with the same view are the same.

A history keeps the last slot in use.  So what an addition or a release does to the
view is all that it does, a release that finds nothing to release does nothing, and of
several releases neither the order nor the repetitions matter, but only which scopes
are released.
-/

namespace Stackline
namespace Arena

variable {β : Type}

/-! ## Counting -/

/-- A slot that is dropped holds no scope. -/
theorem countP_isSome_dropFree
    (slots : List (Option (Scope β))) :
    (dropFree slots).countP Option.isSome = slots.countP Option.isSome := by
  induction slots with
  | nil => rfl
  | cons slot rest ih =>
      rw [dropFree_cons]
      split
      next hfree =>
        obtain ⟨rfl, hrest⟩ := hfree
        rw [hrest] at ih
        exact ih
      next => rw [List.countP_cons, List.countP_cons, ih]

/-- Freeing a slot in use takes one off the count. -/
theorem countP_isSome_set_none
    {slots : List (Option (Scope β))} {slot : Nat} (hused : slots[slot]?.join.isSome = true) :
    slots.countP Option.isSome = (slots.set slot none).countP Option.isSome + 1 := by
  induction slots generalizing slot with
  | nil => exact absurd hused nofun
  | cons first rest ih =>
      cases slot with
      | zero =>
          have hfirst : first.isSome = true := hused
          simp [hfirst]
      | succ slot =>
          rw [List.set_cons_succ, List.countP_cons, List.countP_cons, ih hused,
            Nat.add_right_comm]

theorem size_push
    (a : Arena β) (parent : Option ScopeId) :
    (a.push parent).2.size = a.size + 1 := by
  simp [size, push, Nat.add_assoc]

theorem size_release_of_live
    {a : Arena β} {id : ScopeId} (hlive : a.Live id) (hne : id ≠ .global) :
    a.size = (a.release id).size + 1 := by
  obtain ⟨slot, rfl⟩ := exists_slot_of_ne_global hne
  simp only [size, release, countP_isSome_dropFree, countP_isSome_set_none hlive, Nat.add_assoc]

/-- Where the last slot is in use, no slots are needed for the global scope alone. -/
theorem slots_eq_nil_iff_of_trimmed
    {a : Arena β} (htrim : a.Trimmed) :
    a.slots = [] ↔ a.size = 1 := by
  constructor
  · intro hnil
    simp [size, hnil]
  · intro hsize
    have hfree : ∀ slot ∈ a.slots, ¬slot.isSome = true := by
      rw [← List.countP_eq_zero]
      exact Nat.add_left_cancel hsize
    by_contra hne
    have hlast := hfree _ (List.getLast_mem hne)
    apply htrim
    rw [List.getLast?_eq_some_getLast hne, Option.not_isSome_iff_eq_none.mp hlast]

/-! ## The view determines the arena -/

/-- Where the last slot is in use, there are no more slots than live numbers require. -/
theorem length_le_of_live
    {a b : Arena β} (htrim : a.Trimmed) (hlive : ∀ id, a.Live id → b.Live id) :
    a.slots.length ≤ b.slots.length :=
  index_le_length_of_live (hlive _ (live_length_of_trimmed htrim))

/-- Arenas with the same view are the same, if the last slot of each is in use. -/
theorem eq_of_scope?_eq
    {a b : Arena β} (ha : a.Trimmed) (hb : b.Trimmed)
    (hview : ∀ id, a.scope? id = b.scope? id) :
    a = b := by
  have hglobals : a.globals = b.globals :=
    congrArg Scope.bindings (Option.some.inj (hview .global))
  have hlive : ∀ id, a.Live id ↔ b.Live id := by
    intro id
    rw [Live, Live, hview id]
  have hlength : a.slots.length = b.slots.length :=
    Nat.le_antisymm (length_le_of_live ha fun id => (hlive id).mp)
      (length_le_of_live hb fun id => (hlive id).mpr)
  have hslots : a.slots = b.slots := by
    apply List.ext_getElem hlength
    intro slot hslot hslot'
    have hscope := hview ⟨slot + 1⟩
    simpa [hslot, hslot'] using hscope
  exact congrArg₂ Arena.mk hglobals hslots

/-! ## Releasing in any order -/

/-- A release that finds nothing to release does nothing. -/
theorem release_of_not_live
    {a : Arena β} (htrim : a.Trimmed) {id : ScopeId} (hdead : ¬(a.Live id ∧ id ≠ .global)) :
    a.release id = a := by
  by_cases hne : id = .global
  · rw [hne]
    rfl
  · have hnone : a.scope? id = none := not_live_iff.mp fun hlive => hdead ⟨hlive, hne⟩
    apply eq_of_scope?_eq (trimmed_release htrim id) htrim
    intro other
    by_cases hother : other = id
    · rw [hother, a.scope?_release_self hne, hnone]
    · exact a.scope?_release_of_ne hother

theorem trimmed_releaseAll
    {a : Arena β} (htrim : a.Trimmed) (ids : List ScopeId) :
    (a.releaseAll ids).Trimmed := by
  induction ids generalizing a with
  | nil => exact htrim
  | cons first rest ih => exact ih (trimmed_release htrim first)

theorem trimmed_releaseAll_of_mem
    (a : Arena β) {id : ScopeId} {ids : List ScopeId} (hmem : id ∈ ids) (hne : id ≠ .global) :
    (a.releaseAll ids).Trimmed := by
  induction ids generalizing a with
  | nil => exact absurd hmem List.not_mem_nil
  | cons first rest ih =>
      rcases List.mem_cons.mp hmem with rfl | hrest
      · exact trimmed_releaseAll (a.trimmed_release_of_ne_global hne) rest
      · exact ih (a.release first) hrest

theorem releaseAll_of_forall_global
    (a : Arena β) {ids : List ScopeId} (hids : ∀ id ∈ ids, id = .global) :
    a.releaseAll ids = a := by
  induction ids with
  | nil => rfl
  | cons first rest ih =>
      obtain ⟨rfl, hrest⟩ := List.forall_mem_cons.mp hids
      exact ih hrest

/-- Which scopes are released decides about the arena that is left, and nothing else. -/
theorem releaseAll_eq_of_mem_iff
    (a : Arena β) {ids ids' : List ScopeId} (hids : ∀ id, id ∈ ids ↔ id ∈ ids') :
    a.releaseAll ids = a.releaseAll ids' := by
  by_cases hglobal : ∀ id ∈ ids, id = .global
  · -- The free slots at the end may stay here, since nothing is released at all.
    have hglobal' : ∀ id ∈ ids', id = .global := fun id hid => hglobal id ((hids id).mpr hid)
    rw [a.releaseAll_of_forall_global hglobal, a.releaseAll_of_forall_global hglobal']
  · push Not at hglobal
    obtain ⟨id, hmem, hne⟩ := hglobal
    apply eq_of_scope?_eq (a.trimmed_releaseAll_of_mem hmem hne)
      (a.trimmed_releaseAll_of_mem ((hids id).mp hmem) hne)
    intro other
    simp only [scope?_releaseAll, hids other]

/-! ## Along a history -/

/-- In an arena with any history the last slot is in use, so that there is none exactly
if the global scope is alone.  As long as there are numbers left, a scope that is added
gets a number that stood for nothing, binds nothing and falls back on the given parent;
it is counted, and no other scope is touched.  A release removes the scope with its
number and touches no other; one scope less is counted if that scope was live and not
the global one, and otherwise nothing has changed. -/
theorem push_and_release_touch_one_scope
    (history : List (Action β)) :
    let a := (empty : Arena β).actAll history
    a.Trimmed ∧ (a.slots = [] ↔ a.size = 1) ∧
    (a.slots.length < ScopeId.last.index → ∀ parent,
      let id := (a.push parent).1
      let b := (a.push parent).2
      ¬a.Live id ∧ b.scope? id = some (Scope.empty parent) ∧
        (∀ j, j ≠ id → b.scope? j = a.scope? j) ∧ b.size = a.size + 1) ∧
    ∀ id,
      let b := a.release id
      (id ≠ .global → b.scope? id = none) ∧ (∀ j, j ≠ id → b.scope? j = a.scope? j) ∧
        (a.size = b.size + 1 ↔ a.Live id ∧ id ≠ .global) ∧
        (¬(a.Live id ∧ id ≠ .global) → b = a) := by
  intro a
  have htrim : a.Trimmed := trimmed_actAll trimmed_empty history
  refine ⟨htrim, slots_eq_nil_iff_of_trimmed htrim, ?_, ?_⟩
  · intro hroom parent id b
    have hid : id = ⟨a.slots.length + 1⟩ := a.push_fst parent hroom
    refine ⟨?_, ?_, ?_, a.size_push parent⟩
    · rw [not_live_iff, hid]
      exact scope?_eq_none_of_length_lt (Nat.lt_succ_self _)
    · rw [hid]
      exact a.scope?_push_new parent
    · intro j hj
      apply a.scope?_push_of_ne parent
      intro hindex
      exact hj (hid ▸ congrArg ScopeId.mk hindex)
  · intro id b
    have hkept : ¬(a.Live id ∧ id ≠ .global) → b = a := release_of_not_live htrim
    refine ⟨a.scope?_release_self, fun j => a.scope?_release_of_ne, ⟨?_, ?_⟩, hkept⟩
    · intro hless
      by_contra hdead
      rw [hkept hdead] at hless
      exact Nat.succ_ne_self _ hless.symm
    · rintro ⟨hlive, hne⟩
      exact size_release_of_live hlive hne

/-- A scope is released under a live one, and a number is written and released that was
never given. -/
theorem push_and_release_touch_one_scope_stale :
    let a := (empty : Arena Empty).actAll
      [.push none, .push (some ⟨1⟩), .release ⟨1⟩, .set ⟨9⟩ "x" (.int 1), .release ⟨9⟩]
    a.slots.length = 2 ∧ a.slots.length < ScopeId.last.index ∧
      (a.push (some ⟨2⟩)).1 = ⟨3⟩ ∧ ¬a.Live ⟨3⟩ ∧ (a.push (some ⟨2⟩)).2.size = a.size + 1 ∧
      a.release ⟨1⟩ = a ∧ a.size = (a.release ⟨2⟩).size + 1 ∧ (a.release ⟨2⟩).slots = [] := by
  intro a
  have hroom : a.slots.length < ScopeId.last.index := by decide
  obtain ⟨-, -, hpush, hrelease⟩ := push_and_release_touch_one_scope (β := Empty)
    [.push none, .push (some ⟨1⟩), .release ⟨1⟩, .set ⟨9⟩ "x" (.int 1), .release ⟨9⟩]
  obtain ⟨hnew, -, -, hsize⟩ := hpush hroom (some ⟨2⟩)
  obtain ⟨-, -, -, hkept⟩ := hrelease ⟨1⟩
  obtain ⟨-, -, hless, -⟩ := hrelease ⟨2⟩
  have hdead : ¬(a.Live ⟨1⟩ ∧ (⟨1⟩ : ScopeId) ≠ .global) := fun h => nomatch h.1
  exact ⟨rfl, hroom, rfl, hnew, hsize, hkept hdead, hless.mpr ⟨rfl, by decide⟩, rfl⟩

end Arena
end Stackline
