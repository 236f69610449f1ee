import Stackline.Scope.Arena

/-!
# What the operations of an arena do to its scopes

An arena is seen through `Arena.scope?`, which says for each number what scope
it stands for.  This module gives the effect of every operation on that view:
on the number that the operation names, and on all others.

Giving back the free slots at the end cannot be seen through the view.  It can
only be seen in the number that the next scope gets, and there it matters that
the last slot is always in use.
-/

namespace Stackline
namespace Arena

variable {β : Type}

/-- The number stands for a scope that has not been released. -/
def Live (a : Arena β) (id : ScopeId) : Prop :=
  (a.scope? id).isSome

/-- A released scope: it is gone, and so is every way to read or write it. -/
structure Dead (a : Arena β) (id : ScopeId) : Prop where
  scope : a.scope? id = none
  get : ∀ name, a.get id name = .error (.releasedScope id)
  set : ∀ name v, a.set id name v = .error (.releasedScope id)

/-- No slot at the end is free. -/
def Trimmed (a : Arena β) : Prop :=
  a.slots.getLast? ≠ some none

/-! ## The view of the slots -/

@[simp] theorem scope?_zero (a : Arena β) :
    a.scope? ⟨0⟩ = some { parent := none, bindings := a.globals } :=
  rfl

@[simp] theorem scope?_succ (a : Arena β) (slot : Nat) :
    a.scope? ⟨slot + 1⟩ = a.slots[slot]?.join :=
  rfl

theorem not_live_iff
    {a : Arena β} {id : ScopeId} :
    ¬a.Live id ↔ a.scope? id = none := by
  simp [Live]

/-- Every number but the global one belongs to a slot. -/
theorem exists_slot_of_ne_global
    {id : ScopeId} (hne : id ≠ .global) :
    ∃ slot, id = ⟨slot + 1⟩ := by
  rcases id with ⟨_ | slot⟩
  · exact absurd rfl hne
  · exact ⟨slot, rfl⟩

/-- Numbers beyond the slots stand for nothing. -/
theorem scope?_eq_none_of_length_lt
    {a : Arena β} {id : ScopeId} (hlt : a.slots.length < id.index) :
    a.scope? id = none := by
  rcases id with ⟨_ | slot⟩
  · exact absurd hlt (Nat.not_lt_zero _)
  · have hle : a.slots.length ≤ slot := Nat.lt_succ_iff.mp hlt
    simp [List.getElem?_eq_none hle]

theorem index_le_length_of_live
    {a : Arena β} {id : ScopeId} (hlive : a.Live id) :
    id.index ≤ a.slots.length := by
  apply Nat.le_of_not_lt
  intro hlt
  exact not_live_iff.mpr (scope?_eq_none_of_length_lt hlt) hlive

theorem get_eq_error_of_scope?_eq_none
    {a : Arena β} {id : ScopeId} (hnone : a.scope? id = none) (name : String) :
    a.get id name = .error (.releasedScope id) := by
  simp [get, find, hnone]

/-! ## Free slots at the end -/

/-- A slot is dropped only if it is free and nothing after it stays. -/
theorem dropFree_cons
    (slot : Option (Scope β)) (rest : List (Option (Scope β))) :
    dropFree (slot :: rest) =
      if slot = none ∧ dropFree rest = [] then [] else slot :: dropFree rest := by
  cases slot with
  | none => cases hrest : dropFree rest <;> simp [dropFree, hrest]
  | some scope => simp [dropFree]

/-- Dropping the free slots at the end changes no scope. -/
theorem getElem?_dropFree_join
    (slots : List (Option (Scope β))) (slot : Nat) :
    (dropFree slots)[slot]?.join = slots[slot]?.join := by
  induction slots generalizing slot with
  | nil => rfl
  | cons first rest ih =>
      rw [dropFree_cons]
      split
      next hfree =>
        obtain ⟨rfl, hrest⟩ := hfree
        cases slot with
        | zero => rfl
        | succ slot =>
            have hslot := ih slot
            rw [hrest] at hslot
            simpa using hslot
      next =>
        cases slot with
        | zero => rfl
        | succ slot => simpa using ih slot

/-- After the free slots at the end have been dropped, the last one is in
use. -/
theorem getLast?_dropFree
    (slots : List (Option (Scope β))) :
    (dropFree slots).getLast? ≠ some none := by
  induction slots with
  | nil => simp [dropFree]
  | cons first rest ih =>
      rw [dropFree_cons]
      split
      next => simp
      next hkept =>
        cases hrest : dropFree rest with
        | nil =>
            have hfirst : first ≠ none := fun hnone => hkept ⟨hnone, hrest⟩
            simpa using hfirst
        | cons second more =>
            rw [List.getLast?_cons_cons, ← hrest]
            exact ih

/-! ## Releasing -/

/-- A released scope is gone. -/
theorem scope?_release_self
    (a : Arena β) {id : ScopeId} (hne : id ≠ .global) :
    (a.release id).scope? id = none := by
  obtain ⟨slot, rfl⟩ := exists_slot_of_ne_global hne
  simp only [release, scope?_succ, getElem?_dropFree_join]
  rw [List.getElem?_set_self']
  cases a.slots[slot]? <;> rfl

/-- A release touches no other scope. -/
theorem scope?_release_of_ne
    (a : Arena β) {id other : ScopeId} (hne : other ≠ id) :
    (a.release id).scope? other = a.scope? other := by
  rcases id with ⟨_ | slot⟩
  · rfl
  rcases other with ⟨_ | slot'⟩
  · rfl
  have hslot : slot ≠ slot' := by
    rintro rfl
    exact hne rfl
  simp only [release, scope?_succ, getElem?_dropFree_join]
  rw [List.getElem?_set_ne hslot]

theorem scope?_release_eq_none
    {a : Arena β} {other : ScopeId} (hnone : a.scope? other = none) (id : ScopeId) :
    (a.release id).scope? other = none := by
  by_cases hother : other = id
  · subst other
    by_cases hglobal : id = .global
    · subst id
      exact hnone
    · exact a.scope?_release_self hglobal
  · rw [a.scope?_release_of_ne hother, hnone]

/-- What is dead stays dead, and what is released dies, whatever the order. -/
theorem scope?_releaseAll_eq_none
    {a : Arena β} {id : ScopeId} (hnone : a.scope? id = none) (ids : List ScopeId) :
    (a.releaseAll ids).scope? id = none := by
  induction ids generalizing a with
  | nil => exact hnone
  | cons first rest ih => exact ih (scope?_release_eq_none hnone first)

theorem scope?_releaseAll_of_mem
    (a : Arena β) {id : ScopeId} {ids : List ScopeId}
    (hmem : id ∈ ids) (hne : id ≠ .global) :
    (a.releaseAll ids).scope? id = none := by
  induction ids generalizing a with
  | nil => cases hmem
  | cons first rest ih =>
      rcases List.mem_cons.mp hmem with rfl | hrest
      · exact scope?_releaseAll_eq_none (a.scope?_release_self hne) rest
      · exact ih (a.release first) hrest

theorem scope?_releaseAll_of_not_mem
    (a : Arena β) {id : ScopeId} {ids : List ScopeId} (hmem : id ∉ ids) :
    (a.releaseAll ids).scope? id = a.scope? id := by
  induction ids generalizing a with
  | nil => rfl
  | cons first rest ih =>
      rw [List.mem_cons, not_or] at hmem
      obtain ⟨hfirst, hrest⟩ := hmem
      calc
        ((a.release first).releaseAll rest).scope? id =
            (a.release first).scope? id := ih (a.release first) hrest
        _ = a.scope? id := a.scope?_release_of_ne hfirst

theorem scope?_releaseAll_global
    (a : Arena β) (ids : List ScopeId) :
    (a.releaseAll ids).scope? .global =
      some { parent := none, bindings := a.globals } := by
  induction ids generalizing a with
  | nil => rfl
  | cons first rest ih =>
      rw [show (a.releaseAll (first :: rest)) =
        (a.release first).releaseAll rest from rfl, ih]
      rcases first with ⟨_ | slot⟩ <;> rfl

/-- Of several releases it matters which scopes they name. -/
theorem scope?_releaseAll
    (a : Arena β) (ids : List ScopeId) (id : ScopeId) :
    (a.releaseAll ids).scope? id =
      if id ∈ ids ∧ id ≠ .global then none else a.scope? id := by
  split
  next hreleased => exact a.scope?_releaseAll_of_mem hreleased.1 hreleased.2
  next hkept =>
    by_cases hglobal : id = .global
    · subst id
      exact a.scope?_releaseAll_global ids
    · exact a.scope?_releaseAll_of_not_mem fun hmem => hkept ⟨hmem, hglobal⟩

/-! ## Adding a scope -/

/-- The new scope lies in the first slot that was not there before. -/
theorem scope?_push_new
    (a : Arena β) (parent : Option ScopeId) :
    (a.push parent).2.scope? ⟨a.slots.length + 1⟩ = some (Scope.empty parent) := by
  simp [push]

theorem scope?_push_of_ne
    (a : Arena β) (parent : Option ScopeId) {id : ScopeId}
    (hne : id.index ≠ a.slots.length + 1) :
    (a.push parent).2.scope? id = a.scope? id := by
  rcases id with ⟨_ | slot⟩
  · rfl
  have hslot : slot ≠ a.slots.length := fun hslot => hne (congrArg Nat.succ hslot)
  rcases Nat.lt_or_gt_of_ne hslot with hlt | hgt
  · simp [push, List.getElem?_append_left hlt]
  · have hle : (a.slots ++ [some (Scope.empty parent)]).length ≤ slot := by
      simp only [List.length_append, List.length_singleton]
      exact hgt
    simp [push, List.getElem?_eq_none hle, List.getElem?_eq_none (Nat.le_of_lt hgt)]

/-- An addition brings to life the number of the new slot and no other. -/
theorem scope?_push_eq_none_iff
    (a : Arena β) (parent : Option ScopeId) (id : ScopeId) :
    (a.push parent).2.scope? id = none ↔
      a.scope? id = none ∧ id.index ≠ a.slots.length + 1 := by
  by_cases hindex : id.index = a.slots.length + 1
  · rw [show id = ⟨a.slots.length + 1⟩ from congrArg ScopeId.mk hindex, scope?_push_new]
    simp
  · rw [scope?_push_of_ne a parent hindex]
    exact (and_iff_left hindex).symm

/-- As long as there are numbers left, the new scope is known by its slot. -/
theorem push_fst
    (a : Arena β) (parent : Option ScopeId)
    (hroom : a.slots.length < ScopeId.last.index) :
    (a.push parent).1 = ⟨a.slots.length + 1⟩ := by
  simp only [push, ScopeId.ofSlot]
  rw [Nat.min_eq_left hroom]

/-! ## Writing -/

/-- A write succeeds on a live scope, to which it adds the binding. -/
theorem exists_scope?_of_set
    {a b : Arena β} {id : ScopeId} {name : String} {v : Value β}
    (hset : a.set id name v = .ok b) :
    ∃ scope, a.scope? id = some scope ∧
      b.scope? id = some { scope with bindings := scope.bindings.set name v } := by
  rcases id with ⟨_ | slot⟩
  · simp only [set, Except.ok.injEq] at hset
    subst b
    exact ⟨_, rfl, rfl⟩
  · simp only [set] at hset
    split at hset
    next => cases hset
    next scope hscope =>
      simp only [Except.ok.injEq] at hset
      subst b
      obtain ⟨x, hx, rfl⟩ : ∃ x, a.slots[slot]? = some x ∧ x = some scope := by
        simpa [Option.join_eq_some_iff] using hscope
      refine ⟨scope, by simp [hx], ?_⟩
      simp only [scope?_succ]
      rw [List.getElem?_set_self']
      simp [hx]

/-- A live scope can be written to. -/
theorem exists_set_of_live
    {a : Arena β} {id : ScopeId} (hlive : a.Live id) (name : String) (v : Value β) :
    ∃ b, a.set id name v = .ok b := by
  rcases id with ⟨_ | slot⟩
  · exact ⟨_, rfl⟩
  · obtain ⟨scope, hscope⟩ := Option.isSome_iff_exists.mp hlive
    rw [scope?_succ] at hscope
    exact ⟨_, by simp only [set, hscope]; rfl⟩

/-- A write touches no other scope. -/
theorem scope?_set_of_ne
    {a b : Arena β} {id other : ScopeId} {name : String} {v : Value β}
    (hset : a.set id name v = .ok b) (hne : other ≠ id) :
    b.scope? other = a.scope? other := by
  rcases id with ⟨_ | slot⟩
  · simp only [set, Except.ok.injEq] at hset
    subst b
    rcases other with ⟨_ | slot'⟩
    · exact absurd rfl hne
    · rfl
  · simp only [set] at hset
    split at hset
    next => cases hset
    next scope hscope =>
      simp only [Except.ok.injEq] at hset
      subst b
      rcases other with ⟨_ | slot'⟩
      · rfl
      · have hslot : slot ≠ slot' := by
          rintro rfl
          exact hne rfl
        simp only [scope?_succ]
        rw [List.getElem?_set_ne hslot]

/-- A write changes no parent. -/
theorem map_parent_of_set
    {a b : Arena β} {id : ScopeId} {name : String} {v : Value β}
    (hset : a.set id name v = .ok b) (j : ScopeId) :
    (b.scope? j).map Scope.parent = (a.scope? j).map Scope.parent := by
  by_cases hj : j = id
  · subst j
    obtain ⟨scope, hscope, hscope'⟩ := exists_scope?_of_set hset
    rw [hscope, hscope']
    rfl
  · rw [scope?_set_of_ne hset hj]

/-- A write to a dead scope fails. -/
theorem set_eq_error_of_scope?_eq_none
    {a : Arena β} {id : ScopeId} (hnone : a.scope? id = none)
    (name : String) (v : Value β) :
    a.set id name v = .error (.releasedScope id) := by
  rcases id with ⟨_ | slot⟩
  · cases hnone
  · rw [scope?_succ] at hnone
    simp [set, hnone]

/-- A number that stands for nothing can be neither read nor written. -/
theorem dead_iff
    {a : Arena β} {id : ScopeId} :
    a.Dead id ↔ a.scope? id = none := by
  constructor
  · intro hdead
    exact hdead.scope
  · intro hnone
    exact ⟨hnone, get_eq_error_of_scope?_eq_none hnone,
      set_eq_error_of_scope?_eq_none hnone⟩

end Arena
end Stackline
