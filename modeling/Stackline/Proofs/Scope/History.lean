import Mathlib.Data.List.Induction
import Stackline.Proofs.Scope.Arena

/-!
# Histories of an arena

Scopes come and go in any order.  This module follows an arena through an
arbitrary history of additions, writes and releases, and settles when the number
of a released scope is given to another one.

Releasing gives back the free slots at the end, so a number does come back: the
next scope takes it as soon as everything numbered from there on has been
released while the scope just before it lives.  As long as that does not happen
at the moment of an addition, a released number stays dead.
-/

namespace Stackline
namespace Arena

variable {β : Type}

/-- One use of an arena by its host. -/
inductive Action (β : Type) where
  | push (parent : Option ScopeId)
  | set (id : ScopeId) (name : String) (value : Value β)
  | release (id : ScopeId)

/-- The arena after one action.  A write that fails leaves it as it was. -/
def act (a : Arena β) : Action β → Arena β
  | .push parent => (a.push parent).2
  | .set id name v =>
    match a.set id name v with
    | .ok b => b
    | .error _ => a
  | .release id => a.release id

/-- The arena after a history, the first action first. -/
def actAll (a : Arena β) (history : List (Action β)) : Arena β :=
  history.foldl act a

/-- The next scope takes the number: nothing lives from that number on, and the
number before it is in use. -/
def Reissues (a : Arena β) (id : ScopeId) : Prop :=
  (∀ other : ScopeId, id.index ≤ other.index → ¬a.Live other) ∧
    a.Live ⟨id.index - 1⟩

theorem actAll_append
    (a : Arena β) (past later : List (Action β)) :
    a.actAll (past ++ later) = (a.actAll past).actAll later :=
  List.foldl_append

/-! ## What an action does to the scope with a number -/

/-- What an action makes of the scope with a number, as long as it does not give
the number to a new one. -/
def Action.effect (id : ScopeId) (scope : Option (Scope β)) : Action β → Option (Scope β)
  | .push _ => scope
  | .set written name v =>
    if written = id then
      scope.map fun s => { s with bindings := s.bindings.set name v }
    else scope
  | .release released => if released = id ∧ id ≠ .global then none else scope

theorem Action.effect_none
    (action : Action β) (id : ScopeId) :
    action.effect id none = none := by
  cases action with
  | push parent => rfl
  | set written name v => simp [effect]
  | release released => simp [effect]

/-- The action adds a scope, and the scope gets the number. -/
def Issues (a : Arena β) (action : Action β) (id : ScopeId) : Prop :=
  (∃ parent, action = .push parent) ∧ id.index = a.slots.length + 1

theorem scope?_act_of_not_issues
    {a : Arena β} {action : Action β} {id : ScopeId} (hold : ¬a.Issues action id) :
    (a.act action).scope? id = action.effect id (a.scope? id) := by
  cases action with
  | push parent =>
      have hindex : id.index ≠ a.slots.length + 1 := fun hindex => hold ⟨⟨parent, rfl⟩, hindex⟩
      exact scope?_push_of_ne a parent hindex
  | set written name v =>
      simp only [act, Action.effect]
      by_cases hid : written = id
      · subst written
        rw [if_pos rfl]
        cases hscope : a.scope? id with
        | none =>
            rw [set_eq_error_of_scope?_eq_none hscope]
            exact hscope
        | some scope =>
            have hlive : a.Live id := Option.isSome_iff_exists.mpr ⟨scope, hscope⟩
            obtain ⟨b, hset⟩ := exists_set_of_live hlive name v
            obtain ⟨scope', hscope', hwritten⟩ := exists_scope?_of_set hset
            rw [hset]
            cases hscope.symm.trans hscope'
            exact hwritten
      · rw [if_neg hid]
        split
        next b hset => exact scope?_set_of_ne hset (Ne.symm hid)
        next => rfl
  | release released =>
      simp only [act, Action.effect]
      by_cases hid : released = id
      · subst released
        by_cases hglobal : id = .global
        · subst id
          simp only [ne_eq, not_true_eq_false, and_false, if_false]
          rfl
        · rw [if_pos ⟨rfl, hglobal⟩]
          exact a.scope?_release_self hglobal
      · rw [if_neg fun h => hid h.1]
        exact a.scope?_release_of_ne (Ne.symm hid)

/-! ## The last slot is in use -/

theorem trimmed_empty :
    (empty : Arena β).Trimmed := by
  simp [Trimmed, empty]

/-- A write to a slot in use frees no slot. -/
theorem trimmed_set
    {a b : Arena β} {id : ScopeId} {name : String} {v : Value β}
    (htrim : a.Trimmed) (hset : a.set id name v = .ok b) :
    b.Trimmed := by
  rcases id with ⟨_ | slot⟩
  · simp only [set, Except.ok.injEq] at hset
    subst b
    exact htrim
  · simp only [set] at hset
    split at hset
    next => cases hset
    next scope hscope =>
      simp only [Except.ok.injEq] at hset
      subst b
      simp only [Trimmed, List.getLast?_eq_getElem?, List.length_set,
        List.getElem?_set] at htrim ⊢
      split
      next => split <;> simp
      next => exact htrim

theorem trimmed_release_of_ne_global
    (a : Arena β) {id : ScopeId} (hne : id ≠ .global) :
    (a.release id).Trimmed := by
  obtain ⟨slot, rfl⟩ := exists_slot_of_ne_global hne
  exact getLast?_dropFree (a.slots.set slot none)

theorem trimmed_release
    {a : Arena β} (htrim : a.Trimmed) (id : ScopeId) :
    (a.release id).Trimmed := by
  by_cases hglobal : id = .global
  · subst id
    exact htrim
  · exact a.trimmed_release_of_ne_global hglobal

theorem trimmed_act
    {a : Arena β} (htrim : a.Trimmed) (action : Action β) :
    (a.act action).Trimmed := by
  cases action with
  | push parent => simp [act, push, Trimmed]
  | set id name v =>
      simp only [act]
      split
      next b hset => exact trimmed_set htrim hset
      next => exact htrim
  | release id => exact trimmed_release htrim id

theorem trimmed_actAll
    {a : Arena β} (htrim : a.Trimmed) (history : List (Action β)) :
    (a.actAll history).Trimmed := by
  induction history generalizing a with
  | nil => exact htrim
  | cons action rest ih => exact ih (trimmed_act htrim action)

/-- Where the last slot is in use, the greatest live number is the number of
slots. -/
theorem live_length_of_trimmed
    {a : Arena β} (htrim : a.Trimmed) :
    a.Live ⟨a.slots.length⟩ := by
  rcases hlast : a.slots.getLast? with _ | _ | scope
  · have hnil : a.slots = [] := List.getLast?_eq_none_iff.mp hlast
    simp [Live, hnil]
  · exact absurd hlast htrim
  · obtain ⟨first, hslots⟩ := List.getLast?_eq_some_iff.mp hlast
    simp [Live, hslots]

/-- The number that is given next is one more than the number of slots. -/
theorem reissues_iff_of_trimmed
    {a : Arena β} (htrim : a.Trimmed) {id : ScopeId} (hne : id ≠ .global) :
    a.Reissues id ↔ id.index = a.slots.length + 1 := by
  obtain ⟨slot, rfl⟩ := exists_slot_of_ne_global hne
  constructor
  · rintro ⟨hdead, hbefore⟩
    have hle : slot ≤ a.slots.length := by
      by_contra hlt
      have hnone : a.scope? ⟨slot⟩ = none :=
        scope?_eq_none_of_length_lt (Nat.lt_of_not_le hlt)
      exact not_live_iff.mpr hnone hbefore
    have hge : a.slots.length ≤ slot := by
      by_contra hlt
      exact hdead ⟨a.slots.length⟩ (Nat.lt_of_not_le hlt) (live_length_of_trimmed htrim)
    exact congrArg Nat.succ (Nat.le_antisymm hle hge)
  · intro hindex
    have hslot : slot = a.slots.length := Nat.succ.inj hindex
    subst slot
    refine ⟨?_, live_length_of_trimmed htrim⟩
    intro other hother
    exact not_live_iff.mpr (scope?_eq_none_of_length_lt hother)

/-! ## How a released number comes back -/

/-- A dead number comes to life by an addition that takes its slot, and by
nothing else. -/
theorem scope?_act_eq_none_iff
    {a : Arena β} (htrim : a.Trimmed) {id : ScopeId} (hne : id ≠ .global)
    (hnone : a.scope? id = none) (action : Action β) :
    (a.act action).scope? id = none ↔
      ∀ parent, action = .push parent → ¬a.Reissues id := by
  cases action with
  | push parent =>
      rw [reissues_iff_of_trimmed htrim hne]
      simp only [act, scope?_push_eq_none_iff]
      constructor
      · rintro ⟨-, hindex⟩ _ _
        exact hindex
      · intro hindex
        exact ⟨hnone, hindex parent rfl⟩
  | set | release =>
      refine iff_of_true ?_ (fun parent hpush => nomatch hpush)
      rw [scope?_act_of_not_issues, hnone, Action.effect_none]
      rintro ⟨⟨parent, hpush⟩, -⟩
      cases hpush

/-- A dead number stays dead through a whole history exactly if no addition is
made while that number is the next to be given. -/
theorem scope?_actAll_eq_none_throughout_iff
    {a : Arena β} (htrim : a.Trimmed) {id : ScopeId} (hne : id ≠ .global)
    (hnone : a.scope? id = none) (history : List (Action β)) :
    (∀ past rest, history = past ++ rest → (a.actAll past).scope? id = none) ↔
      ∀ past parent rest, history = past ++ .push parent :: rest →
        ¬(a.actAll past).Reissues id := by
  have hstep : ∀ past action, (a.actAll past).scope? id = none →
      ((a.actAll (past ++ [action])).scope? id = none ↔
        ∀ parent, action = .push parent → ¬(a.actAll past).Reissues id) := by
    intro past action hpast
    rw [actAll_append]
    exact scope?_act_eq_none_iff (trimmed_actAll htrim past) hne hpast action
  constructor
  · intro hdead past parent rest hhistory
    have hbefore := hdead past (.push parent :: rest) hhistory
    have hafter := hdead (past ++ [.push parent]) rest (by simpa using hhistory)
    exact (hstep past _ hbefore).mp hafter parent rfl
  · intro hfree past
    -- The history is followed from its start, so the last action comes off.
    induction past using List.reverseRecOn with
    | nil =>
        intro rest _
        exact hnone
    | append_singleton past action ih =>
        intro rest hhistory
        have hhistory' : history = past ++ action :: rest := by simpa using hhistory
        refine (hstep past action (ih _ hhistory')).mpr ?_
        rintro parent rfl
        exact hfree past parent rest hhistory'

/-- The number of a released scope is dead through the whole rest of a history
exactly if no later addition is made while that number is the next to be
given. -/
theorem released_dead_throughout_iff
    (before later : List (Action β)) {id : ScopeId} (hne : id ≠ .global) :
    (∀ past rest, later = past ++ rest →
        ((empty : Arena β).actAll (before ++ .release id :: past)).Dead id) ↔
      ∀ past parent rest, later = past ++ .push parent :: rest →
        ¬((empty : Arena β).actAll (before ++ .release id :: past)).Reissues id := by
  have hsplit : ∀ past, (empty : Arena β).actAll (before ++ .release id :: past) =
      (((empty : Arena β).actAll before).release id).actAll past := by
    intro past
    exact actAll_append _ _ _
  have htrim : (((empty : Arena β).actAll before).release id).Trimmed :=
    trimmed_release (trimmed_actAll trimmed_empty before) id
  simp only [hsplit, dead_iff]
  exact scope?_actAll_eq_none_throughout_iff htrim hne (scope?_release_self _ hne) later

/-- A scope that is younger and lives keeps the number dead; without one the
number is given again at once. -/
theorem released_dead_throughout_iff_one :
    (⟨1⟩ : ScopeId) ≠ .global ∧
      (∀ past rest, [Action.push none] = past ++ rest →
        ((empty : Arena Empty).actAll
          ([.push none, .push none] ++ .release ⟨1⟩ :: past)).Dead ⟨1⟩) ∧
      ¬∀ past rest, [Action.push none] = past ++ rest →
        ((empty : Arena Empty).actAll ([.push none] ++ .release ⟨1⟩ :: past)).Dead ⟨1⟩ := by
  have hne : (⟨1⟩ : ScopeId) ≠ .global := by decide
  have htrim : ∀ history, ((empty : Arena Empty).actAll history).Trimmed :=
    trimmed_actAll trimmed_empty
  refine ⟨hne, ?_, ?_⟩
  · refine (released_dead_throughout_iff _ _ hne).mpr ?_
    intro past parent rest hlater
    obtain rfl : past = [] := by
      cases past with
      | nil => rfl
      | cons first past => simp at hlater
    rw [reissues_iff_of_trimmed (htrim _) hne]
    decide
  · intro hdead
    refine (released_dead_throughout_iff _ _ hne).mp hdead [] none [] rfl ?_
    rw [reissues_iff_of_trimmed (htrim _) hne]
    rfl

end Arena
end Stackline
