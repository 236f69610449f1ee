import Stackline.Proofs.Scope.History

/-!
# What a lookup finds

A lookup goes from a scope to its parent, from there to the next, and so on.
Nothing in an arena itself keeps that from going round in a circle.  What does is
the order in which scopes are made: a scope that falls back on a live one gets a
greater number than it.  Numbers are given again, but only to scopes that are
added when nothing from that number on is live, so the order survives.

Along such a chain the answer is the one of the first scope that has one: a scope
that binds the name answers with the value, and one that has been released answers
with a fault.
-/

namespace Stackline
namespace Arena

variable {β : Type}

/-- Every parent has a smaller number than its child. -/
def Descends (a : Arena β) : Prop :=
  ∀ id scope parent, a.scope? id = some scope → scope.parent = some parent →
    parent.index < id.index

/-- Every scope that the history adds falls back on nothing or on a scope that is
live at that moment. -/
def ParentsLive (a : Arena β) (history : List (Action β)) : Prop :=
  ∀ past parent rest, history = past ++ .push (some parent) :: rest →
    (a.actAll past).Live parent

/-- The numbers that the chain of parents goes through from `id` on.  It ends at a
scope without a parent or at a number that stands for nothing. -/
inductive Lineage (a : Arena β) : ScopeId → List ScopeId → Prop where
  | dead {id : ScopeId} (hscope : a.scope? id = none) : Lineage a id [id]
  | root {id : ScopeId} {scope : Scope β} (hscope : a.scope? id = some scope)
      (hparent : scope.parent = none) : Lineage a id [id]
  | child {id parent : ScopeId} {scope : Scope β} {ids : List ScopeId}
      (hscope : a.scope? id = some scope) (hparent : scope.parent = some parent)
      (hrest : Lineage a parent ids) : Lineage a id (id :: ids)

/-- The scope is live and does not bind the name. -/
def Lacks (a : Arena β) (name : String) (id : ScopeId) : Prop :=
  ∃ scope, a.scope? id = some scope ∧ scope.bindings.get? name = none

/-- A lookup of the name along a chain comes to `id`: the scopes before it do not
answer. -/
def ComesTo (a : Arena β) (name : String) (ids : List ScopeId) (id : ScopeId) : Prop :=
  ∃ passed rest, ids = passed ++ id :: rest ∧ ∀ j ∈ passed, a.Lacks name j

/-- What the scope with a number answers to a lookup, if it has an answer. -/
def answer? (a : Arena β) (name : String) (id : ScopeId) : Option (Except Fault (Value β)) :=
  match a.scope? id with
  | none => some (.error (.releasedScope id))
  | some scope => (scope.bindings.get? name).map .ok

/-! ## Parents come first -/

theorem descends_empty :
    (empty : Arena β).Descends := by
  rintro ⟨_ | slot⟩ scope parent hscope hparent
  · cases hscope
    cases hparent
  · simp [empty] at hscope

/-- An action that leaves a scope behind has left it its parent. -/
theorem Action.exists_parent_of_effect
    {action : Action β} {id : ScopeId} {before : Option (Scope β)} {scope : Scope β}
    (heffect : action.effect id before = some scope) :
    ∃ old, before = some old ∧ old.parent = scope.parent := by
  cases action with
  | push parent => exact ⟨scope, heffect, rfl⟩
  | set written name v =>
      simp only [effect] at heffect
      split at heffect
      next =>
        obtain ⟨old, hold, rfl⟩ := Option.map_eq_some_iff.mp heffect
        exact ⟨old, hold, rfl⟩
      next => exact ⟨scope, heffect, rfl⟩
  | release released =>
      simp only [effect] at heffect
      split at heffect
      next => cases heffect
      next => exact ⟨scope, heffect, rfl⟩

theorem descends_act
    {a : Arena β} (hdescends : a.Descends) {action : Action β}
    (hlive : ∀ parent, action = .push (some parent) → a.Live parent) :
    (a.act action).Descends := by
  intro id scope parent hscope hparent
  by_cases hissues : a.Issues action id
  · -- The new scope gets a number beyond all slots, and its parent has one.
    obtain ⟨⟨added, rfl⟩, hindex⟩ := hissues
    have hid : id = ⟨a.slots.length + 1⟩ := congrArg ScopeId.mk hindex
    subst id
    rw [act, scope?_push_new] at hscope
    cases hscope
    have hadded : added = some parent := hparent
    have hle : parent.index ≤ a.slots.length :=
      index_le_length_of_live (hlive parent (by rw [hadded]))
    exact Nat.lt_succ_of_le hle
  · rw [scope?_act_of_not_issues hissues] at hscope
    obtain ⟨old, hold, hsame⟩ := Action.exists_parent_of_effect hscope
    exact hdescends id old parent hold (hsame.trans hparent)

theorem parentsLive_cons_iff
    {a : Arena β} {action : Action β} {rest : List (Action β)} :
    a.ParentsLive (action :: rest) ↔
      (∀ parent, action = .push (some parent) → a.Live parent) ∧
        (a.act action).ParentsLive rest := by
  constructor
  · intro hlive
    constructor
    · rintro parent rfl
      exact hlive [] parent rest rfl
    · intro past parent later hrest
      exact hlive (action :: past) parent later (by rw [hrest]; rfl)
  · rintro ⟨hfirst, hrest⟩ past parent later hhistory
    cases past with
    | nil =>
        cases hhistory
        exact hfirst parent rfl
    | cons _ past =>
        cases hhistory
        exact hrest past parent later rfl

theorem descends_actAll
    {a : Arena β} (hdescends : a.Descends) {history : List (Action β)}
    (hlive : a.ParentsLive history) :
    (a.actAll history).Descends := by
  induction history generalizing a with
  | nil => exact hdescends
  | cons action rest ih =>
      obtain ⟨hfirst, hrest⟩ := parentsLive_cons_iff.mp hlive
      exact ih (descends_act hdescends hfirst) hrest

/-! ## Chains come to an end -/

theorem exists_lineage_of_descends
    {a : Arena β} (hdescends : a.Descends) (id : ScopeId) :
    ∃ ids, a.Lineage id ids := by
  induction hindex : id.index using Nat.strongRecOn generalizing id with
  | ind index ih =>
      subst index
      cases hscope : a.scope? id with
      | none => exact ⟨[id], .dead hscope⟩
      | some scope =>
          cases hparent : scope.parent with
          | none => exact ⟨[id], .root hscope hparent⟩
          | some parent =>
              have hlt : parent.index < id.index := hdescends id scope parent hscope hparent
              obtain ⟨ids, hlineage⟩ := ih parent.index hlt parent rfl
              exact ⟨id :: ids, .child hscope hparent hlineage⟩

/-- The numbers fall along the chain, so there are no more of them than numbers up
to the first. -/
theorem Lineage.length_le_index
    {a : Arena β} (hdescends : a.Descends) {id : ScopeId} {ids : List ScopeId}
    (hlineage : a.Lineage id ids) :
    ids.length ≤ id.index + 1 := by
  induction hlineage with
  | dead hscope => simp
  | root hscope hparent => simp
  | @child id parent scope ids hscope hparent _ ih =>
      have hlt : parent.index < id.index := hdescends id scope parent hscope hparent
      rw [List.length_cons]
      omega

theorem Lineage.length_le_slots
    {a : Arena β} (hdescends : a.Descends) {id : ScopeId} {ids : List ScopeId}
    (hlineage : a.Lineage id ids) :
    ids.length ≤ a.slots.length + 1 := by
  by_cases hlive : a.Live id
  · have hindex : id.index ≤ a.slots.length := index_le_length_of_live hlive
    have hlength : ids.length ≤ id.index + 1 := hlineage.length_le_index hdescends
    omega
  · have hnone : a.scope? id = none := not_live_iff.mp hlive
    cases hlineage with
    | dead hscope => simp
    | root hscope hparent => simp
    | child hscope hparent hrest =>
        rw [hnone] at hscope
        cases hscope

/-! ## The first answer along the chain -/

theorem answer?_eq_none_iff
    {a : Arena β} {name : String} {id : ScopeId} :
    a.answer? name id = none ↔ a.Lacks name id := by
  unfold answer? Lacks
  cases a.scope? id <;> simp

theorem answer?_eq_ok_iff
    {a : Arena β} {name : String} {id : ScopeId} {v : Value β} :
    a.answer? name id = some (.ok v) ↔
      ∃ scope, a.scope? id = some scope ∧ scope.bindings.get? name = some v := by
  unfold answer?
  cases a.scope? id <;> simp

theorem answer?_eq_error_iff
    {a : Arena β} {name : String} {id : ScopeId} {cause : Fault} :
    a.answer? name id = some (.error cause) ↔
      a.scope? id = none ∧ cause = .releasedScope id := by
  unfold answer?
  cases a.scope? id with
  | none => simp [eq_comm]
  | some scope => simp

/-- With enough fuel for the whole chain, a lookup gives the first answer along it,
and more fuel changes nothing. -/
theorem find_of_lineage
    {a : Arena β} {id : ScopeId} {ids : List ScopeId} (hlineage : a.Lineage id ids)
    (name : String) {fuel : Nat} (hfuel : ids.length ≤ fuel) :
    a.find name fuel id =
      (ids.findSome? (a.answer? name)).getD (.error (.undefined name)) := by
  induction hlineage generalizing fuel with
  | @dead id hscope =>
      obtain ⟨fuel, rfl⟩ : ∃ n, fuel = n + 1 := ⟨fuel - 1, by simp at hfuel; omega⟩
      simp [find, answer?, hscope]
  | @root id scope hscope hparent =>
      obtain ⟨fuel, rfl⟩ : ∃ n, fuel = n + 1 := ⟨fuel - 1, by simp at hfuel; omega⟩
      cases hbound : Bindings.get? name scope.bindings <;>
        simp [find, answer?, hscope, hbound, hparent]
  | @child id parent scope ids hscope hparent _ ih =>
      rw [List.length_cons] at hfuel
      obtain ⟨fuel, rfl⟩ : ∃ n, fuel = n + 1 := ⟨fuel - 1, by omega⟩
      cases hbound : Bindings.get? name scope.bindings with
      | some v => simp [find, answer?, hscope, hbound]
      | none =>
          have hrest := ih (Nat.le_of_succ_le_succ hfuel)
          simp [find, answer?, hscope, hbound, hparent, hrest]

theorem findSome?_answer?_eq_some_iff
    {a : Arena β} {name : String} {ids : List ScopeId} {answer : Except Fault (Value β)} :
    ids.findSome? (a.answer? name) = some answer ↔
      ∃ id, a.ComesTo name ids id ∧ a.answer? name id = some answer := by
  simp only [List.findSome?_eq_some_iff, answer?_eq_none_iff, ComesTo]
  constructor
  · rintro ⟨passed, id, rest, hids, hanswer, hlack⟩
    exact ⟨id, ⟨passed, rest, hids, hlack⟩, hanswer⟩
  · rintro ⟨id, ⟨passed, rest, hids, hlack⟩, hanswer⟩
    exact ⟨passed, id, rest, hids, hanswer, hlack⟩

section Get

variable {a : Arena β} {id : ScopeId} {ids : List ScopeId}

theorem get_of_lineage
    (hdescends : a.Descends) (hlineage : a.Lineage id ids) (name : String) :
    a.get id name =
      (ids.findSome? (a.answer? name)).getD (.error (.undefined name)) :=
  find_of_lineage hlineage name (hlineage.length_le_slots hdescends)

theorem get_eq_ok_iff
    (hdescends : a.Descends) (hlineage : a.Lineage id ids) {name : String} {v : Value β} :
    a.get id name = .ok v ↔
      ∃ j scope, a.ComesTo name ids j ∧ a.scope? j = some scope ∧
        scope.bindings.get? name = some v := by
  have hfirst : a.get id name = .ok v ↔ ids.findSome? (a.answer? name) = some (.ok v) := by
    rw [get_of_lineage hdescends hlineage]
    cases ids.findSome? (a.answer? name) <;> simp
  simp only [hfirst, findSome?_answer?_eq_some_iff, answer?_eq_ok_iff]
  constructor
  · rintro ⟨j, hcomes, scope, hscope, hbound⟩
    exact ⟨j, scope, hcomes, hscope, hbound⟩
  · rintro ⟨j, scope, hcomes, hscope, hbound⟩
    exact ⟨j, hcomes, scope, hscope, hbound⟩

theorem get_eq_releasedScope_iff
    (hdescends : a.Descends) (hlineage : a.Lineage id ids) {name : String} {j : ScopeId} :
    a.get id name = .error (.releasedScope j) ↔
      a.ComesTo name ids j ∧ a.scope? j = none := by
  have hfirst : a.get id name = .error (.releasedScope j) ↔
      ids.findSome? (a.answer? name) = some (.error (.releasedScope j)) := by
    rw [get_of_lineage hdescends hlineage]
    cases ids.findSome? (a.answer? name) <;> simp
  simp only [hfirst, findSome?_answer?_eq_some_iff, answer?_eq_error_iff]
  constructor
  · rintro ⟨_, hcomes, hscope, hcause⟩
    cases hcause
    exact ⟨hcomes, hscope⟩
  · rintro ⟨hcomes, hscope⟩
    exact ⟨j, hcomes, hscope, rfl⟩

theorem get_eq_undefined_iff
    (hdescends : a.Descends) (hlineage : a.Lineage id ids) {name : String} :
    a.get id name = .error (.undefined name) ↔ ∀ j ∈ ids, a.Lacks name j := by
  rw [get_of_lineage hdescends hlineage]
  cases hfirst : ids.findSome? (a.answer? name) with
  | none => simpa [answer?_eq_none_iff] using hfirst
  | some answer =>
      obtain ⟨j, ⟨passed, rest, hids, -⟩, hanswer⟩ := findSome?_answer?_eq_some_iff.mp hfirst
      refine iff_of_false ?_ ?_
      · -- No scope answers that the name has no value.
        rintro rfl
        obtain ⟨-, hcause⟩ := answer?_eq_error_iff.mp hanswer
        cases hcause
      · intro hlack
        have hj : a.Lacks name j := hlack j (by simp [hids])
        rw [answer?_eq_none_iff.mpr hj] at hanswer
        cases hanswer

end Get

/-- In an arena whose scopes were added as children of live ones, every parent has
a smaller number than its child, so every chain of parents comes to an end and so
does every lookup along it.  The lookup gives the value that the nearest scope
binds, or meets the first released scope if that comes before, or else finds that
no scope of the chain binds the name. -/
theorem lookup_finds_nearest_binding
    (history : List (Action β)) (hlive : (empty : Arena β).ParentsLive history) :
    let a := (empty : Arena β).actAll history
    (∀ id scope parent, a.scope? id = some scope → scope.parent = some parent →
        parent.index < id.index) ∧
      (∀ id, ∃ ids, a.Lineage id ids) ∧
      ∀ id ids name, a.Lineage id ids →
        ids.length ≤ id.index + 1 ∧
        (∀ fuel, ids.length ≤ fuel → a.find name fuel id = a.get id name) ∧
        (∀ v, a.get id name = .ok v ↔
          ∃ j scope, a.ComesTo name ids j ∧ a.scope? j = some scope ∧
            scope.bindings.get? name = some v) ∧
        (∀ j, a.get id name = .error (.releasedScope j) ↔
          a.ComesTo name ids j ∧ a.scope? j = none) ∧
        (a.get id name = .error (.undefined name) ↔ ∀ j ∈ ids, a.Lacks name j) := by
  intro a
  have hdescends : a.Descends := descends_actAll descends_empty hlive
  refine ⟨hdescends, exists_lineage_of_descends hdescends, ?_⟩
  intro id ids name hlineage
  refine ⟨hlineage.length_le_index hdescends, ?_, ?_, ?_, ?_⟩
  · intro fuel hfuel
    rw [find_of_lineage hlineage name hfuel, get_of_lineage hdescends hlineage]
  · intro v
    exact get_eq_ok_iff hdescends hlineage
  · intro j
    exact get_eq_releasedScope_iff hdescends hlineage
  · exact get_eq_undefined_iff hdescends hlineage

/-- The parent of the youngest scope has been released, so nothing that lies behind
it is found any more, not even a global. -/
theorem lookup_finds_nearest_binding_behind_released :
    let history : List (Action Empty) :=
      [.push (some .global), .push (some ⟨1⟩), .set .global "g" (.int 5), .release ⟨1⟩]
    let a := (empty : Arena Empty).actAll history
    (empty : Arena Empty).ParentsLive history ∧ a.Lineage ⟨2⟩ [⟨2⟩, ⟨1⟩] ∧
      a.get ⟨2⟩ "g" = .error (.releasedScope ⟨1⟩) := by
  intro history a
  have hlive : (empty : Arena Empty).ParentsLive history := by
    simp only [history, parentsLive_cons_iff]
    refine ⟨?_, ?_, ?_, ?_, ?_⟩
    · rintro _ ⟨⟩
      rfl
    · rintro _ ⟨⟩
      rfl
    · rintro _ ⟨⟩
    · rintro _ ⟨⟩
    · intro past parent rest hnil
      simp at hnil
  have hlineage : a.Lineage ⟨2⟩ [⟨2⟩, ⟨1⟩] := .child rfl rfl (.dead rfl)
  obtain ⟨-, -, hlookup⟩ := lookup_finds_nearest_binding history hlive
  obtain ⟨-, -, -, hreleased, -⟩ := hlookup ⟨2⟩ _ "g" hlineage
  refine ⟨hlive, hlineage, (hreleased ⟨1⟩).mpr ⟨⟨[⟨2⟩], [], rfl, ?_⟩, rfl⟩⟩
  intro j hj
  obtain rfl : j = ⟨2⟩ := by simpa using hj
  exact ⟨_, rfl, rfl⟩

end Arena
end Stackline
