import Stackline.Proofs.Scope.Lookup

/-!
# A child never meets a stranger in its parent's place

The number of a released scope is given again as soon as everything from that
number on is gone.  A child names its parent by number, so a new scope in the
parent's place would be taken for the parent.  It never is: the child has a greater
number than its parent, and as long as the child lives, the slots below it stay
and no new scope gets one of them.

What a history makes of a number that is not given again is the effect of its
actions on that number, one after the other.
-/

namespace Stackline

variable {β : Type}

/-- Binds names one after the other. -/
def Bindings.setAll (bindings : Bindings β) (writes : List (String × Value β)) : Bindings β :=
  writes.foldl (fun bindings (name, v) => bindings.set name v) bindings

theorem Bindings.setAll_append
    (bindings : Bindings β) (first second : List (String × Value β)) :
    bindings.setAll (first ++ second) = (bindings.setAll first).setAll second :=
  List.foldl_append

namespace Arena

/-- What a history writes to a scope, the first write first. -/
def writesTo (id : ScopeId) (history : List (Action β)) : List (String × Value β) :=
  history.filterMap fun
    | .set written name v => if written = id then some (name, v) else none
    | _ => none

/-- What the actions of a history make of the scope with a number, as long as none
of them gives the number to a new one. -/
def effectAll (id : ScopeId) (scope : Option (Scope β)) (history : List (Action β)) :
    Option (Scope β) :=
  history.foldl (fun scope action => action.effect id scope) scope

/-! ## The effect of a history on one number -/

theorem effectAll_none
    (id : ScopeId) (history : List (Action β)) :
    effectAll id none history = none := by
  induction history with
  | nil => rfl
  | cons action rest ih =>
      rw [effectAll, List.foldl_cons, Action.effect_none]
      exact ih

theorem effectAll_of_released
    {id : ScopeId} (hne : id ≠ .global) {history : List (Action β)}
    (hreleased : .release id ∈ history) (scope : Option (Scope β)) :
    effectAll id scope history = none := by
  induction history generalizing scope with
  | nil => cases hreleased
  | cons action rest ih =>
      rw [effectAll, List.foldl_cons]
      rcases List.mem_cons.mp hreleased with rfl | hrest
      · have hgone : (Action.release id).effect id scope = none := by
          simp only [Action.effect]
          exact if_pos ⟨trivial, hne⟩
        rw [hgone]
        exact effectAll_none id rest
      · exact ih hrest (action.effect id scope)

theorem Action.effect_of_ne_release
    {id : ScopeId} {action : Action β} (hkept : action ≠ .release id) (scope : Scope β) :
    action.effect id (some scope) =
      some { scope with bindings := scope.bindings.setAll (writesTo id [action]) } := by
  cases action with
  | push parent => rfl
  | set written name v =>
      by_cases hid : written = id
      · simp [effect, writesTo, Bindings.setAll, hid]
      · simp [effect, writesTo, Bindings.setAll, hid]
  | release released =>
      have hid : released ≠ id := by
        rintro rfl
        exact hkept rfl
      simp [effect, writesTo, Bindings.setAll, hid]

/-- Without a release, the scope keeps its parent and has what it had before and
what has been written to it since. -/
theorem effectAll_of_not_released
    {id : ScopeId} {history : List (Action β)} (hkept : .release id ∉ history)
    (scope : Scope β) :
    effectAll id (some scope) history =
      some { scope with bindings := scope.bindings.setAll (writesTo id history) } := by
  induction history generalizing scope with
  | nil => rfl
  | cons action rest ih =>
      rw [List.mem_cons, not_or] at hkept
      obtain ⟨haction, hrest⟩ := hkept
      have hwrites : writesTo id (action :: rest) = writesTo id [action] ++ writesTo id rest :=
        List.filterMap_append (l := [action])
      rw [effectAll, List.foldl_cons, Action.effect_of_ne_release (Ne.symm haction), hwrites,
        Bindings.setAll_append]
      exact ih hrest { scope with bindings := scope.bindings.setAll (writesTo id [action]) }

/-! ## Numbers below a live scope -/

/-- While a scope is live, neither its number nor one below it is given to a new
scope. -/
theorem not_issues_of_live
    {a : Arena β} {child id : ScopeId} (hlive : a.Live child) (hle : id.index ≤ child.index)
    (action : Action β) :
    ¬a.Issues action id := by
  rintro ⟨-, hindex⟩
  have hchild : child.index ≤ a.slots.length := index_le_length_of_live hlive
  omega

theorem live_act_of_kept
    {a : Arena β} {child : ScopeId} (hlive : a.Live child) {action : Action β}
    (hkept : action ≠ .release child) :
    (a.act action).Live child := by
  obtain ⟨scope, hscope⟩ := Option.isSome_iff_exists.mp hlive
  have hold : ¬a.Issues action child := not_issues_of_live hlive (Nat.le_refl _) action
  rw [Live, scope?_act_of_not_issues hold, hscope, Action.effect_of_ne_release hkept]
  rfl

theorem live_actAll_of_kept
    {a : Arena β} {child : ScopeId} (hlive : a.Live child) {history : List (Action β)}
    (hkept : .release child ∉ history) :
    (a.actAll history).Live child := by
  induction history generalizing a with
  | nil => exact hlive
  | cons action rest ih =>
      rw [List.mem_cons, not_or] at hkept
      obtain ⟨haction, hrest⟩ := hkept
      exact ih (live_act_of_kept hlive (Ne.symm haction)) hrest

/-- A history that keeps a scope has on every number up to that of the scope the
effect of its actions and no other. -/
theorem scope?_actAll_of_kept
    {a : Arena β} {child id : ScopeId} (hlive : a.Live child) (hle : id.index ≤ child.index)
    {history : List (Action β)} (hkept : .release child ∉ history) :
    (a.actAll history).scope? id = effectAll id (a.scope? id) history := by
  induction history generalizing a with
  | nil => rfl
  | cons action rest ih =>
      rw [List.mem_cons, not_or] at hkept
      obtain ⟨haction, hrest⟩ := hkept
      have hstep : (a.act action).scope? id = action.effect id (a.scope? id) :=
        scope?_act_of_not_issues (not_issues_of_live hlive hle action)
      have hafter := ih (live_act_of_kept hlive (Ne.symm haction)) hrest
      rw [hstep] at hafter
      exact hafter

theorem push_fst_ne_of_live
    {a : Arena β} {child id : ScopeId} (hlive : a.Live child) (hlt : id.index < child.index)
    (hlast : child.index ≤ ScopeId.last.index) (parent : Option ScopeId) :
    (a.push parent).1 ≠ id := by
  intro hgiven
  have hnext : min (a.slots.length + 1) ScopeId.last.index = id.index :=
    congrArg ScopeId.index hgiven
  have hchild : child.index ≤ a.slots.length := index_le_length_of_live hlive
  omega

/-- A lookup that passes a child whose parent is gone ends there. -/
theorem get_of_dead_parent
    {a : Arena β} {child p : ScopeId} {own : Scope β} (hne : child ≠ .global)
    (hown : a.scope? child = some own) (hparent : own.parent = some p)
    (hdead : a.scope? p = none) {name : String} (hlacks : own.bindings.get? name = none) :
    a.get child name = .error (.releasedScope p) := by
  have hlineage : a.Lineage child [child, p] := .child hown hparent (.dead hdead)
  have hfuel : [child, p].length ≤ a.slots.length + 1 := by
    have hindex : child.index ≠ 0 := fun hzero => hne (congrArg ScopeId.mk hzero)
    have hlength : child.index ≤ a.slots.length :=
      index_le_length_of_live (Option.isSome_iff_exists.mpr ⟨own, hown⟩)
    simp only [List.length_cons, List.length_nil]
    omega
  have hpass : a.answer? name child = none := answer?_eq_none_iff.mpr ⟨own, hown, hlacks⟩
  have hmeets : a.answer? name p = some (.error (.releasedScope p)) :=
    answer?_eq_error_iff.mpr ⟨hdead, rfl⟩
  rw [get, find_of_lineage hlineage name hfuel]
  simp [hpass, hmeets]

/-- A live scope falls back on its parent or, once that has been released, on
nothing at all: nobody else gets the parent's number as long as the child lives.  A
lookup that passes the child then meets the released parent. -/
theorem child_meets_parent_or_nobody
    (a : Arena β) {p : ScopeId} (hne : p ≠ .global) (hlive : a.Live p)
    (hroom : a.slots.length < ScopeId.last.index) (later : List (Action β)) :
    let c := (a.push (some p)).1
    let start := (a.push (some p)).2
    let b := start.actAll later
    .release c ∉ later →
      b.scope? c = some { parent := some p, bindings := .setAll [] (writesTo c later) } ∧
      (∀ scope, a.scope? p = some scope → .release p ∉ later →
        b.scope? p =
          some { scope with bindings := scope.bindings.setAll (writesTo p later) }) ∧
      (.release p ∈ later → b.Dead p) ∧
      (∀ past parent rest, later = past ++ .push parent :: rest →
        ((start.actAll past).push parent).1 ≠ p) ∧
      ∀ own name, b.scope? c = some own → own.bindings.get? name = none →
        .release p ∈ later → b.get c name = .error (.releasedScope p) := by
  intro c start b hkept
  have hc : c = ⟨a.slots.length + 1⟩ := push_fst a (some p) hroom
  have hindex : c.index = a.slots.length + 1 := by rw [hc]
  have hlt : p.index < c.index := by
    have hle : p.index ≤ a.slots.length := index_le_length_of_live hlive
    omega
  have hnew : start.scope? c = some (Scope.empty (some p)) := by
    rw [hc]
    exact a.scope?_push_new (some p)
  have hclive : start.Live c := Option.isSome_iff_exists.mpr ⟨_, hnew⟩
  have hp : start.scope? p = a.scope? p := by
    apply scope?_push_of_ne
    omega
  have hchild : b.scope? c =
      some { parent := some p, bindings := .setAll [] (writesTo c later) } := by
    rw [scope?_actAll_of_kept hclive (Nat.le_refl _) hkept, hnew]
    exact effectAll_of_not_released hkept _
  have hparent : b.scope? p = effectAll p (a.scope? p) later := by
    rw [scope?_actAll_of_kept hclive (Nat.le_of_lt hlt) hkept, hp]
  have hdead : .release p ∈ later → b.scope? p = none := by
    intro hreleased
    rw [hparent]
    exact effectAll_of_released hne hreleased _
  refine ⟨hchild, ?_, fun hreleased => dead_iff.mpr (hdead hreleased), ?_, ?_⟩
  · intro scope hscope hheld
    rw [hparent, hscope]
    exact effectAll_of_not_released hheld scope
  · rintro past parent rest rfl
    have hpast : .release c ∉ past := fun hmem => hkept (List.mem_append_left _ hmem)
    apply push_fst_ne_of_live (live_actAll_of_kept hclive hpast) hlt
    omega
  · intro own name hown hlacks hreleased
    have hchildNe : c ≠ .global := by
      rw [hc]
      exact fun hzero => Nat.succ_ne_zero _ (congrArg ScopeId.index hzero)
    have hfalls : own.parent = some p := by
      rw [hchild] at hown
      cases hown
      rfl
    exact get_of_dead_parent hchildNe hown hfalls (hdead hreleased) hlacks

/-- The parent is released and a new scope binds the same name; the child does not
find it there. -/
theorem child_meets_parent_or_nobody_newcomer :
    let a : Arena Empty := ((empty : Arena Empty).push (some .global)).2
    let later : List (Action Empty) :=
      [.set ⟨1⟩ "x" (.int 1), .release ⟨1⟩, .push none, .set ⟨3⟩ "x" (.int 9)]
    let b := (a.push (some ⟨1⟩)).2.actAll later
    (⟨1⟩ : ScopeId) ≠ .global ∧ a.Live ⟨1⟩ ∧ a.slots.length < ScopeId.last.index ∧
      .release (a.push (some ⟨1⟩)).1 ∉ later ∧ b.Live ⟨3⟩ ∧
      b.get ⟨2⟩ "x" = .error (.releasedScope ⟨1⟩) := by
  intro a later b
  have hne : (⟨1⟩ : ScopeId) ≠ .global := by decide
  have hroom : a.slots.length < ScopeId.last.index := by decide
  have hchild : (a.push (some ⟨1⟩)).1 = ⟨2⟩ := push_fst a (some ⟨1⟩) hroom
  have hkept : .release (a.push (some ⟨1⟩)).1 ∉ later := by
    rw [hchild]
    simp [later]
  obtain ⟨-, -, -, -, hlookup⟩ :=
    child_meets_parent_or_nobody a hne rfl hroom later hkept
  exact ⟨hne, rfl, hroom, hkept, rfl, hlookup _ "x" rfl rfl (by simp [later])⟩

end Arena
end Stackline
