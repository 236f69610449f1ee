import Stackline.Proofs.Scope.Bindings
import Stackline.Proofs.Scope.Lineage

/-!
# What a write changes

A write goes to one scope and one name.  It leaves all chains of parents as they are and
changes a single answer, the one that this scope gives to a lookup of this name.  Whether a
lookup from some other scope finds the new value is then seen on its chain: the chain has
to come to the written scope, and no scope before it may have an answer of its own.
-/

namespace Stackline
namespace Arena

variable {β : Type}

/-- The scope is live and binds the name itself. -/
def Binds (a : Arena β) (name : String) (id : ScopeId) : Prop :=
  ∃ scope v, a.scope? id = some scope ∧ scope.bindings.get? name = some v

theorem lacks_of_live_of_not_binds
    {a : Arena β} {name : String} {id : ScopeId} (hlive : a.Live id) (hfree : ¬a.Binds name id) :
    a.Lacks name id := by
  obtain ⟨scope, hscope⟩ := Option.isSome_iff_exists.mp hlive
  refine ⟨scope, hscope, ?_⟩
  rw [Option.eq_none_iff_forall_ne_some]
  intro v hbound
  exact hfree ⟨scope, v, hscope, hbound⟩

/-! ## One write -/

section Write

variable {a b : Arena β} {id : ScopeId} {name : String} {v : Value β}

theorem answer?_set_self
    (hset : a.set id name v = .ok b) :
    b.answer? name id = some (.ok v) := by
  obtain ⟨scope, -, hscope⟩ := exists_scope?_of_set hset
  exact answer?_eq_ok_iff.mpr ⟨_, hscope, Bindings.get?_set_self scope.bindings name v⟩

theorem answer?_set_of_scope_ne
    (hset : a.set id name v = .ok b) {j : ScopeId} (hj : j ≠ id) (other : String) :
    b.answer? other j = a.answer? other j := by
  rw [answer?, answer?, scope?_set_of_ne hset hj]

theorem answer?_set_of_name_ne
    (hset : a.set id name v = .ok b) {other : String} (hother : other ≠ name) (j : ScopeId) :
    b.answer? other j = a.answer? other j := by
  by_cases hj : j = id
  · subst j
    obtain ⟨scope, hold, hnew⟩ := exists_scope?_of_set hset
    rw [answer?, answer?, hold, hnew]
    exact congrArg (Option.map Except.ok) (Bindings.get?_set_of_ne hother.symm scope.bindings v)
  · exact answer?_set_of_scope_ne hset hj other

/-- Scopes that do not include the written one answer as before. -/
theorem findSome?_answer?_set_of_not_mem
    (hset : a.set id name v = .ok b) {ids : List ScopeId} (hid : id ∉ ids) (other : String) :
    ids.findSome? (b.answer? other) = ids.findSome? (a.answer? other) := by
  induction ids with
  | nil => rfl
  | cons j ids ih =>
      rw [List.mem_cons, not_or] at hid
      obtain ⟨hj, hrest⟩ := hid
      rw [List.findSome?_cons, List.findSome?_cons, answer?_set_of_scope_ne hset (Ne.symm hj),
        ih hrest]

section Lookups

variable {j : ScopeId} {passed rest ids : List ScopeId} {other : String}

theorem get_set_self
    (hset : a.set id name v = .ok b) :
    b.get id name = .ok v := by
  obtain ⟨scope, -, hscope⟩ := exists_scope?_of_set hset
  simp [get, find, hscope]

/-- A lookup finds what it found before if its chain has the same first answer. -/
theorem get_set_of_findSome?_eq
    (hset : a.set id name v = .ok b) (hlineage : a.Lineage j ids)
    (hanswer : ids.findSome? (b.answer? other) = ids.findSome? (a.answer? other)) :
    b.get j other = a.get j other := by
  have hlineage' : b.Lineage j ids := hlineage.of_parents (map_parent_of_set hset)
  rw [hlineage.get_eq, hlineage'.get_eq, hanswer]

theorem get_set_of_name_ne
    (hset : a.set id name v = .ok b) (hlineage : a.Lineage j ids) (hother : other ≠ name) :
    b.get j other = a.get j other := by
  apply get_set_of_findSome?_eq hset hlineage
  rw [funext (answer?_set_of_name_ne hset hother)]

theorem get_set_of_not_mem
    (hset : a.set id name v = .ok b) (hlineage : a.Lineage j ids) (hid : id ∉ ids)
    (other : String) :
    b.get j other = a.get j other :=
  get_set_of_findSome?_eq hset hlineage (findSome?_answer?_set_of_not_mem hset hid other)

/-- A lookup that comes to the written scope finds the value. -/
theorem get_set_of_lacks
    (hset : a.set id name v = .ok b) (hlineage : a.Lineage j (passed ++ id :: rest))
    (hlacks : ∀ k ∈ passed, a.Lacks name k) :
    b.get j name = .ok v := by
  have hlineage' : b.Lineage j (passed ++ id :: rest) :=
    hlineage.of_parents (map_parent_of_set hset)
  -- The chain visits no number twice, so the written scope is not among those passed.
  have hnone : passed.findSome? (b.answer? name) = none := by
    rw [findSome?_answer?_set_of_not_mem hset hlineage.not_mem_passed, List.findSome?_eq_none_iff]
    intro k hk
    exact answer?_eq_none_iff.mpr (hlacks k hk)
  rw [hlineage'.get_eq, List.findSome?_append, hnone, Option.none_or, List.findSome?_cons,
    answer?_set_self hset]
  rfl

/-- A lookup that is answered before it comes to the written scope does not see the write. -/
theorem get_set_of_binds
    (hset : a.set id name v = .ok b) (hlineage : a.Lineage j (passed ++ id :: rest))
    {k : ScopeId} (hk : k ∈ passed) (hbinds : a.Binds name k) :
    b.get j name = a.get j name := by
  have hsame : passed.findSome? (b.answer? name) = passed.findSome? (a.answer? name) :=
    findSome?_answer?_set_of_not_mem hset hlineage.not_mem_passed name
  have hsome : (passed.findSome? (a.answer? name)).isSome := by
    obtain ⟨scope, w, hscope, hbound⟩ := hbinds
    rw [List.findSome?_isSome_iff]
    exact ⟨k, hk, by rw [answer?_eq_ok_iff.mpr ⟨scope, hscope, hbound⟩]; rfl⟩
  apply get_set_of_findSome?_eq hset hlineage
  rw [List.findSome?_append, List.findSome?_append, hsame, Option.or_of_isSome hsome,
    Option.or_of_isSome hsome]

end Lookups

end Write

/-- In an arena whose chains of parents end, a live scope can be written to.  It then has
the value under that name.  No other name is touched in any scope, and no name in a scope
whose chain does not come to the written one, such as the scopes that the written one falls
back on.  From a scope whose chain does come to it, the name has the new value, unless a
scope on the way binds the name too, and then it has the value that it had. -/
theorem write_is_local_and_shadows
    {a : Arena β} (hgrounded : a.Grounded) {id : ScopeId} (hlive : a.Live id)
    (name : String) (v : Value β) :
    ∃ b, a.set id name v = .ok b ∧
      b.get id name = .ok v ∧
      (∀ j other, other ≠ name → b.get j other = a.get j other) ∧
      (∀ j ids, a.Lineage j ids → id ∉ ids → ∀ other, b.get j other = a.get j other) ∧
      (∀ ancestors, a.Lineage id (id :: ancestors) →
        ∀ j ∈ ancestors, ∀ other, b.get j other = a.get j other) ∧
      ∀ j passed rest, a.Lineage j (passed ++ id :: rest) →
        ((∀ k ∈ passed, ¬a.Binds name k) → b.get j name = .ok v) ∧
          ((∃ k ∈ passed, a.Binds name k) → b.get j name = a.get j name) := by
  obtain ⟨b, hset⟩ := exists_set_of_live hlive name v
  refine ⟨b, hset, get_set_self hset, ?_, ?_, ?_, ?_⟩
  · intro j other hother
    obtain ⟨ids, hlineage⟩ := hgrounded j
    exact get_set_of_name_ne hset hlineage hother
  · intro j ids hlineage hid other
    exact get_set_of_not_mem hset hlineage hid other
  · intro ancestors hlineage j hj other
    obtain ⟨ids, hancestor, hid⟩ := hlineage.exists_lineage_of_ancestor hj
    exact get_set_of_not_mem hset hancestor hid other
  · intro j passed rest hlineage
    constructor
    · intro hfree
      apply get_set_of_lacks hset hlineage
      intro k hk
      exact lacks_of_live_of_not_binds (hlineage.live_of_mem_passed hk) (hfree k hk)
    · rintro ⟨k, hk, hbinds⟩
      exact get_set_of_binds hset hlineage hk hbinds

/-- A global is written.  Of two scopes that fall back on the globals, one does so through
a scope with a greater number that binds the name, and the other falls back on them at
once. -/
theorem write_is_local_and_shadows_global :
    let a : Arena Empty :=
      { globals := [("x", .int 1)]
        slots := [some ⟨some ⟨2⟩, []⟩, some ⟨some .global, [("x", .int 5)]⟩,
          some ⟨some .global, []⟩] }
    a.Grounded ∧ a.Live .global ∧
      ∃ b, a.set .global "x" (.int 7) = .ok b ∧ b.get ⟨3⟩ "x" = .ok (.int 7) ∧
        b.get ⟨1⟩ "x" = .ok (.int 5) := by
  intro a
  have hglobal : a.Lineage .global [.global] := .root rfl rfl
  have hsecond : a.Lineage ⟨2⟩ [⟨2⟩, .global] := .child rfl rfl hglobal
  have hfirst : a.Lineage ⟨1⟩ [⟨1⟩, ⟨2⟩, .global] := .child rfl rfl hsecond
  have hthird : a.Lineage ⟨3⟩ [⟨3⟩, .global] := .child rfl rfl hglobal
  have hgrounded : a.Grounded := by
    rintro ⟨_ | _ | _ | _ | index⟩
    · exact ⟨_, hglobal⟩
    · exact ⟨_, hfirst⟩
    · exact ⟨_, hsecond⟩
    · exact ⟨_, hthird⟩
    · exact ⟨_, .dead rfl⟩
  have hlive : a.Live .global := rfl
  obtain ⟨b, hset, -, -, -, -, hchains⟩ :=
    write_is_local_and_shadows hgrounded hlive "x" (.int 7)
  refine ⟨hgrounded, hlive, b, hset, ?_, ?_⟩
  · apply (hchains ⟨3⟩ [⟨3⟩] [] hthird).1
    rintro k hk ⟨scope, v, hscope, hbound⟩
    obtain rfl : k = ⟨3⟩ := List.mem_singleton.mp hk
    cases hscope
    exact absurd hbound (by simp [Bindings.get?])
  · rw [(hchains ⟨1⟩ [⟨1⟩, ⟨2⟩] [] hfirst).2 ⟨⟨2⟩, by simp, _, .int 5, rfl, rfl⟩]
    rfl

end Arena
end Stackline
