import Mathlib.Data.List.Nodup
import Mathlib.Data.List.Perm.Subperm
import Stackline.Proofs.Scope.Lookup

/-!
# Chains of parents that end

A host may give a scope any parent, so that a chain of parents can go round in a
circle and a lookup along it would never end.  Here it is only known that no chain
does, whatever the numbers are.  A chain that ends goes through no number twice, so
a lookup that may visit every slot comes to the end of it.

Writing to a scope leaves the chains as they are, and releasing one cuts them short.
-/

namespace Stackline
namespace Arena

variable {β : Type}

/-- Every chain of parents comes to an end. -/
def Grounded (a : Arena β) : Prop :=
  ∀ id, ∃ ids, a.Lineage id ids

section Lineages

variable {a : Arena β} {id : ScopeId} {ids : List ScopeId}

theorem Lineage.unique
    {ids' : List ScopeId} (h : a.Lineage id ids) (h' : a.Lineage id ids') :
    ids = ids' := by
  induction h generalizing ids' with
  | dead hscope =>
      cases h' with
      | dead _ => rfl
      | root _ _ => rfl
      | child hscope' _ _ => cases hscope.symm.trans hscope'
  | root hscope hparent =>
      cases h' with
      | dead _ => rfl
      | root _ _ => rfl
      | child hscope' hparent' _ =>
          cases hscope.symm.trans hscope'
          cases hparent.symm.trans hparent'
  | child hscope hparent _ ih =>
      cases h' with
      | dead hscope' => cases hscope.symm.trans hscope'
      | root hscope' hparent' =>
          cases hscope.symm.trans hscope'
          cases hparent.symm.trans hparent'
      | child hscope' hparent' hrest' =>
          cases hscope.symm.trans hscope'
          cases hparent.symm.trans hparent'
          rw [ih hrest']

/-- From each number on a chain, the rest of the chain is the one of that number. -/
theorem Lineage.exists_suffix_of_mem
    {j : ScopeId} (hlineage : a.Lineage id ids) (hj : j ∈ ids) :
    ∃ rest, rest <:+ ids ∧ a.Lineage j rest := by
  induction hlineage with
  | @dead id hscope =>
      obtain rfl := List.mem_singleton.mp hj
      exact ⟨[j], List.suffix_refl _, .dead hscope⟩
  | @root id scope hscope hparent =>
      obtain rfl := List.mem_singleton.mp hj
      exact ⟨[j], List.suffix_refl _, .root hscope hparent⟩
  | @child id parent scope ids hscope hparent hrest ih =>
      rcases List.mem_cons.mp hj with rfl | hmem
      · exact ⟨j :: ids, List.suffix_refl _, .child hscope hparent hrest⟩
      · obtain ⟨rest, hsuffix, hj'⟩ := ih hmem
        exact ⟨rest, hsuffix.trans (List.suffix_cons id ids), hj'⟩

theorem Lineage.nodup (hlineage : a.Lineage id ids) :
    ids.Nodup := by
  induction hlineage with
  | dead hscope => exact List.nodup_singleton _
  | root hscope hparent => exact List.nodup_singleton _
  | @child id parent scope ids hscope hparent hrest ih =>
      refine List.nodup_cons.mpr ⟨?_, ih⟩
      intro hmem
      -- A chain that came back to its start would be a part of its own rest.
      obtain ⟨rest, hsuffix, hagain⟩ := hrest.exists_suffix_of_mem hmem
      have hsame : rest = id :: ids := hagain.unique (.child hscope hparent hrest)
      have hlength : rest.length ≤ ids.length := hsuffix.length_le
      rw [hsame, List.length_cons] at hlength
      exact Nat.not_succ_le_self _ hlength

/-- A chain does not come to a number that it has left behind. -/
theorem Lineage.not_mem_passed
    {passed rest : List ScopeId} {j : ScopeId} (hlineage : a.Lineage id (passed ++ j :: rest)) :
    j ∉ passed := by
  have hnodup : (j :: (passed ++ rest)).Nodup := List.nodup_middle.mp hlineage.nodup
  intro hj
  exact (List.nodup_cons.mp hnodup).1 (List.mem_append_left rest hj)

/-- The chains of the scopes that a scope falls back on do not come to it. -/
theorem Lineage.exists_lineage_of_ancestor
    {ancestors : List ScopeId} {j : ScopeId} (hlineage : a.Lineage id (id :: ancestors))
    (hj : j ∈ ancestors) :
    ∃ rest, a.Lineage j rest ∧ id ∉ rest := by
  have hnew : id ∉ ancestors := (List.nodup_cons.mp hlineage.nodup).1
  rcases hlineage with hscope | hscope | ⟨hscope, hparent, hrest⟩
  · exact absurd hj List.not_mem_nil
  · exact absurd hj List.not_mem_nil
  · obtain ⟨rest, hsuffix, hancestor⟩ := hrest.exists_suffix_of_mem hj
    exact ⟨rest, hancestor, fun hid => hnew (hsuffix.subset hid)⟩

/-- All numbers on a chain but the last one belong to slots. -/
theorem Lineage.mem_dropLast
    {j : ScopeId} (hlineage : a.Lineage id ids) (hj : j ∈ ids.dropLast) :
    j.index ∈ List.range' 1 a.slots.length := by
  induction hlineage with
  | dead hscope => cases hj
  | root hscope hparent => cases hj
  | @child id parent scope ids hscope hparent hrest ih =>
      have hne : ids ≠ [] := by
        rintro rfl
        cases hrest
      rw [List.dropLast_cons_of_ne_nil hne] at hj
      rcases List.mem_cons.mp hj with rfl | hmem
      · have hle : j.index ≤ a.slots.length := by
          apply index_le_length_of_live
          rw [Live, hscope]
          rfl
        have hpos : 0 < j.index := by
          rcases j with ⟨_ | slot⟩
          · -- The global scope has no parent.
            cases hscope
            cases hparent
          · exact Nat.succ_pos slot
        rw [List.mem_range'_1]
        omega
      · exact ih hmem

theorem Lineage.length_le (hlineage : a.Lineage id ids) :
    ids.length ≤ a.slots.length + 1 := by
  have hnodup : (ids.dropLast.map ScopeId.index).Nodup := by
    apply List.Nodup.map
    · intro j k hjk
      exact congrArg ScopeId.mk hjk
    · exact hlineage.nodup.sublist (List.dropLast_sublist ids)
  have hsubset : ids.dropLast.map ScopeId.index ⊆ List.range' 1 a.slots.length := by
    intro index hindex
    obtain ⟨j, hj, rfl⟩ := List.mem_map.mp hindex
    exact hlineage.mem_dropLast hj
  have hlength := (List.subperm_of_subset hnodup hsubset).length_le
  rw [List.length_map, List.length_dropLast, List.length_range'] at hlength
  omega

/-- A lookup along a chain that ends gives the first answer on it. -/
theorem Lineage.get_eq
    (hlineage : a.Lineage id ids) (name : String) :
    a.get id name =
      (ids.findSome? (a.answer? name)).getD (.error (.undefined name)) :=
  find_of_lineage hlineage name hlineage.length_le

/-- A lookup along a chain that ends is not cut short: however much further it might
go, it finds the same. -/
theorem Lineage.find_eq_get
    (hlineage : a.Lineage id ids) (name : String) {fuel : Nat} (hfuel : ids.length ≤ fuel) :
    a.find name fuel id = a.get id name := by
  rw [find_of_lineage hlineage name hfuel, hlineage.get_eq]

/-- The scopes that a chain has left behind are live. -/
theorem Lineage.live_of_mem_passed
    {passed rest : List ScopeId} {j k : ScopeId}
    (hlineage : a.Lineage id (passed ++ j :: rest)) (hk : k ∈ passed) :
    a.Live k := by
  generalize hids : passed ++ j :: rest = ids at hlineage
  induction hlineage generalizing passed with
  | dead hscope =>
      obtain ⟨rfl, -⟩ | ⟨-, hnil⟩ := List.append_eq_singleton_iff.mp hids
      · cases hk
      · cases hnil
  | root hscope hparent =>
      obtain ⟨rfl, -⟩ | ⟨-, hnil⟩ := List.append_eq_singleton_iff.mp hids
      · cases hk
      · cases hnil
  | @child id parent scope ids hscope hparent hrest ih =>
      cases passed with
      | nil => cases hk
      | cons first passed =>
          obtain ⟨rfl, htail⟩ := List.cons.inj hids
          rcases List.mem_cons.mp hk with rfl | hmem
          · -- Only a scope that is there has a parent to go on to.
            exact Option.isSome_iff_exists.mpr ⟨scope, hscope⟩
          · exact ih hmem htail

end Lineages

/-! ## Chains after a change -/

section Changes

variable {a b : Arena β}

/-- Chains still end if every scope that is there was there before, with the parent
that it has. -/
theorem Grounded.of_parents
    (hgrounded : a.Grounded)
    (hparents : ∀ id scope, b.scope? id = some scope →
      ∃ old, a.scope? id = some old ∧ old.parent = scope.parent) :
    b.Grounded := by
  intro id
  obtain ⟨ids, hlineage⟩ := hgrounded id
  induction hlineage with
  | @dead id hscope =>
      refine ⟨[id], .dead ?_⟩
      cases hscope' : b.scope? id with
      | none => rfl
      | some scope =>
          obtain ⟨old, hold, -⟩ := hparents id scope hscope'
          cases hscope.symm.trans hold
  | @root id scope hscope hparent =>
      cases hscope' : b.scope? id with
      | none => exact ⟨[id], .dead hscope'⟩
      | some scope' =>
          obtain ⟨old, hold, hsame⟩ := hparents id scope' hscope'
          cases hscope.symm.trans hold
          exact ⟨[id], .root hscope' (hsame.symm.trans hparent)⟩
  | @child id parent scope ids hscope hparent _ ih =>
      cases hscope' : b.scope? id with
      | none => exact ⟨[id], .dead hscope'⟩
      | some scope' =>
          obtain ⟨old, hold, hsame⟩ := hparents id scope' hscope'
          cases hscope.symm.trans hold
          obtain ⟨rest, hrest⟩ := ih
          exact ⟨id :: rest, .child hscope' (hsame.symm.trans hparent) hrest⟩

/-- A chain stays the same as long as all parents do. -/
theorem Lineage.of_parents
    {id : ScopeId} {ids : List ScopeId} (hlineage : a.Lineage id ids)
    (hparents : ∀ j, (b.scope? j).map Scope.parent = (a.scope? j).map Scope.parent) :
    b.Lineage id ids := by
  induction hlineage with
  | @dead id hscope =>
      have hmap := hparents id
      rw [hscope, Option.map_none, Option.map_eq_none_iff] at hmap
      exact .dead hmap
  | @root id scope hscope hparent =>
      have hmap := hparents id
      rw [hscope, Option.map_some, hparent] at hmap
      obtain ⟨scope', hscope', hparent'⟩ := Option.map_eq_some_iff.mp hmap
      exact .root hscope' hparent'
  | @child id parent scope ids hscope hparent _ ih =>
      have hmap := hparents id
      rw [hscope, Option.map_some, hparent] at hmap
      obtain ⟨scope', hscope', hparent'⟩ := Option.map_eq_some_iff.mp hmap
      exact .child hscope' hparent' ih

theorem Grounded.set
    {id : ScopeId} {name : String} {v : Value β}
    (hgrounded : a.Grounded) (hset : a.set id name v = .ok b) :
    b.Grounded := by
  intro j
  obtain ⟨ids, hlineage⟩ := hgrounded j
  exact ⟨ids, hlineage.of_parents (map_parent_of_set hset)⟩

theorem Grounded.release
    (hgrounded : a.Grounded) (id : ScopeId) :
    (a.release id).Grounded := by
  apply hgrounded.of_parents
  intro j scope hscope
  cases hold : a.scope? j with
  | none =>
      rw [scope?_release_eq_none hold id] at hscope
      cases hscope
  | some old =>
      by_cases hj : j = id
      · subst j
        by_cases hglobal : id = .global
        · subst id
          cases hold.symm.trans hscope
          exact ⟨scope, rfl, rfl⟩
        · rw [a.scope?_release_self hglobal] at hscope
          cases hscope
      · rw [a.scope?_release_of_ne hj, hold] at hscope
        cases hscope
        exact ⟨scope, rfl, rfl⟩

end Changes

end Arena
end Stackline
