import Mathlib.Data.Finset.Card
import Stackline.Proofs.Scope.Bindings
import Stackline.Proofs.Scope.Reuse

/-!
# Bindings keep the order in which names were first bound

A write either changes the value of a name in its place or puts a new name at the end.
So whatever has been written, the bindings list every name once, in the order of the
first writes, each with the value of its last write.  `Records` says this of bindings
and the writes that led to them, and one more write keeps it.
-/

namespace Stackline
namespace Bindings

variable {β : Type}

/-- The bound names, in the order of the bindings. -/
def names (g : Bindings β) : List String :=
  g.map Prod.fst

/-! ## One write -/

/-- A bound name keeps its place, and so do all others. -/
theorem names_set_of_mem
    {g : Bindings β} {name : String} (hbound : name ∈ g.names) (v : Value β) :
    (g.set name v).names = g.names := by
  induction g with
  | nil => cases hbound
  | cons b g ih =>
      obtain ⟨first, w⟩ := b
      by_cases hsame : first = name
      · simp [set, names, hsame]
      · have hrest : name ∈ names g := by
          simpa [names, Ne.symm hsame] using hbound
        simpa [set, names, hsame] using ih hrest

/-- A new name is bound behind all others. -/
theorem set_of_not_mem
    {g : Bindings β} {name : String} (hnew : name ∉ g.names) (v : Value β) :
    g.set name v = g ++ [(name, v)] := by
  induction g with
  | nil => rfl
  | cons b g ih =>
      obtain ⟨first, w⟩ := b
      have hne : first ≠ name := by
        rintro rfl
        exact hnew List.mem_cons_self
      have hrest : name ∉ names g := fun hmem => hnew (List.mem_cons_of_mem first hmem)
      rw [set, if_neg hne, ih hrest, List.cons_append]

theorem names_set_of_not_mem
    {g : Bindings β} {name : String} (hnew : name ∉ g.names) (v : Value β) :
    (g.set name v).names = g.names ++ [name] := by
  rw [set_of_not_mem hnew, names, names, List.map_append, List.map_singleton]

theorem mem_names_set_iff
    {g : Bindings β} {name other : String} {v : Value β} :
    other ∈ (g.set name v).names ↔ other ∈ g.names ∨ other = name := by
  by_cases hbound : name ∈ g.names
  · rw [names_set_of_mem hbound]
    constructor
    · exact .inl
    · rintro (hmem | rfl)
      · exact hmem
      · exact hbound
  · rw [names_set_of_not_mem hbound, List.mem_append, List.mem_singleton]

/-! ## Reading a listing -/

theorem binds_iff
    {g : Bindings β} {name : String} :
    g.binds name = true ↔ name ∈ g.names := by
  simp [binds, names]

/-- Where no name is listed twice, a name has the value that it is listed with. -/
theorem get?_eq_some_iff_mem
    {g : Bindings β} (hnodup : g.names.Nodup) {name : String} {v : Value β} :
    g.get? name = some v ↔ (name, v) ∈ g := by
  induction g with
  | nil => simp [get?]
  | cons b g ih =>
      obtain ⟨first, w⟩ := b
      obtain ⟨hfirst, hrest⟩ := List.nodup_cons.mp hnodup
      by_cases hsame : first = name
      · have hgone : (name, v) ∉ g := by
          intro hmem
          rw [hsame] at hfirst
          exact hfirst (List.mem_map.mpr ⟨(name, v), hmem, rfl⟩)
        simp [get?, hsame, hgone, eq_comm]
      · simp [get?, hsame, Ne.symm hsame, ih hrest]

/-! ## The last write to a name -/

/-- The value was written to the name, and no other one since. -/
def LastWrite (writes : List (String × Value β)) (name : String) (v : Value β) : Prop :=
  ∃ before since, writes = before ++ (name, v) :: since ∧ name ∉ since.map Prod.fst

variable {writes : List (String × Value β)}

/-- One more write is the last one to its own name and changes nothing for the others. -/
theorem lastWrite_concat_iff
    {name other : String} {v w : Value β} :
    LastWrite (writes ++ [(name, w)]) other v ↔
      name = other ∧ w = v ∨ name ≠ other ∧ LastWrite writes other v := by
  constructor
  · rintro ⟨before, since, hwrites, hsince⟩
    rcases List.eq_nil_or_concat since with rfl | ⟨rest, last, rfl⟩
    · have hlast : (name, w) = (other, v) := by
        simpa using (List.append_inj' hwrites rfl).2
      exact .inl (Prod.mk.inj hlast)
    · rw [List.concat_eq_append] at hwrites hsince
      rw [← List.cons_append, ← List.append_assoc] at hwrites
      obtain ⟨rfl, hlast⟩ := List.append_inj' hwrites rfl
      obtain rfl : (name, w) = last := by simpa using hlast
      simp only [List.map_append, List.mem_append, List.map_singleton, List.mem_singleton,
        not_or] at hsince
      exact .inr ⟨Ne.symm hsince.2, before, rest, rfl, hsince.1⟩
  · rintro (⟨rfl, rfl⟩ | ⟨hne, before, since, rfl, hsince⟩)
    · exact ⟨writes, [], rfl, List.not_mem_nil⟩
    · refine ⟨before, since ++ [(name, w)], by simp, ?_⟩
      simp [hsince, Ne.symm hne]

/-! ## Writes one after the other -/

/-- The bindings list the names written, in the order of the first writes, with the values
of the last ones. -/
structure Records (writes : List (String × Value β)) (g : Bindings β) : Prop where
  order : g.names.Pairwise fun x y =>
    (writes.map Prod.fst).idxOf x < (writes.map Prod.fst).idxOf y
  mem_names : ∀ name, name ∈ g.names ↔ name ∈ writes.map Prod.fst
  value : ∀ name v, g.get? name = some v ↔ LastWrite writes name v

theorem Records.nodup
    {g : Bindings β} (hg : Records writes g) :
    g.names.Nodup := by
  refine hg.order.imp ?_
  rintro x y hlt rfl
  exact Nat.lt_irrefl _ hlt

/-- One more write keeps the names in the order of the first writes. -/
theorem Records.order_set
    {g : Bindings β} (hg : Records writes g) (name : String) (v : Value β) :
    (g.set name v).names.Pairwise fun x y =>
      ((writes ++ [(name, v)]).map Prod.fst).idxOf x <
        ((writes ++ [(name, v)]).map Prod.fst).idxOf y := by
  rw [List.map_append]
  -- The first write to a name that is bound already stays where it was.
  have hfirst : ∀ x ∈ g.names,
      (writes.map Prod.fst ++ [name]).idxOf x = (writes.map Prod.fst).idxOf x := by
    intro x hx
    exact List.idxOf_append_of_mem ((hg.mem_names x).mp hx)
  have hkept : g.names.Pairwise fun x y =>
      (writes.map Prod.fst ++ [name]).idxOf x < (writes.map Prod.fst ++ [name]).idxOf y := by
    refine hg.order.imp_of_mem ?_
    intro x y hx hy hlt
    rwa [hfirst x hx, hfirst y hy]
  by_cases hbound : name ∈ g.names
  · rw [names_set_of_mem hbound]
    exact hkept
  · rw [names_set_of_not_mem hbound]
    refine List.pairwise_append.mpr ⟨hkept, List.pairwise_singleton _ name, ?_⟩
    intro x hx y hy
    obtain rfl := List.mem_singleton.mp hy
    have hwritten : y ∉ writes.map Prod.fst := fun hmem => hbound ((hg.mem_names y).mpr hmem)
    have hlast : (writes.map Prod.fst ++ [y]).idxOf y = (writes.map Prod.fst).length := by
      rw [List.idxOf_append_of_notMem hwritten, List.idxOf_cons_self, Nat.add_zero]
    have hearlier : (writes.map Prod.fst).idxOf x < (writes.map Prod.fst).length :=
      List.idxOf_lt_length_of_mem ((hg.mem_names x).mp hx)
    show (writes.map Prod.fst ++ [y]).idxOf x < (writes.map Prod.fst ++ [y]).idxOf y
    rwa [hfirst x hx, hlast]

theorem Records.set
    {g : Bindings β} (hg : Records writes g) (name : String) (v : Value β) :
    Records (writes ++ [(name, v)]) (g.set name v) := by
  refine ⟨hg.order_set name v, ?_, ?_⟩
  · intro other
    rw [mem_names_set_iff, hg.mem_names, List.map_append, List.mem_append, List.map_singleton,
      List.mem_singleton]
  · intro other w
    rw [lastWrite_concat_iff]
    by_cases hsame : name = other
    · simp [hsame]
    · rw [get?_set_of_ne hsame, hg.value]
      simp [hsame]

theorem records_nil :
    Records ([] : List (String × Value β)) [] := by
  refine ⟨.nil, fun name => Iff.rfl, ?_⟩
  intro name v
  simp [get?, LastWrite]

/-- Whatever is written to empty bindings, they record it. -/
theorem records_setAll
    (writes : List (String × Value β)) :
    Records writes (setAll [] writes) := by
  induction writes using List.reverseRecOn with
  | nil => exact records_nil
  | append_singleton writes write ih =>
      rw [setAll_append]
      exact ih.set write.1 write.2

/-- The listing of a scope after any writes to it: every name that has been written once,
in the order of the first writes, with the value of its last write.  Lookups agree with
the listing, and its length is the number of names. -/
theorem listing_keeps_first_order
    (parent : Option ScopeId) (writes : List (String × Value β)) :
    let g := (Scope.empty parent : Scope β).bindings.setAll writes
    let written := writes.map Prod.fst
    (∀ name, g.names.count name = if name ∈ written then 1 else 0) ∧
      g.names.Pairwise (fun x y => written.idxOf x < written.idxOf y) ∧
      (∀ name v, (name, v) ∈ g ↔ LastWrite writes name v) ∧
      (∀ name v, g.get? name = some v ↔ (name, v) ∈ g) ∧
      (∀ name, g.binds name = true ↔ name ∈ g.names) ∧
      g.length = written.toFinset.card := by
  intro g written
  have hg : Records writes g := records_setAll writes
  have hget : ∀ name v, g.get? name = some v ↔ (name, v) ∈ g :=
    fun name v => get?_eq_some_iff_mem hg.nodup
  refine ⟨?_, hg.order, ?_, hget, fun name => binds_iff, ?_⟩
  · intro name
    by_cases hwritten : name ∈ written
    · have hlisted : name ∈ g.names := (hg.mem_names name).mpr hwritten
      rw [if_pos hwritten, List.count_eq_one_of_mem hg.nodup hlisted]
    · have hlisted : name ∉ g.names := fun hmem => hwritten ((hg.mem_names name).mp hmem)
      rw [if_neg hwritten, List.count_eq_zero.mpr hlisted]
  · intro name v
    rw [← hget, hg.value]
  · have hnames : g.names.toFinset = written.toFinset := by
      ext name
      rw [List.mem_toFinset, List.mem_toFinset, hg.mem_names]
    rw [← hnames, List.toFinset_card_of_nodup hg.nodup, names, List.length_map]

example :
    setAll [] [("b", .int 2), ("a", .int 1), ("b", .int 3)] =
      ([("b", .int 3), ("a", .int 1)] : Bindings β) := by
  rfl

end Bindings
end Stackline
