import Stackline.Scope.Basic

/-!
# Reading what has been bound

A name has the value that was bound to it last, and no other name is touched.  Since a
name keeps its place, binding it again undoes nothing but its own value, whatever has
been bound in between.
-/

namespace Stackline
namespace Bindings

variable {β : Type}

@[simp] theorem get?_set_self
    (g : Bindings β) (name : String) (v : Value β) :
    (g.set name v).get? name = some v := by
  induction g with
  | nil => simp [set, get?]
  | cons b g ih =>
      obtain ⟨other, w⟩ := b
      by_cases hsame : other = name
      · simp [set, get?, hsame]
      · simpa [set, get?, hsame] using ih

theorem get?_set_of_ne
    {name other : String} (hne : name ≠ other) (g : Bindings β) (v : Value β) :
    (g.set name v).get? other = g.get? other := by
  induction g with
  | nil => simp [set, get?, hne]
  | cons b g ih =>
      obtain ⟨first, w⟩ := b
      by_cases hsame : first = name
      · simp [set, get?, hsame, hne]
      · simp only [set, if_neg hsame, get?, ih]

@[simp] theorem set_set_self
    (g : Bindings β) (name : String) (v w : Value β) :
    (g.set name v).set name w = g.set name w := by
  induction g with
  | nil => simp [set]
  | cons b g ih =>
      obtain ⟨first, u⟩ := b
      by_cases hsame : first = name
      · simp [set, hsame]
      · simp [set, hsame, ih]

/-- A name that is bound already is bound anew in its old place. -/
theorem set_set_set_of_ne
    {name other : String} (hne : name ≠ other) (g : Bindings β) (u v w : Value β) :
    ((g.set name u).set other v).set name w = (g.set name w).set other v := by
  induction g with
  | nil => simp [set, hne]
  | cons b g ih =>
      obtain ⟨first, a⟩ := b
      by_cases hname : first = name
      · simp [set, hname, hne]
      · by_cases hother : first = other
        · simp [set, hother, hne.symm]
        · simp [set, hname, hother, ih]

end Bindings
end Stackline
