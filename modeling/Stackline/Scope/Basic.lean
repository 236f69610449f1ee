import Stackline.Value.Basic

/-!
# Scopes

A scope binds names to values and may have a parent.  Bindings keep the order in
which their names were first bound; binding a name again changes its value and
not its place.
-/

namespace Stackline

/-- The number by which a scope is known. -/
structure ScopeId where
  index : Nat
  deriving DecidableEq, Repr

/-- The text of a scope's number. -/
def ScopeId.text (id : ScopeId) : String :=
  "#" ++ Decimal.ofNat id.index

/-- The scope that every program can see. -/
def ScopeId.global : ScopeId := ⟨0⟩

/-- The greatest number that is given to a scope. -/
def ScopeId.last : ScopeId := ⟨UInt32.size - 1⟩

/-- The number given to the scope in a slot.  Once the numbers have run out,
the last one is given again and again. -/
def ScopeId.ofSlot (slot : Nat) : ScopeId := ⟨min (slot + 1) last.index⟩

/-- Bindings of names to values. -/
abbrev Bindings (β : Type) := List (String × Value β)

namespace Bindings

variable {β : Type}

/-- The value bound to a name. -/
def get? (name : String) : Bindings β → Option (Value β)
  | [] => none
  | (n, v) :: rest => if n = name then some v else get? name rest

/-- Whether a name is bound. -/
def binds (name : String) (g : Bindings β) : Bool :=
  g.any fun (n, _) => n = name

/-- Binds a name, in its old place if it has one and else at the end. -/
def set (name : String) (value : Value β) : Bindings β → Bindings β
  | [] => [(name, value)]
  | (n, v) :: rest => if n = name then (n, value) :: rest else (n, v) :: set name value rest

end Bindings

/-- Names and values, with the scope that is searched next. -/
structure Scope (β : Type) where
  parent : Option ScopeId
  bindings : Bindings β

/-- A scope that binds nothing. -/
def Scope.empty {β : Type} (parent : Option ScopeId) : Scope β :=
  { parent, bindings := [] }

end Stackline
