import Stackline.Fault

/-!
# The arena of scopes

All scopes of a machine live in one arena and refer to each other by number.
Number zero is the global scope, which has no parent and is never released; the
others are numbered by the slots they take.  Releasing a scope frees its slot,
and free slots at the end are given back, so that their numbers are issued
again.

A name is looked up from a scope through its parents.  A released scope on the
way ends the search with a fault.
-/

namespace Stackline

/-- The scopes of a machine. -/
structure Arena (β : Type) where
  globals : Bindings β
  /-- Slot `i` belongs to the scope with number `i + 1`. -/
  slots : List (Option (Scope β))

namespace Arena

variable {β : Type}

/-- The arena that holds the global scope alone, which binds nothing. -/
def empty : Arena β :=
  { globals := [], slots := [] }

/-- The scope with a number, unless it has been released or never issued. -/
def scope? (a : Arena β) (id : ScopeId) : Option (Scope β) :=
  match id.index with
  | 0 => some { parent := none, bindings := a.globals }
  | i + 1 => a.slots[i]?.join

/-- Adds a scope that binds nothing and falls back on `parent`. -/
def push (a : Arena β) (parent : Option ScopeId) : ScopeId × Arena β :=
  (.ofSlot a.slots.length, { a with slots := a.slots ++ [some (Scope.empty parent)] })

/-- The slots without the free ones at the end. -/
def dropFree : List (Option (Scope β)) → List (Option (Scope β))
  | [] => []
  | slot :: rest =>
    match slot, dropFree rest with
    | none, [] => []
    | slot, rest => slot :: rest

/-- Releases a scope.  The global scope stays, and so does every other one. -/
def release (a : Arena β) (id : ScopeId) : Arena β :=
  match id.index with
  | 0 => a
  | i + 1 => { a with slots := dropFree (a.slots.set i none) }

/-- Releases scopes one after the other. -/
def releaseAll (a : Arena β) (ids : List ScopeId) : Arena β :=
  ids.foldl release a

/-- The number of scopes, the global one among them. -/
def size (a : Arena β) : Nat :=
  1 + a.slots.countP Option.isSome

/-- Looks a name up from a scope, at most `fuel` scopes far. -/
def find (a : Arena β) (name : String) : (fuel : Nat) → ScopeId → Except Fault (Value β)
  | 0, _ => .error (.undefined name)
  | fuel + 1, id =>
    match a.scope? id with
    | none => .error (.releasedScope id)
    | some scope =>
      match scope.bindings.get? name, scope.parent with
      | some v, _ => .ok v
      | none, none => .error (.undefined name)
      | none, some parent => a.find name fuel parent

/-- The value that a name has in a scope: the one bound by the scope itself or
else by the nearest parent.  A chain of parents visits each scope at most once
before it ends or comes back to a scope that did not bind the name. -/
def get (a : Arena β) (id : ScopeId) (name : String) : Except Fault (Value β) :=
  a.find name (a.slots.length + 1) id

/-- Whether a name has a value in a scope. -/
def defines (a : Arena β) (id : ScopeId) (name : String) : Bool :=
  (a.get id name).isOk

/-- Binds a name in a scope itself, whatever its parents bind. -/
def set (a : Arena β) (id : ScopeId) (name : String) (v : Value β) :
    Except Fault (Arena β) :=
  match id.index with
  | 0 => .ok { a with globals := a.globals.set name v }
  | i + 1 =>
    match a.slots[i]?.join with
    | none => .error (.releasedScope id)
    | some scope =>
      let scope := { scope with bindings := scope.bindings.set name v }
      .ok { a with slots := a.slots.set i (some scope) }

end Arena
end Stackline
