import Stackline.Fault

/-!
# Operand stacks

A stack of values that holds no more than a fixed number of them.  An operation
looks for the room or the values that it needs before it changes anything.  So
one that fails leaves the stack as it was and gives no new one.
-/

namespace Stackline

/-- A bounded stack of values, the top one first. -/
structure Stack (β : Type) where
  limit : Nat
  items : List (Value β)

namespace Stack

variable {β : Type}

/-- The empty stack with room for `limit` values. -/
def empty (limit : Nat) : Stack β :=
  { limit, items := [] }

/-- Puts a value on top, if there is room. -/
def push (s : Stack β) (v : Value β) : Except Fault (Stack β) :=
  if s.items.length < s.limit then .ok { s with items := v :: s.items }
  else .error (.stackOverflow s.limit)

/-- Takes the top value off. -/
def pop (s : Stack β) : Except Fault (Value β × Stack β) :=
  match s.items with
  | [] => .error .stackUnderflow
  | v :: rest => .ok (v, { s with items := rest })

/-- The top value. -/
def peek (s : Stack β) : Except Fault (Value β) :=
  match s.items with
  | [] => .error .stackUnderflow
  | v :: _ => .ok v

/-- Puts the top value on the stack once more. -/
def dup (s : Stack β) : Except Fault (Stack β) := do
  s.push (← s.peek)

/-- Takes the top `n` values off, all or none of them, the top one first. -/
def popMany (s : Stack β) (n : Nat) : Except Fault (List (Value β) × Stack β) :=
  if n ≤ s.items.length then .ok (s.items.take n, { s with items := s.items.drop n })
  else .error .stackUnderflow

/-- The stack with nothing left on it. -/
def clear (s : Stack β) : Stack β :=
  { s with items := [] }

end Stack
end Stackline
