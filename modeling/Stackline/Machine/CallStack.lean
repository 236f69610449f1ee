import Stackline.Machine.Frame

/-!
# Call stacks

The active frames of a machine, of which no more than a fixed number may be
active at a time.  Only the top frame runs.
-/

namespace Stackline

/-- The active frames, the top one first. -/
structure CallStack (β : Type) where
  limit : Nat
  frames : List (Frame β)

namespace CallStack

variable {β : Type}

/-- The call stack without frames. -/
def empty (limit : Nat) : CallStack β :=
  { limit, frames := [] }

/-- The number of active frames. -/
def depth (c : CallStack β) : Nat :=
  c.frames.length

/-- Activates a frame, if there is room. -/
def push (c : CallStack β) (f : Frame β) : Except Fault (CallStack β) :=
  if c.depth < c.limit then .ok { c with frames := f :: c.frames }
  else .error (.callOverflow c.limit)

/-- Ends the top frame. -/
def pop (c : CallStack β) : Option (Frame β × CallStack β) :=
  match c.frames with
  | [] => none
  | f :: rest => some (f, { c with frames := rest })

/-- Ends all frames: those that were active, the bottom one first. -/
def drain (c : CallStack β) : List (Frame β) × CallStack β :=
  (c.frames.reverse, { c with frames := [] })

/-- Changes the frame that lies `level` frames below the top. -/
def update (c : CallStack β) (level : Nat) (act : Frame β → Except Fault (Frame β)) :
    Except Fault (CallStack β) :=
  match c.frames[level]? with
  | none => .error .noFrame
  | some f => do return { c with frames := c.frames.set level (← act f) }

end CallStack
end Stackline
