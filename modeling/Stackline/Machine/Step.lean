import Stackline.Machine.CallStack
import Stackline.Machine.Event
import Stackline.Machine.Turn

/-!
# The machine

A machine runs the top frame of its call stack, one instruction a step.  A frame
ends on a return, on a halt, or when its code runs out; its scope is released
then and the frame below goes on.  A value that is returned goes onto the stack
of the frame below, or out of the machine if there is none.
-/

namespace Stackline

/-- Whether a machine has more to do. -/
inductive Status where
  | running
  | halted
  deriving DecidableEq, Repr

/-- The whole state of execution. -/
structure Machine (β : Type) where
  status : Status
  /-- Whether every instruction is reported before it runs. -/
  tracing : Bool
  /-- The value that the bottom frame returned. -/
  returned : Option (Value β)
  calls : CallStack β
  scopes : Arena β

/-- What one step comes to: the machine after it, what it reported and printed,
and the error if it failed. -/
structure Progress (β : Type) where
  machine : Machine β
  events : List (Event β)
  printed : String
  error : Option RunError

namespace Machine

variable {β : Type}

/-- A machine without frames. -/
def idle (callLimit : Nat) (tracing : Bool) : Machine β :=
  { status := .halted, tracing, returned := none, calls := .empty callLimit, scopes := .empty }

/-- The machine with other active frames.  Without any it has halted. -/
def settle (m : Machine β) (frames : List (Frame β)) : Machine β :=
  { m with
    status := if frames.isEmpty then .halted else .running
    calls := { m.calls with frames } }

/-- Ends the top frame `f` and hands its value on to the frames below. -/
def leave (m : Machine β) (f : Frame β) (below : List (Frame β)) (value : Option (Value β)) :
    Except (Machine β × Fault) (Machine β) :=
  let m := { m with scopes := m.scopes.release f.scope }
  match value, below with
  | none, _ => .ok (m.settle below)
  | some v, [] => .ok { m.settle [] with returned := some v }
  | some v, caller :: rest =>
    match caller.push v with
    | .ok caller => .ok (m.settle (caller :: rest))
    | .error cause => .error (m.settle below, cause)

/-- Runs the next instruction of the top frame, or ends that frame if it has
none left. -/
def step [Host β] (m : Machine β) : Progress β :=
  match m.calls.frames with
  | [] =>
    { machine := { m with status := .halted }, events := [], printed := "", error := none }
  | f :: below =>
    let depth := below.length + 1
    match f.code.instruction? f.ip with
    | none =>
      { machine := { m with scopes := m.scopes.release f.scope }.settle below
        events := [.exhausted depth], printed := "", error := none }
    | some i =>
      let moved := { f with ip := f.ip + 1 }
      let events := if m.tracing then [.fetched f.ip i f.stack.items] else []
      let fail (m : Machine β) (printed : String) (cause : Fault) : Progress β :=
        { machine := m, events, printed, error := some (.instruction f.ip i.opcode depth cause) }
      match moved.perform f.ip i m.scopes with
      | .ok (.next f scopes printed) =>
        { machine := { m with scopes }.settle (f :: below), events, printed, error := none }
      | .ok (.leave value) =>
        match m.leave f below value with
        | .ok m => { machine := m, events, printed := "", error := none }
        | .error (m, cause) => fail m "" cause
      | .error b =>
        fail (m.settle ({ moved with stack := b.stack } :: below)) b.printed b.cause

end Machine
end Stackline
