import Stackline.Machine.Step

/-!
# Execution

A machine runs until it halts or an instruction fails.  Programs need not end,
so the number of steps is bounded by a fuel, and running out of it is an ending
of its own, told apart from every answer.
-/

namespace Stackline

/-- How a run ended. -/
inductive Ending (ε β : Type) where
  /-- The program came to its end, with the value that it returned, if any. -/
  | finished (value : Option (Value β))
  /-- The program was given up. -/
  | failed (error : ε)
  /-- The fuel was used up first. -/
  | unfinished

/-- What a run put out. -/
structure Output (β : Type) where
  events : Array (Event β)
  printed : String

namespace Output

variable {β : Type}

/-- Nothing put out. -/
def empty : Output β :=
  { events := #[], printed := "" }

/-- The output followed by more of it. -/
def add (o : Output β) (events : List (Event β)) (printed : String) : Output β :=
  { events := o.events ++ events, printed := o.printed ++ printed }

/-- The output followed by one event. -/
def report (o : Output β) (e : Event β) : Output β :=
  { o with events := o.events.push e }

end Output

/-- The machine after a run, how the run ended and what it put out. -/
structure Execution (β : Type) where
  machine : Machine β
  ending : Ending RunError β
  output : Output β

namespace Machine

variable {β : Type}

/-- Takes steps until the machine halts, one fails, or the fuel is used up. -/
def runFrom [Host β] : (fuel : Nat) → Machine β → Output β → Execution β
  | 0, m, output => { machine := m, ending := .unfinished, output }
  | fuel + 1, m, output =>
    let p := m.step
    let output := output.add p.events p.printed
    match p.error with
    | some e => { machine := p.machine, ending := .failed e, output }
    | none =>
      match p.machine.status with
      | .running => runFrom fuel p.machine output
      | .halted =>
        { machine := { p.machine with returned := none }
          ending := .finished p.machine.returned
          output }

/-- Runs a machine until its call stack is empty.  A value that an earlier run
left behind is forgotten first. -/
def execute [Host β] (fuel : Nat) (m : Machine β) (output : Output β) : Execution β :=
  runFrom fuel { m with status := .running, returned := none } output

end Machine
end Stackline
