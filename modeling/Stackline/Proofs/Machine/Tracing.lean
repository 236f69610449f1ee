import Mathlib.Data.List.Basic
import Stackline.Proofs.Machine.Run

/-!
# Tracing only observes

A machine that traces reports every instruction before it runs it.  The report is
made between the fetch and the execution, in the middle of a step, so it is not
plain that it changes nothing.  It does not: a step with tracing is the step without
it and one more report, and from that the same follows for any number of steps and
for whole runs.

The reports of tracing are the records of level `trace`.  There is one for each
instruction that is fetched, also for one that then fails, and none for a step that
only ends a frame.
-/

namespace Stackline

variable {β : Type}

/-- An instruction that is about to run: where it stands, and the operand stack that
it finds, the top value first. -/
structure Fetch (β : Type) where
  ip : Nat
  instruction : Instruction
  stack : List (Value β)

namespace Fetch

/-- The report of an instruction. -/
def event (x : Fetch β) : Event β :=
  .fetched x.ip x.instruction x.stack

/-- The record of an instruction: its index in four digits at least, its text, and
the values of the stack from the bottom up. -/
def record (x : Fetch β) : Record :=
  { level := .trace
    message := Text.padStart '0' 4 (Decimal.ofNat x.ip) ++ "  " ++
      Text.padEnd 24 x.instruction.text ++ " " ++
      ("[" ++ String.intercalate ", " (x.stack.reverse.map Value.text) ++ "]") }

theorem record_event (x : Fetch β) :
    x.event.record = x.record :=
  rfl

end Fetch

/-- Whether the event is reported by tracing. -/
def Event.isTrace (e : Event β) : Bool :=
  decide (e.level = .trace)

/-- The events that do not come from tracing. -/
def ordinary (events : List (Event β)) : List (Event β) :=
  events.filter fun e => !e.isTrace

namespace Output

/-- The records of an output. -/
def log (o : Output β) : List Record :=
  o.events.toList.map Event.record

/-- The output without the reports of tracing. -/
def untraced (o : Output β) : Output β :=
  { o with events := (ordinary o.events.toList).toArray }

end Output

namespace Machine

/-- The machine with tracing switched on or off. -/
def withTracing (m : Machine β) (tracing : Bool) : Machine β :=
  { m with tracing }

/-- The instruction that the next step runs, unless it only ends a frame. -/
def fetch? (m : Machine β) : Option (Fetch β) :=
  match m.calls.frames with
  | [] => none
  | f :: _ =>
    (f.code.instruction? f.ip).map fun i =>
      { ip := f.ip, instruction := i, stack := f.stack.items }

/-- The events of steps that are taken from these machines. -/
def events [Host β] (stages : List (Machine β)) : List (Event β) :=
  stages.flatMap fun m => m.step.events

/-- The records of steps that are taken from these machines. -/
def log [Host β] (stages : List (Machine β)) : List Record :=
  (events stages).map Event.record

end Machine

/-- The step as it would have been without tracing. -/
def Progress.untraced (p : Progress β) : Progress β :=
  { p with machine := p.machine.withTracing false, events := ordinary p.events }

/-- The execution as it would have been without tracing. -/
def Execution.untraced (x : Execution β) : Execution β :=
  { x with
    machine := x.machine.withTracing false
    output := x.output.untraced }

section Reports

theorem ordinary_append
    (events more : List (Event β)) :
    ordinary (events ++ more) = ordinary events ++ ordinary more :=
  List.filter_append ..

theorem ordinary_idem
    (events : List (Event β)) :
    ordinary (ordinary events) = ordinary events := by
  rw [ordinary, ordinary, List.filter_filter]
  simp only [Bool.and_self]

theorem trace_ordinary
    (events : List (Event β)) :
    (ordinary events).filter Event.isTrace = [] := by
  rw [ordinary, List.filter_filter]
  simp only [Bool.and_not_self, List.filter_false]

theorem trace_fetches
    (fetches : List (Fetch β)) :
    (fetches.map Fetch.event).filter Event.isTrace = fetches.map Fetch.event := by
  rw [List.filter_eq_self]
  intro e he
  obtain ⟨x, -, rfl⟩ := List.mem_map.mp he
  rfl

theorem ordinary_fetches
    (fetches : List (Fetch β)) :
    ordinary (fetches.map Fetch.event) = [] := by
  rw [← trace_fetches, ordinary, List.filter_filter]
  simp only [Bool.not_and_self, List.filter_false]

theorem Output.untraced_add
    (o : Output β) (events : List (Event β)) (printed : String) :
    (o.add events printed).untraced = o.untraced.add (ordinary events) printed := by
  simp [untraced, add, ordinary]

end Reports

/-! ## One step -/

namespace Machine

theorem status_withTracing
    (m : Machine β) (tracing : Bool) :
    (m.withTracing tracing).status = m.status :=
  rfl

theorem leave_withTracing
    (m : Machine β) (tracing : Bool) (f : Frame β) (below : List (Frame β))
    (value : Option (Value β)) :
    (m.withTracing tracing).leave f below value =
      match m.leave f below value with
      | .ok m' => .ok (m'.withTracing tracing)
      | .error (m', cause) => .error (m'.withTracing tracing, cause) := by
  cases value with
  | none => rfl
  | some v =>
      cases below with
      | nil => rfl
      | cons caller rest =>
          simp only [leave]
          cases caller.push v <;> rfl

/-- A step with tracing and one without differ by the report of the instruction. -/
theorem step_withTracing [Host β]
    (m : Machine β) (tracing : Bool) :
    (m.withTracing tracing).step =
      { m.step with
        machine := m.step.machine.withTracing tracing
        events := (if tracing then m.fetch?.toList.map Fetch.event else []) ++
          ordinary m.step.events } := by
  cases hframes : m.calls.frames with
  | nil => cases tracing <;> simp [step, withTracing, fetch?, hframes, ordinary]
  | cons f below =>
      cases hi : f.code.instruction? f.ip with
      | none =>
          cases tracing <;>
            simp [step, withTracing, fetch?, hframes, hi, ordinary, Event.isTrace, Event.level,
              settle]
      | some i =>
          have hframes' : (m.withTracing tracing).calls.frames = f :: below := hframes
          have hfetch : m.fetch?.toList.map Fetch.event =
              [.fetched f.ip i f.stack.items] := by
            simp [fetch?, hframes, hi, Fetch.event]
          have hreport : ordinary
              (if m.tracing then [Event.fetched f.ip i f.stack.items] else []) = [] := by
            cases m.tracing <;> simp [ordinary, Event.isTrace, Event.level]
          -- Behind the report, nothing of the step asks whether the machine traces.
          simp only [step, hframes', hframes, hi, hfetch]
          rcases hperform : Frame.perform { f with ip := f.ip + 1 } f.ip i m.scopes with
            b | ⟨f', scopes', printed⟩ | value
          · simp only [withTracing, hperform, hreport, List.append_nil]
            rfl
          · simp only [withTracing, hperform, hreport, List.append_nil]
            rfl
          · simp only [show (m.withTracing tracing).scopes = m.scopes from rfl, hperform,
              leave_withTracing]
            cases m.leave f below value with
            | ok m' =>
                simp only [hreport, List.append_nil]
                rfl
            | error failure =>
                simp only [hreport, List.append_nil]
                rfl

theorem machine_step_withTracing [Host β]
    (m : Machine β) (tracing : Bool) :
    (m.withTracing tracing).step.machine = m.step.machine.withTracing tracing := by
  rw [step_withTracing]

/-- The plain step is the traced one without its report. -/
theorem step_untraced [Host β]
    (m : Machine β) :
    (m.withTracing false).step = (m.withTracing true).step.untraced := by
  rw [step_withTracing, step_withTracing m true, Progress.untraced]
  simp only [if_true, ordinary_append, ordinary_fetches, ordinary_idem]
  rfl

theorem trace_step [Host β]
    (m : Machine β) :
    m.step.events.filter Event.isTrace =
      if m.tracing then m.fetch?.toList.map Fetch.event else [] := by
  have hevents : m.step.events =
      (if m.tracing then m.fetch?.toList.map Fetch.event else []) ++ ordinary m.step.events :=
    congrArg Progress.events (m.step_withTracing m.tracing)
  rw [hevents, List.filter_append, trace_ordinary, List.append_nil]
  cases m.tracing with
  | true => exact trace_fetches _
  | false => rfl

/-! ## Many steps -/

theorem stages_withTracing [Host β]
    (m : Machine β) (tracing : Bool) (k : Nat) :
    (m.withTracing tracing).stages (fun _ => true) k =
      (m.stages (fun _ => true) k).map fun m₁ => m₁.withTracing tracing := by
  induction k generalizing m with
  | zero => rfl
  | succ k ih =>
      rw [stages_succ_of_true rfl, stages_succ_of_true rfl, machine_step_withTracing, ih]
      rfl

theorem tracing_of_mem_stages [Host β]
    {goesOn : Progress β → Bool} {m m₁ : Machine β} {k : Nat}
    (hmem : m₁ ∈ m.stages goesOn k) :
    m₁.tracing = m.tracing := by
  refine stages_induction (P := fun m₁ => m₁.tracing = m.tracing) ?_ rfl hmem
  intro m₁ htracing _
  rw [m₁.step_keeps_setup.2, htracing]

/-- The records of level `trace` are the reports of tracing. -/
theorem trace_records
    (events : List (Event β)) :
    (events.map Event.record).filter (fun r => r.level = .trace) =
      (events.filter Event.isTrace).map Event.record := by
  rw [List.filter_map]
  rfl

theorem trace_events [Host β]
    (m : Machine β) (goesOn : Progress β → Bool) (k : Nat) :
    (events (m.stages goesOn k)).filter Event.isTrace =
      if m.tracing then ((m.stages goesOn k).filterMap fetch?).map Fetch.event else [] := by
  have hstep : ∀ m₁ ∈ m.stages goesOn k, m₁.step.events.filter Event.isTrace =
      if m.tracing then m₁.fetch?.toList.map Fetch.event else [] := by
    intro m₁ hmem
    rw [trace_step, tracing_of_mem_stages hmem]
  rw [events, List.filter_flatMap, List.flatMap_congr hstep]
  cases m.tracing with
  | true =>
      rw [List.filterMap_eq_flatMap_toList, List.map_flatMap]
      rfl
  | false => exact List.flatMap_eq_nil_iff.mpr fun _ _ => rfl

/-- A traced machine leaves one record of level `trace` for each instruction. -/
theorem trace_log_of_tracing [Host β]
    {m : Machine β} (htracing : m.tracing = true) (goesOn : Progress β → Bool) (k : Nat) :
    (log (m.stages goesOn k)).filter (fun r => r.level = .trace) =
      ((m.stages goesOn k).filterMap fetch?).map Fetch.record := by
  rw [log, trace_records, trace_events, if_pos htracing, List.map_map]
  apply List.map_congr_left
  intro x _
  exact x.record_event

/-- A plain machine leaves no record of level `trace`. -/
theorem level_ne_trace_of_mem_log [Host β]
    {m : Machine β} (hplain : m.tracing = false) {goesOn : Progress β → Bool} {k : Nat}
    {r : Record} (hmem : r ∈ log (m.stages goesOn k)) :
    r.level ≠ .trace := by
  have hnone : (log (m.stages goesOn k)).filter (fun r => r.level = .trace) = [] := by
    rw [log, trace_records, trace_events, if_neg (Bool.eq_false_iff.mp hplain)]
    rfl
  intro hlevel
  exact List.filter_eq_nil_iff.mp hnone r hmem (decide_eq_true hlevel)

/-! ## Whole runs -/

theorem runFrom_untraced [Host β]
    (fuel : Nat) (m : Machine β) (output : Output β) :
    runFrom fuel (m.withTracing false) output.untraced =
      (runFrom fuel (m.withTracing true) output).untraced := by
  induction fuel generalizing m output with
  | zero => rfl
  | succ fuel ih =>
      simp only [runFrom]
      rw [step_untraced, Progress.untraced]
      simp only [← Output.untraced_add, status_withTracing]
      cases (m.withTracing true).step.error with
      | some e => rfl
      | none =>
          cases (m.withTracing true).step.machine.status with
          | running =>
              rw [machine_step_withTracing]
              exact ih _ _
          | halted => rfl

theorem events_runFrom [Host β]
    (fuel : Nat) (m : Machine β) (output : Output β) :
    (runFrom fuel m output).output.events.toList =
      output.events.toList ++ events (m.stages Progress.goesOn fuel) := by
  induction fuel generalizing m output with
  | zero => simp [runFrom, stages, events]
  | succ fuel ih =>
      simp only [runFrom]
      split
      next e herror =>
        have hstops : m.step.goesOn = false := by simp [Progress.goesOn, herror]
        rw [stages_succ_of_false hstops]
        simp [events, Output.add]
      next herror =>
        split
        next hrunning =>
          have hgoes := Progress.goesOn_eq_true_iff.mpr ⟨herror, hrunning⟩
          rw [stages_succ_of_true hgoes, ih]
          simp [events, Output.add]
        next hhalted =>
          have hstops : m.step.goesOn = false := by simp [Progress.goesOn, hhalted]
          rw [stages_succ_of_false hstops]
          simp [events, Output.add]

theorem log_execute [Host β]
    (fuel : Nat) (m : Machine β) :
    (m.execute fuel .empty).output.log = log (m.begun.stages Progress.goesOn fuel) := by
  rw [execute_eq_runFrom, Output.log, events_runFrom]
  rfl

/-- Tracing changes no step and no run: without its reports, what a traced machine
does is what the plain one does.  The reports are one record for each instruction
that is fetched, in the order of execution. -/
theorem tracing_only_observes [Host β]
    (m : Machine β) (k : Nat) :
    let traced := m.withTracing true
    let plain := m.withTracing false
    (let tracedStages := traced.stages (fun _ => true) k
     let plainStages := plain.stages (fun _ => true) k
     plainStages.map step = tracedStages.map (fun m₁ => m₁.step.untraced) ∧
      (∀ r ∈ log plainStages, r.level ≠ .trace) ∧
      (log tracedStages).filter (fun r => r.level = .trace) =
        (tracedStages.filterMap fetch?).map Fetch.record) ∧
    (let tracedRun := traced.execute k .empty
     let plainRun := plain.execute k .empty
     plainRun = tracedRun.untraced ∧
      (∀ r ∈ plainRun.output.log, r.level ≠ .trace) ∧
      tracedRun.output.log.filter (fun r => r.level = .trace) =
        ((traced.begun.stages Progress.goesOn k).filterMap fetch?).map Fetch.record) := by
  intro traced plain
  refine ⟨⟨?_, ?_, ?_⟩, ?_, ?_, ?_⟩
  · rw [stages_withTracing, stages_withTracing m true, List.map_map, List.map_map]
    apply List.map_congr_left
    intro m₁ _
    exact m₁.step_untraced
  · intro r hr
    exact level_ne_trace_of_mem_log rfl hr
  · exact trace_log_of_tracing rfl _ k
  · exact runFrom_untraced k m.begun .empty
  · rw [log_execute]
    intro r hr
    exact level_ne_trace_of_mem_log rfl hr
  · rw [log_execute]
    exact trace_log_of_tracing rfl _ k

end Machine
end Stackline
