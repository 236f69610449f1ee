import Stackline.Proofs.Decimal.Integer
import Stackline.Proofs.Machine.Bounds
import Stackline.Value.Standard

/-!
# Calls of native functions

A call names the number of its arguments.  They lie on top of the operand stack, the
last one uppermost, and the value that is called lies below them.  `Value.calledWith` is
what that value makes of the arguments, in the order in which they were pushed.  A step
that calls carries it out: it needs a number and enough values, and then it succeeds or
fails as the value called does.  There is always room for the result, which takes the
place of the value called.
-/

namespace Stackline

variable {β : Type}

/-! ## The number of arguments -/

namespace Instruction

variable {i : Instruction} {text : String}

theorem argumentCount_eq_match
    (htext : i.operand? 0 = some text) :
    i.argumentCount =
      match Decimal.count? text with
      | some n => .ok n
      | none => .error (.invalidOperand i.opcode text .argumentCount) := by
  have hrequire : i.require 0 = .ok text := by simp only [require, htext]
  rw [argumentCount, hrequire]
  rfl

theorem argumentCount_of_isCount
    (htext : i.operand? 0 = some text) {n : Nat} (hcount : Decimal.IsCount text n) :
    i.argumentCount = .ok n := by
  rw [argumentCount_eq_match htext, Decimal.count?_eq_some_iff.mpr hcount]

theorem argumentCount_of_not_isCount
    (htext : i.operand? 0 = some text) (hcount : ∀ n, ¬Decimal.IsCount text n) :
    i.argumentCount = .error (.invalidOperand i.opcode text .argumentCount) := by
  have hnone : Decimal.count? text = none := by
    rw [Option.eq_none_iff_forall_ne_some]
    intro n hn
    exact hcount n (Decimal.count?_eq_some_iff.mp hn)
  rw [argumentCount_eq_match htext, hnone]

end Instruction

/-! ## What a value makes of its arguments -/

/-- What a call of a value with these arguments comes to.  Only natives can be called,
they are called only with a number of arguments that they take, and then they answer. -/
inductive Value.Called [Host β] (args : List (Value β)) :
    Value β → Except Fault (Value β) → Prop where
  | notCallable {callee : Value β} (hkind : callee.kind ≠ .native) :
      Called args callee (.error (.notCallable callee.kind))
  | arity {function : Native β} (harity : ¬function.arity.accepts args.length = true) :
      Called args (.native function)
        (.error (.arityMismatch function.name function.arity args.length))
  | failure {function : Native β} {message : String}
      (harity : function.arity.accepts args.length = true)
      (hresult : (Host.invoke function.body args).result = .error message) :
      Called args (.native function) (.error (.nativeFailure function.name message))
  | result {function : Native β} {v : Value β}
      (harity : function.arity.accepts args.length = true)
      (hresult : (Host.invoke function.body args).result = .ok v) :
      Called args (.native function) (.ok v)

theorem Value.exists_native_of_kind
    {callee : Value β} (hkind : callee.kind = .native) :
    ∃ function, callee = .native function := by
  cases callee with
  | native function => exact ⟨function, rfl⟩
  | int n => exact absurd hkind (by simp [kind])
  | float x => exact absurd hkind (by simp [kind])
  | str s => exact absurd hkind (by simp [kind])

theorem Value.exists_called [Host β]
    (args : List (Value β)) (callee : Value β) :
    ∃ outcome, Called args callee outcome := by
  by_cases hkind : callee.kind = .native
  · obtain ⟨function, rfl⟩ := exists_native_of_kind hkind
    by_cases harity : function.arity.accepts args.length = true
    · cases hresult : (Host.invoke function.body args).result with
      | error message => exact ⟨_, .failure harity hresult⟩
      | ok v => exact ⟨_, .result harity hresult⟩
    · exact ⟨_, .arity harity⟩
  · exact ⟨_, .notCallable hkind⟩

/-- No call fails for want of values or of room. -/
theorem Value.Called.ofStack_eq_false [Host β]
    {args : List (Value β)} {callee : Value β} {cause : Fault}
    (hcalled : Called args callee (.error cause)) :
    cause.ofStack = false := by
  cases hcalled with
  | notCallable _ => rfl
  | arity _ => rfl
  | failure _ _ => rfl

namespace Native

variable [Host β] {function : Native β} {args : List (Value β)}

theorem call_of_not_accepts
    (harity : ¬function.arity.accepts args.length = true) :
    (function.call args).2 =
      .error (.arityMismatch function.name function.arity args.length) := by
  rw [call, if_neg harity]

theorem call_of_accepts
    (harity : function.arity.accepts args.length = true) :
    (function.call args).2 =
      (Host.invoke function.body args).result.mapError (.nativeFailure function.name) := by
  rw [call, if_pos harity]

end Native

/-! ## The instruction -/

theorem Stack.popMany_of_append
    {s : Stack β} {args rest : List (Value β)} (hitems : s.items = args.reverse ++ rest) :
    s.popMany args.length = .ok (args.reverse, { s with items := rest }) := by
  have henough : args.length ≤ s.items.length := by
    rw [hitems, List.length_append, List.length_reverse]
    exact Nat.le_add_right _ _
  rw [popMany, if_pos henough, hitems, List.take_left' List.length_reverse,
    List.drop_left' List.length_reverse]

namespace Frame

variable [Host β] {f : Frame β} {i : Instruction}

/-- With too few values there is nothing to call, or not all arguments. -/
theorem callNative_of_short
    {argc : Nat} (hcount : i.argumentCount = .ok argc) (hshort : f.stack.items.length < argc + 1)
    (scopes : Arena β) :
    ∃ b, f.callNative i scopes = .error b ∧ b.cause = .stackUnderflow := by
  by_cases hargs : argc ≤ f.stack.items.length
  · have hall : f.stack.popMany argc =
        .ok (f.stack.items.take argc, { f.stack with items := [] }) := by
      rw [Stack.popMany, if_pos hargs, List.drop_eq_nil_of_le (by omega)]
    simp only [callNative, bind_eq_error_iff, Stack.attempt_eq_ok_iff]
    exact ⟨_, .inr ⟨argc, hcount, .inr ⟨_, hall, .inl rfl⟩⟩, rfl⟩
  · have hnone : f.stack.popMany argc = .error .stackUnderflow := if_neg hargs
    simp only [callNative, bind_eq_error_iff, Stack.attempt_eq_ok_iff, Stack.attempt_eq_error_iff]
    exact ⟨_, .inr ⟨argc, hcount, .inl ⟨.stackUnderflow, hnone, rfl⟩⟩, rfl⟩

section Split

variable {args low : List (Value β)} {callee : Value β}

theorem callNative_of_called_ok
    (hcount : i.argumentCount = .ok args.length)
    (hitems : f.stack.items = args.reverse ++ callee :: low)
    (hroom : low.length < f.stack.limit) {v : Value β} (hcalled : Value.Called args callee (.ok v))
    (scopes : Arena β) :
    ∃ printed, f.callNative i scopes =
      .ok (.next { f with stack := { f.stack with items := v :: low } } scopes printed) := by
  cases hcalled with
  | @result function _ harity hresult =>
      have hanswer : (function.call args).2 = .ok v := by
        rw [Native.call_of_accepts harity, hresult]
        rfl
      have hpush : ({ f.stack with items := low } : Stack β).push v =
          .ok { f.stack with items := v :: low } := if_pos hroom
      refine ⟨(function.call args).1, ?_⟩
      simp only [callNative, bind_eq_ok_iff, Stack.attempt_eq_ok_iff]
      refine ⟨_, hcount, _, Stack.popMany_of_append hitems, _, rfl, ?_⟩
      simp only [List.reverse_reverse, bind_eq_ok_iff, mapError_eq_ok_iff]
      exact ⟨v, hanswer, _, hpush, rfl⟩

theorem callNative_of_called_error
    (hcount : i.argumentCount = .ok args.length)
    (hitems : f.stack.items = args.reverse ++ callee :: low) {cause : Fault}
    (hcalled : Value.Called args callee (.error cause)) (scopes : Arena β) :
    ∃ printed, f.callNative i scopes =
      .error { stack := { f.stack with items := low }, printed, cause } := by
  simp only [callNative, bind_eq_error_iff (γ := Turn β), Stack.attempt_eq_ok_iff]
  -- The arguments and the callee have been taken off; the rest depends on the callee.
  refine Exists.imp (fun printed hrest =>
    .inr ⟨_, hcount, .inr ⟨_, Stack.popMany_of_append hitems, .inr ⟨_, rfl, hrest⟩⟩⟩) ?_
  cases hcalled with
  | notCallable hkind =>
      cases callee with
      | native function => exact absurd rfl hkind
      | int n => exact ⟨"", rfl⟩
      | float x => exact ⟨"", rfl⟩
      | str s => exact ⟨"", rfl⟩
  | @arity function harity =>
      refine ⟨(function.call args).1, ?_⟩
      simp only [List.reverse_reverse, Native.call_of_not_accepts harity]
      rfl
  | @failure function message harity hresult =>
      refine ⟨(function.call args).1, ?_⟩
      simp only [List.reverse_reverse, Native.call_of_accepts harity, hresult]
      rfl

end Split

end Frame

/-- Above a stack's lower values, and below as many arguments as it can spare, there is
something to call. -/
theorem exists_callee_of_le
    {items : List (Value β)} {argc : Nat} (henough : argc + 1 ≤ items.length) :
    ∃ (args : List (Value β)) (callee : Value β) (low : List (Value β)),
      args.length = argc ∧ items = args.reverse ++ callee :: low := by
  have hbelow : items.drop argc ≠ [] := by
    rw [Ne, List.drop_eq_nil_iff]
    omega
  obtain ⟨callee, low, hdrop⟩ := List.exists_cons_of_ne_nil hbelow
  refine ⟨(items.take argc).reverse, callee, low, ?_, ?_⟩
  · rw [List.length_reverse, List.length_take]
    omega
  · rw [List.reverse_reverse, ← hdrop, List.take_append_drop]

/-! ## Steps -/

namespace Machine

/-- The call `i` is the next instruction of the top frame. -/
structure AtCall (m : Machine β) (f : Frame β) (below : List (Frame β)) (i : Instruction) :
    Prop where
  frames : m.calls.frames = f :: below
  fetched : f.code.instruction? f.ip = some i
  opcode : i.opcode = .callFunc

section Steps

variable [Host β] {m : Machine β} {f : Frame β} {below : List (Frame β)} {i : Instruction}

theorem AtCall.step_of_error
    (hm : m.AtCall f below i) {b : Breakdown β}
    (hcall : ({ f with ip := f.ip + 1 } : Frame β).callNative i m.scopes = .error b) :
    m.step.machine = m.settle ({ f with ip := f.ip + 1, stack := b.stack } :: below) ∧
      m.step.error = some (.instruction f.ip .callFunc (below.length + 1) b.cause) := by
  have hperform : ({ f with ip := f.ip + 1 } : Frame β).perform f.ip i m.scopes = .error b := by
    rw [Frame.perform, hm.opcode]
    exact hcall
  rw [← hm.opcode]
  exact step_of_perform_error hm.frames hm.fetched hperform

theorem AtCall.step_of_not_isCount
    (hm : m.AtCall f below i) {text : String} (htext : i.operand? 0 = some text)
    (hcount : ∀ argc, ¬Decimal.IsCount text argc) :
    m.step.machine = m.settle ({ f with ip := f.ip + 1 } :: below) ∧
      m.step.error = some (.instruction f.ip .callFunc (below.length + 1)
        (.invalidOperand .callFunc text .argumentCount)) := by
  have hargc := Instruction.argumentCount_of_not_isCount htext hcount
  rw [hm.opcode] at hargc
  apply hm.step_of_error
    (b := ⟨f.stack, "", .invalidOperand .callFunc text .argumentCount⟩)
  rw [Frame.callNative, hargc]
  rfl

theorem AtCall.step_of_short
    (hm : m.AtCall f below i) {argc : Nat} (hargc : i.argumentCount = .ok argc)
    (hshort : f.stack.items.length < argc + 1) :
    m.step.error = some (.instruction f.ip .callFunc (below.length + 1) .stackUnderflow) := by
  obtain ⟨b, hcall, hcause⟩ :=
    Frame.callNative_of_short (f := { f with ip := f.ip + 1 }) hargc hshort m.scopes
  rw [(hm.step_of_error hcall).2, hcause]

section Split

variable {args low : List (Value β)} {callee : Value β}

theorem AtCall.step_of_called_error
    (hm : m.AtCall f below i) (hargc : i.argumentCount = .ok args.length)
    (hitems : f.stack.items = args.reverse ++ callee :: low) {cause : Fault}
    (hcalled : Value.Called args callee (.error cause)) :
    m.step.error = some (.instruction f.ip .callFunc (below.length + 1) cause) := by
  obtain ⟨printed, hcall⟩ :=
    Frame.callNative_of_called_error (f := { f with ip := f.ip + 1 }) hargc hitems hcalled m.scopes
  exact (hm.step_of_error hcall).2

theorem AtCall.step_of_called_ok
    (hm : m.AtCall f below i) (hargc : i.argumentCount = .ok args.length)
    (hitems : f.stack.items = args.reverse ++ callee :: low) (hfits : f.stack.Fits) {v : Value β}
    (hcalled : Value.Called args callee (.ok v)) :
    m.step.machine = m.settle
        ({ f with ip := f.ip + 1, stack := { f.stack with items := v :: low } } :: below) ∧
      m.step.error = none := by
  have hroom : low.length < f.stack.limit := by
    have hlength : f.stack.items.length ≤ f.stack.limit := hfits
    rw [hitems, List.length_append, List.length_cons] at hlength
    omega
  obtain ⟨printed, hcall⟩ :=
    Frame.callNative_of_called_ok (f := { f with ip := f.ip + 1 }) hargc hitems hroom hcalled
      m.scopes
  have hperform : ({ f with ip := f.ip + 1 } : Frame β).perform f.ip i m.scopes =
      .ok (.next { f with ip := f.ip + 1, stack := { f.stack with items := v :: low } } m.scopes
        printed) := by
    rw [Frame.perform, hm.opcode]
    exact hcall
  exact step_of_perform_next hm.frames hm.fetched hperform

/-- The step fails for the cause for which the call does. -/
theorem AtCall.step_error_iff_called
    (hm : m.AtCall f below i) (hargc : i.argumentCount = .ok args.length)
    (hitems : f.stack.items = args.reverse ++ callee :: low) (hfits : f.stack.Fits)
    {cause : Fault} :
    m.step.error = some (.instruction f.ip .callFunc (below.length + 1) cause) ↔
      Value.Called args callee (.error cause) := by
  constructor
  · intro hfails
    obtain ⟨outcome, hcalled⟩ := Value.exists_called args callee
    cases outcome with
    | ok v =>
        rw [(hm.step_of_called_ok hargc hitems hfits hcalled).2] at hfails
        exact absurd hfails (by simp)
    | error cause' =>
        rw [hm.step_of_called_error hargc hitems hcalled] at hfails
        have hcause : cause' = cause := by simpa using hfails
        rwa [← hcause]
  · intro hcalled
    exact hm.step_of_called_error hargc hitems hcalled

/-- The step succeeds with the result of the call. -/
theorem AtCall.step_ok_iff_called
    (hm : m.AtCall f below i) (hargc : i.argumentCount = .ok args.length)
    (hitems : f.stack.items = args.reverse ++ callee :: low) (hfits : f.stack.Fits)
    {v : Value β} :
    (m.step.error = none ∧ m.step.machine = m.settle
        ({ f with ip := f.ip + 1, stack := { f.stack with items := v :: low } } :: below)) ↔
      Value.Called args callee (.ok v) := by
  constructor
  · rintro ⟨hsucceeds, hleaves⟩
    obtain ⟨outcome, hcalled⟩ := Value.exists_called args callee
    cases outcome with
    | ok v' =>
        rw [(hm.step_of_called_ok hargc hitems hfits hcalled).1] at hleaves
        have hframes := congrArg (fun m : Machine β => m.calls.frames) hleaves
        have hvalue : v' = v := by simpa [settle] using hframes
        rwa [← hvalue]
    | error cause =>
        rw [hm.step_of_called_error hargc hitems hcalled] at hsucceeds
        exact absurd hsucceeds (by simp)
  · intro hcalled
    obtain ⟨hmachine, herror⟩ := hm.step_of_called_ok hargc hitems hfits hcalled
    exact ⟨herror, hmachine⟩

end Split

/-- A step that finds enough values lacks neither values nor room. -/
theorem AtCall.ofStack_eq_false
    (hm : m.AtCall f below i) {argc : Nat} (hargc : i.argumentCount = .ok argc)
    (henough : argc + 1 ≤ f.stack.items.length) (hfits : f.stack.Fits) {cause : Fault}
    (hfails : m.step.error = some (.instruction f.ip .callFunc (below.length + 1) cause)) :
    cause.ofStack = false := by
  obtain ⟨args, callee, low, rfl, hitems⟩ := exists_callee_of_le henough
  exact ((hm.step_error_iff_called hargc hitems hfits).mp hfails).ofStack_eq_false

/-- The step of a call, whatever its operand says and whatever lies on the stack, as long
as the stack is within its limit.  An operand that is no count is refused, with the stack
unchanged.  For `argc` arguments there have to be `argc + 1` values.  Then the value below
the arguments is called with them, in the order in which they were pushed: the step fails
for the cause for which the call does, or it puts the result in the place of the value
called.  It never lacks room. -/
theorem call_step_gives_what_callee_gives
    (hm : m.AtCall f below i) {text : String} (htext : i.operand? 0 = some text)
    (hfits : f.stack.Fits) :
    let fails (cause : Fault) : Prop :=
      m.step.error = some (.instruction f.ip .callFunc (below.length + 1) cause)
    let leaves (items : List (Value β)) : Prop :=
      m.step.machine =
        m.settle ({ f with ip := f.ip + 1, stack := { f.stack with items } } :: below)
    ((∀ argc, ¬Decimal.IsCount text argc) →
        fails (.invalidOperand .callFunc text .argumentCount) ∧ leaves f.stack.items) ∧
      (∀ argc, Decimal.IsCount text argc →
        (fails .stackUnderflow ↔ f.stack.items.length < argc + 1) ∧
          ∀ (low : List (Value β)) (callee : Value β) (args : List (Value β)),
            args.length = argc → f.stack.items = args.reverse ++ callee :: low →
              (∀ cause, fails cause ↔ Value.Called args callee (.error cause)) ∧
                ∀ v, (m.step.error = none ∧ leaves (v :: low)) ↔
                  Value.Called args callee (.ok v)) ∧
      ∀ limit, ¬fails (.stackOverflow limit) := by
  intro fails leaves
  refine ⟨?_, ?_, ?_⟩
  · intro hcount
    obtain ⟨hmachine, herror⟩ := hm.step_of_not_isCount htext hcount
    exact ⟨herror, hmachine⟩
  · intro argc hcount
    have hargc := Instruction.argumentCount_of_isCount htext hcount
    constructor
    · constructor
      · intro hfails
        apply Nat.lt_of_not_le
        intro henough
        exact absurd (hm.ofStack_eq_false hargc henough hfits hfails) (by decide)
      · intro hshort
        exact hm.step_of_short hargc hshort
    · rintro low callee args rfl hitems
      exact ⟨fun cause => hm.step_error_iff_called hargc hitems hfits,
        fun v => hm.step_ok_iff_called hargc hitems hfits⟩
  · intro limit hfull
    -- Whatever goes wrong before there is a value to push has another cause.
    by_cases hcount : ∃ argc, Decimal.IsCount text argc
    · obtain ⟨argc, hcount⟩ := hcount
      have hargc := Instruction.argumentCount_of_isCount htext hcount
      by_cases henough : argc + 1 ≤ f.stack.items.length
      · exact absurd (hm.ofStack_eq_false hargc henough hfits hfull) (by simp [Fault.ofStack])
      · have hshort := hm.step_of_short hargc (Nat.lt_of_not_le henough)
        exact absurd (hshort.symm.trans hfull) (by simp)
    · have hrefused := (hm.step_of_not_isCount htext (not_exists.mp hcount)).2
      exact absurd (hrefused.symm.trans hfull) (by simp)

end Steps

/-- A function complains about its arguments in the order in which they were pushed.  The
operand has a plus sign, and the stack is full. -/
theorem call_step_gives_what_callee_gives_min :
    let f : Frame Standard :=
      { Frame.start (.ofInstructions [⟨.callFunc, ["+2"]⟩]) .global 4 with
        stack :=
          { limit := 4
            items := [.int 1, .str "a", .native (Standard.min.native .min), .str "kept"] } }
    let m : Machine Standard := { idle 1 false with calls := { limit := 1, frames := [f] } }
    m.AtCall f [] ⟨.callFunc, ["+2"]⟩ ∧ f.stack.Fits ∧
      m.step.error = some (.instruction 0 .callFunc 1
        (.nativeFailure "min" "min() cannot compare int and str")) := by
  intro f m
  have hm : m.AtCall f [] ⟨.callFunc, ["+2"]⟩ := ⟨rfl, rfl, rfl⟩
  have hfits : f.stack.Fits := Nat.le_refl 4
  have hcount : Decimal.IsCount "+2" 2 := Decimal.count?_eq_some_iff.mp (by decide)
  obtain ⟨-, hcalls, -⟩ := call_step_gives_what_callee_gives hm rfl hfits
  obtain ⟨-, hcalled⟩ := hcalls 2 hcount
  obtain ⟨hfails, -⟩ :=
    hcalled [.str "kept"] (.native (Standard.min.native .min)) [.str "a", .int 1] rfl rfl
  exact ⟨hm, hfits, (hfails _).mpr (.failure rfl rfl)⟩

end Machine
end Stackline
