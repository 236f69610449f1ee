import Stackline.Proofs.Machine.Step

/-!
# How an instruction fails

An instruction fails with a cause and leaves behind what it had not yet taken
off the operand stack.  `Opcode.admits` is the table of the causes that belong to
an operation.  Beyond the table there are only three ways to fail, and each of
them tells something about the frame: an operand is missing, a lookup has met a
released scope, or the operand stack was over its limit to begin with.

A step of the machine fails as the instruction of its top frame does, or because
the caller has no room for the value that is returned to it.
-/

namespace Stackline

variable {β : Type}

/-! ## Parts that fail -/

namespace Stack

theorem attempt_eq_error_iff
    {α : Type} {s : Stack β} {x : Except Fault α} {b : Breakdown β} :
    s.attempt x = .error b ↔
      ∃ cause, x = .error cause ∧ { stack := s, printed := "", cause } = b :=
  mapError_eq_error_iff

/-- What is left of a stack once values have been taken off its top. -/
structure LeftOf (rest s : Stack β) : Prop where
  limit : rest.limit = s.limit
  items : rest.items <:+ s.items

theorem leftOf_refl
    (s : Stack β) :
    s.LeftOf s :=
  ⟨rfl, List.suffix_refl s.items⟩

theorem LeftOf.trans
    {s₁ s₂ s₃ : Stack β} (h₁ : s₁.LeftOf s₂) (h₂ : s₂.LeftOf s₃) :
    s₁.LeftOf s₃ :=
  ⟨h₁.limit.trans h₂.limit, h₁.items.trans h₂.items⟩

theorem pop_eq_ok_iff
    {s rest : Stack β} {v : Value β} :
    s.pop = .ok (v, rest) ↔ s.items = v :: rest.items ∧ rest.limit = s.limit := by
  rcases s with ⟨limit, _ | ⟨top, items⟩⟩
  · exact iff_of_false nofun (fun h => nomatch h.1)
  · rcases rest with ⟨limit', items'⟩
    simp only [pop, Except.ok.injEq, Prod.mk.injEq, mk.injEq, List.cons.injEq]
    constructor
    · rintro ⟨rfl, rfl, rfl⟩
      exact ⟨⟨rfl, rfl⟩, rfl⟩
    · rintro ⟨⟨rfl, rfl⟩, rfl⟩
      exact ⟨rfl, rfl, rfl⟩

theorem leftOf_of_pop
    {s rest : Stack β} {v : Value β} (hpop : s.pop = .ok (v, rest)) :
    rest.LeftOf s := by
  obtain ⟨hitems, hlimit⟩ := pop_eq_ok_iff.mp hpop
  refine ⟨hlimit, ?_⟩
  rw [hitems]
  exact List.suffix_cons v rest.items

theorem eq_underflow_of_pop_error
    {s : Stack β} {cause : Fault} (hpop : s.pop = .error cause) :
    cause = .stackUnderflow := by
  simp only [pop] at hpop
  split at hpop
  next =>
    cases hpop
    rfl
  next => cases hpop

theorem push_eq_error_iff
    {s : Stack β} {v : Value β} {cause : Fault} :
    s.push v = .error cause ↔ s.limit ≤ s.items.length ∧ cause = .stackOverflow s.limit := by
  simp only [push]
  split
  next hroom =>
    constructor
    · intro hpush
      cases hpush
    · intro hfull
      exact absurd hfull.1 (Nat.not_le_of_lt hroom)
  next hfull =>
    simp only [Except.error.injEq]
    constructor
    · rintro rfl
      exact ⟨Nat.le_of_not_lt hfull, rfl⟩
    · rintro ⟨-, rfl⟩
      rfl

theorem dup_error_cases
    {s : Stack β} {cause : Fault} (hdup : s.dup = .error cause) :
    cause = .stackUnderflow ∨ cause = .stackOverflow s.limit := by
  simp only [dup, bind_eq_error_iff] at hdup
  rcases hdup with hpeek | ⟨v, -, hpush⟩
  · simp only [peek] at hpeek
    split at hpeek
    next =>
      cases hpeek
      exact .inl rfl
    next => cases hpeek
  · exact .inr (push_eq_error_iff.mp hpush).2

theorem leftOf_of_popMany
    {s rest : Stack β} {n : Nat} {args : List (Value β)}
    (hpop : s.popMany n = .ok (args, rest)) :
    rest.LeftOf s := by
  simp only [popMany] at hpop
  split at hpop
  next =>
    cases hpop
    exact ⟨rfl, List.drop_suffix n s.items⟩
  next => cases hpop

theorem eq_underflow_of_popMany_error
    {s : Stack β} {n : Nat} {cause : Fault} (hpop : s.popMany n = .error cause) :
    cause = .stackUnderflow := by
  simp only [popMany] at hpop
  split at hpop
  next => cases hpop
  next =>
    cases hpop
    rfl

end Stack

/-! ## The causes that belong to an operation -/

/-- The causes for which an operation can fail in a program that has all its
operands. -/
def Opcode.admits (op : Opcode) (cause : Fault) : Bool :=
  match op with
  | .loadConst => (cause matches .stackOverflow _)
  | .loadVar => (cause matches .undefined _ | .stackOverflow _)
  | .storeVar | .popTop | .returnVal => (cause matches .stackUnderflow)
  | .dupTop => (cause matches .stackUnderflow | .stackOverflow _)
  | .add | .mul =>
    (cause matches .stackUnderflow | .unsupported _ _ _ | .integerOverflow _ | .stringTooLong _ _)
  | .sub => (cause matches .stackUnderflow | .unsupported _ _ _ | .integerOverflow _)
  | .div => (cause matches .stackUnderflow | .unsupported _ _ _ | .divisionByZero)
  | .jump => (cause matches .invalidOperand _ _ _ | .jumpOutside _ _)
  | .jumpIfTrue | .jumpIfFalse =>
    (cause matches .stackUnderflow | .invalidOperand _ _ _ | .jumpOutside _ _)
  | .callFunc =>
    (cause matches .stackUnderflow | .invalidOperand _ _ _ | .notCallable _
      | .arityMismatch _ _ _ | .nativeFailure _ _)
  | .halt => false

/-- The causes that no operation admits. -/
theorem Opcode.ne_of_admits
    {op : Opcode} {cause : Fault} (hadmits : op.admits cause) :
    (∀ other index, cause ≠ .missingOperand other index) ∧ cause ≠ .noFrame ∧
      (∀ id, cause ≠ .releasedScope id) ∧ ∀ limit, cause ≠ .callOverflow limit := by
  refine ⟨?_, ?_, ?_, ?_⟩
  · rintro other index rfl
    cases op <;> cases hadmits
  · rintro rfl
    cases op <;> cases hadmits
  · rintro id rfl
    cases op <;> cases hadmits
  · rintro limit rfl
    cases op <;> cases hadmits

/-- The stack had too few values or no room for one more. -/
def Fault.ofStack (cause : Fault) : Bool :=
  (cause matches .stackUnderflow | .stackOverflow _)

/-- The operation that applies an operator. -/
def Operator.opcode : Operator → Opcode
  | .add => .add
  | .sub => .sub
  | .mul => .mul
  | .div => .div

namespace Value

theorem ofString_error
    {bytes : Nat} {s : Unit → String} {cause : Fault}
    (h : (ofString bytes s : Except Fault (Value β)) = .error cause) :
    ∃ length limit, cause = .stringTooLong length limit := by
  simp only [ofString] at h
  split at h
  next =>
    cases h
    exact ⟨_, _, rfl⟩
  next => cases h

theorem arithmetic_error
    {op : Operator} {onInts : Int → Int → Int} {onFloats : Float → Float → Float}
    {a b : Value β} {cause : Fault}
    (h : arithmetic op onInts onFloats a b = .error cause) :
    (∃ left right, cause = .unsupported op left right) ∨ cause = .integerOverflow op := by
  simp only [arithmetic] at h
  split at h
  next =>
    cases h
    exact .inl ⟨_, _, rfl⟩
  next =>
    simp only [ofResult] at h
    split at h
    next => cases h
    next =>
      cases h
      exact .inr rfl
  next => cases h

theorem div_error
    {a b : Value β} {cause : Fault} (h : div a b = .error cause) :
    (∃ left right, cause = .unsupported .div left right) ∨ cause = .divisionByZero := by
  simp only [div] at h
  split at h
  next =>
    split at h
    next =>
      cases h
      exact .inr rfl
    next => cases h
  next =>
    cases h
    exact .inl ⟨_, _, rfl⟩

/-- An operator fails for the causes of its operation, and never because of the
stack that its operands came from. -/
theorem apply_error
    {op : Operator} {a b : Value β} {cause : Fault} (h : apply op a b = .error cause) :
    op.opcode.admits cause ∧ cause.ofStack = false := by
  cases op with
  | add =>
      simp only [apply, add] at h
      split at h
      next =>
        obtain ⟨_, _, rfl⟩ := ofString_error h
        exact ⟨rfl, rfl⟩
      next => obtain ⟨_, _, rfl⟩ | rfl := arithmetic_error h <;> exact ⟨rfl, rfl⟩
  | sub =>
      simp only [apply, sub] at h
      obtain ⟨_, _, rfl⟩ | rfl := arithmetic_error h <;> exact ⟨rfl, rfl⟩
  | mul =>
      simp only [apply, mul, repeatString] at h
      split at h
      next =>
        obtain ⟨_, _, rfl⟩ := ofString_error h
        exact ⟨rfl, rfl⟩
      next =>
        obtain ⟨_, _, rfl⟩ := ofString_error h
        exact ⟨rfl, rfl⟩
      next => obtain ⟨_, _, rfl⟩ | rfl := arithmetic_error h <;> exact ⟨rfl, rfl⟩
  | div => obtain ⟨_, _, rfl⟩ | rfl := div_error h <;> exact ⟨rfl, rfl⟩

end Value

/-- A call fails because of its number of arguments or because the function
says so. -/
theorem Native.admits_of_call_error [Host β]
    {f : Native β} {args : List (Value β)} {cause : Fault}
    (hcall : (f.call args).2 = .error cause) :
    Opcode.callFunc.admits cause := by
  simp only [call] at hcall
  split at hcall
  next =>
    obtain ⟨message, -, rfl⟩ := mapError_eq_error_iff.mp hcall
    rfl
  next =>
    cases hcall
    rfl

/-! ## Lookups that fail -/

namespace Arena

/-- A lookup fails because the name is bound nowhere on its way or because the
way leads through a released scope. -/
theorem find_error_cases
    {a : Arena β} {name : String} {fuel : Nat} {id : ScopeId} {cause : Fault}
    (hfind : a.find name fuel id = .error cause) :
    cause = .undefined name ∨ ∃ released, cause = .releasedScope released := by
  induction fuel generalizing id with
  | zero =>
      cases hfind
      exact .inl rfl
  | succ fuel ih =>
      simp only [find] at hfind
      split at hfind
      next =>
        cases hfind
        exact .inr ⟨id, rfl⟩
      next =>
        split at hfind
        next => cases hfind
        next =>
          cases hfind
          exact .inl rfl
        next => exact ih hfind

/-- A write fails on a released scope, where a lookup fails as well. -/
theorem get_of_set_error
    {a : Arena β} {id : ScopeId} {name : String} {v : Value β} {cause : Fault}
    (hset : a.set id name v = .error cause) :
    cause = .releasedScope id ∧ a.get id name = .error (.releasedScope id) := by
  rcases id with ⟨_ | slot⟩
  · cases hset
  · simp only [set] at hset
    split at hset
    next hnone =>
      cases hset
      have hdead : a.scope? ⟨slot + 1⟩ = none := hnone
      exact ⟨rfl, get_eq_error_of_scope?_eq_none hdead name⟩
    next => cases hset

end Arena

/-! ## Instructions that fail -/

namespace Frame

/-- Why the instruction `i`, which stands at `index`, can fail on a frame. -/
inductive Fails (f : Frame β) (index : Nat) (i : Instruction) (scopes : Arena β) :
    Fault → Prop where
  /-- For a cause of its operation. -/
  | admitted {cause : Fault} (hadmits : i.opcode.admits cause) : Fails f index i scopes cause
  /-- The instruction lacks the operand that its operation takes. -/
  | operand (htakes : 0 < i.opcode.operandCount) (hnone : i.operand? 0 = none) :
      Fails f index i scopes (.missingOperand i.opcode 0)
  /-- The code keeps no constant for the instruction. -/
  | constant (hop : i.opcode = .loadConst) (hnone : f.code.constant? index = none) :
      Fails f index i scopes (.missingOperand i.opcode 0)
  /-- Lookups from the frame's scope meet a released one. -/
  | released {id : ScopeId} (name : String)
      (hget : scopes.get f.scope name = .error (.releasedScope id)) :
      Fails f index i scopes (.releasedScope id)
  /-- The operand stack held more than it may. -/
  | overfull (hover : f.stack.limit < f.stack.items.length) :
      Fails f index i scopes (.stackOverflow f.stack.limit)

/-- The failure of an instruction: what is left of the operand stack, and why. -/
structure BreaksDown
    (f : Frame β) (index : Nat) (i : Instruction) (scopes : Arena β) (b : Breakdown β) :
    Prop where
  stack : b.stack.LeftOf f.stack
  fails : f.Fails index i scopes b.cause

section Parts

variable {f : Frame β} {index : Nat} {i : Instruction} {scopes : Arena β} {b : Breakdown β}

theorem Fails.of_admits
    {op : Opcode} {cause : Fault} (hop : i.opcode = op) (hadmits : op.admits cause) :
    f.Fails index i scopes cause :=
  .admitted (hop ▸ hadmits)

theorem fails_of_require_error
    {cause : Fault} (htakes : 0 < i.opcode.operandCount)
    (hrequire : i.require 0 = .error cause) :
    f.Fails index i scopes cause := by
  simp only [Instruction.require] at hrequire
  split at hrequire
  next => cases hrequire
  next hnone =>
    cases hrequire
    exact .operand htakes hnone

theorem fails_of_argumentCount_error
    {cause : Fault} (hop : i.opcode = .callFunc) (hcount : i.argumentCount = .error cause) :
    f.Fails index i scopes cause := by
  have htakes : 0 < i.opcode.operandCount := by
    rw [hop]
    decide
  simp only [Instruction.argumentCount, bind_eq_error_iff] at hcount
  rcases hcount with hrequire | ⟨text, -, hread⟩
  · exact fails_of_require_error htakes hrequire
  · split at hread
    next => cases hread
    next =>
      cases hread
      exact .of_admits hop rfl

theorem fails_of_target_error
    {cause : Fault} (htakes : 0 < i.opcode.operandCount)
    (hreads : ∀ text role, i.opcode.admits (.invalidOperand i.opcode text role))
    (htarget : i.target = .error cause) :
    f.Fails index i scopes cause := by
  simp only [Instruction.target, bind_eq_error_iff] at htarget
  rcases htarget with hrequire | ⟨text, -, hread⟩
  · exact fails_of_require_error htakes hrequire
  · simp only [readTarget] at hread
    split at hread
    next => cases hread
    next =>
      cases hread
      exact .admitted (hreads text .jumpTarget)

theorem jump_error
    {target : Int} {cause : Fault} (hjump : f.jump target = .error cause) :
    cause = .jumpOutside target f.code.length := by
  simp only [jump] at hjump
  split at hjump
  next => cases hjump
  next =>
    cases hjump
    rfl

/-- A stack from which a value has been taken has room for another one, unless
it held more than it may. -/
theorem fails_of_push_error
    {s : Stack β} {v : Value β} {cause : Fault} (hleft : s.LeftOf f.stack)
    (hshorter : s.items.length < f.stack.items.length) (hpush : s.push v = .error cause) :
    f.Fails index i scopes cause := by
  obtain ⟨hfull, rfl⟩ := Stack.push_eq_error_iff.mp hpush
  rw [hleft.limit] at hfull ⊢
  exact .overfull (by omega)

theorem breaksDown_binary
    (op : Operator) (hop : i.opcode = op.opcode) (hbinary : f.binary op scopes = .error b) :
    f.BreaksDown index i scopes b := by
  have hunderflow : i.opcode.admits .stackUnderflow := by
    rw [hop]
    cases op <;> rfl
  simp only [binary, bind_eq_error_iff, Stack.attempt_eq_error_iff, Stack.attempt_eq_ok_iff,
    pure_ne_error, and_false, exists_false, or_false] at hbinary
  obtain ⟨cause, hpop, rfl⟩ | ⟨⟨right, s₁⟩, hpop₁, hrest⟩ := hbinary
  · obtain rfl := Stack.eq_underflow_of_pop_error hpop
    exact ⟨Stack.leftOf_refl f.stack, .admitted hunderflow⟩
  have hleft₁ : s₁.LeftOf f.stack := Stack.leftOf_of_pop hpop₁
  obtain ⟨cause, hpop, rfl⟩ | ⟨⟨left, s₂⟩, hpop₂, hrest⟩ := hrest
  · obtain rfl := Stack.eq_underflow_of_pop_error hpop
    exact ⟨hleft₁, .admitted hunderflow⟩
  have hleft₂ : s₂.LeftOf f.stack := (Stack.leftOf_of_pop hpop₂).trans hleft₁
  obtain ⟨cause, happly, rfl⟩ | ⟨v, -, cause, hpush, rfl⟩ := hrest
  · exact ⟨hleft₂, .of_admits hop (Value.apply_error happly).1⟩
  · have hshorter : s₂.items.length < f.stack.items.length := by
      rw [(Stack.pop_eq_ok_iff.mp hpop₁).1, (Stack.pop_eq_ok_iff.mp hpop₂).1]
      simp only [List.length_cons]
      omega
    exact ⟨hleft₂, fails_of_push_error hleft₂ hshorter hpush⟩

theorem breaksDown_branch
    {wanted : Bool} (hop : i.opcode = .jumpIfTrue ∨ i.opcode = .jumpIfFalse)
    (hbranch : f.branch i wanted scopes = .error b) :
    f.BreaksDown index i scopes b := by
  have htakes : 0 < i.opcode.operandCount := by
    rcases hop with hop | hop <;> rw [hop] <;> decide
  obtain ⟨hunderflow, hreads, houtside⟩ :
      i.opcode.admits .stackUnderflow ∧
        (∀ text role, i.opcode.admits (.invalidOperand i.opcode text role)) ∧
        ∀ target length, i.opcode.admits (.jumpOutside target length) := by
    rcases hop with hop | hop <;> rw [hop] <;> exact ⟨rfl, fun _ _ => rfl, fun _ _ => rfl⟩
  simp only [branch, bind_eq_error_iff, Stack.attempt_eq_error_iff, Stack.attempt_eq_ok_iff,
    pure_ne_error, and_false, exists_false, or_false] at hbranch
  obtain ⟨cause, hpop, rfl⟩ | ⟨⟨condition, s⟩, hpop, hrest⟩ := hbranch
  · obtain rfl := Stack.eq_underflow_of_pop_error hpop
    exact ⟨Stack.leftOf_refl f.stack, .admitted hunderflow⟩
  have hleft : s.LeftOf f.stack := Stack.leftOf_of_pop hpop
  obtain ⟨cause, htarget, rfl⟩ | ⟨target, -, cause, hjump, rfl⟩ := hrest
  · exact ⟨hleft, fails_of_target_error htakes hreads htarget⟩
  · simp only [jumpIf] at hjump
    split at hjump
    next =>
      obtain rfl := jump_error hjump
      exact ⟨hleft, .admitted (houtside _ _)⟩
    next => cases hjump

theorem breaksDown_callNative [Host β]
    (hop : i.opcode = .callFunc) (hcall : f.callNative i scopes = .error b) :
    f.BreaksDown index i scopes b := by
  simp only [callNative, bind_eq_error_iff, Stack.attempt_eq_error_iff,
    Stack.attempt_eq_ok_iff] at hcall
  obtain ⟨cause, hcount, rfl⟩ | ⟨count, -, hrest⟩ := hcall
  · exact ⟨Stack.leftOf_refl f.stack, fails_of_argumentCount_error hop hcount⟩
  obtain ⟨cause, hpop, rfl⟩ | ⟨⟨args, s₁⟩, hpop₁, hrest⟩ := hrest
  · obtain rfl := Stack.eq_underflow_of_popMany_error hpop
    exact ⟨Stack.leftOf_refl f.stack, .of_admits hop rfl⟩
  have hleft₁ : s₁.LeftOf f.stack := Stack.leftOf_of_popMany hpop₁
  obtain ⟨cause, hpop, rfl⟩ | ⟨⟨callee, s₂⟩, hpop₂, hrest⟩ := hrest
  · obtain rfl := Stack.eq_underflow_of_pop_error hpop
    exact ⟨hleft₁, .of_admits hop rfl⟩
  have hleft₂ : s₂.LeftOf f.stack := (Stack.leftOf_of_pop hpop₂).trans hleft₁
  cases callee with
  | native function =>
      simp only [bind_eq_error_iff, mapError_eq_error_iff, pure_ne_error, and_false,
        exists_false, or_false] at hrest
      obtain ⟨cause, hanswer, rfl⟩ | ⟨v, -, cause, hpush, rfl⟩ := hrest
      · exact ⟨hleft₂, .of_admits hop (Native.admits_of_call_error hanswer)⟩
      · have hshorter : s₂.items.length < f.stack.items.length := by
          have hle : s₁.items.length ≤ f.stack.items.length := hleft₁.items.length_le
          rw [(Stack.pop_eq_ok_iff.mp hpop₂).1, List.length_cons] at hle
          exact hle
        exact ⟨hleft₂, fails_of_push_error hleft₂ hshorter hpush⟩
  | int v | float v | str v =>
      obtain ⟨cause, hcause, rfl⟩ := Stack.attempt_eq_error_iff.mp hrest
      cases hcause
      exact ⟨hleft₂, .of_admits hop rfl⟩

/-- Whatever the operation, an instruction that fails leaves a part of the
operand stack, and the cause is one of its operation or tells what is wrong with
the frame. -/
theorem breaksDown_perform [Host β]
    (hperform : f.perform index i scopes = .error b) :
    f.BreaksDown index i scopes b := by
  unfold perform at hperform
  cases hop : i.opcode <;>
    simp only [hop, bind_eq_error_iff, Stack.attempt_eq_error_iff, Stack.attempt_eq_ok_iff,
      pure_ne_error, and_false, exists_false, or_false] at hperform
  case loadConst =>
    obtain ⟨cause, hconstant, rfl⟩ | ⟨v, -, cause, hpush, rfl⟩ := hperform
    · simp only [constant] at hconstant
      split at hconstant
      next => cases hconstant
      next hnone =>
        cases hconstant
        exact ⟨Stack.leftOf_refl f.stack, .constant hop hnone⟩
    · obtain ⟨-, rfl⟩ := Stack.push_eq_error_iff.mp hpush
      exact ⟨Stack.leftOf_refl f.stack, .of_admits hop rfl⟩
  case loadVar =>
    have htakes : 0 < i.opcode.operandCount := by rw [hop]; decide
    obtain ⟨cause, hrequire, rfl⟩ | ⟨name, -, hrest⟩ := hperform
    · exact ⟨Stack.leftOf_refl f.stack, fails_of_require_error htakes hrequire⟩
    obtain ⟨cause, hget, rfl⟩ | ⟨v, -, cause, hpush, rfl⟩ := hrest
    · refine ⟨Stack.leftOf_refl f.stack, ?_⟩
      obtain rfl | ⟨id, rfl⟩ := Arena.find_error_cases hget
      · exact .of_admits hop rfl
      · exact .released name hget
    · obtain ⟨-, rfl⟩ := Stack.push_eq_error_iff.mp hpush
      exact ⟨Stack.leftOf_refl f.stack, .of_admits hop rfl⟩
  case storeVar =>
    have htakes : 0 < i.opcode.operandCount := by rw [hop]; decide
    obtain ⟨cause, hrequire, rfl⟩ | ⟨name, -, hrest⟩ := hperform
    · exact ⟨Stack.leftOf_refl f.stack, fails_of_require_error htakes hrequire⟩
    obtain ⟨cause, hpop, rfl⟩ | ⟨⟨v, s⟩, hpop, cause, hset, rfl⟩ := hrest
    · obtain rfl := Stack.eq_underflow_of_pop_error hpop
      exact ⟨Stack.leftOf_refl f.stack, .of_admits hop rfl⟩
    · obtain ⟨rfl, hget⟩ := Arena.get_of_set_error hset
      exact ⟨Stack.leftOf_of_pop hpop, .released name hget⟩
  case add => exact breaksDown_binary .add hop hperform
  case sub => exact breaksDown_binary .sub hop hperform
  case mul => exact breaksDown_binary .mul hop hperform
  case div => exact breaksDown_binary .div hop hperform
  case popTop | returnVal =>
    obtain ⟨cause, hpop, rfl⟩ := hperform
    obtain rfl := Stack.eq_underflow_of_pop_error hpop
    exact ⟨Stack.leftOf_refl f.stack, .of_admits hop rfl⟩
  case dupTop =>
    obtain ⟨cause, hdup, rfl⟩ := hperform
    refine ⟨Stack.leftOf_refl f.stack, ?_⟩
    obtain rfl | rfl := Stack.dup_error_cases hdup
    · exact .of_admits hop rfl
    · exact .of_admits hop rfl
  case jump =>
    have htakes : 0 < i.opcode.operandCount := by rw [hop]; decide
    obtain ⟨cause, htarget, rfl⟩ | ⟨target, -, cause, hjump, rfl⟩ := hperform
    · refine ⟨Stack.leftOf_refl f.stack, fails_of_target_error htakes ?_ htarget⟩
      intro text role
      rw [hop]
      rfl
    · obtain rfl := jump_error hjump
      exact ⟨Stack.leftOf_refl f.stack, .of_admits hop rfl⟩
  case jumpIfTrue => exact breaksDown_branch (.inl hop) hperform
  case jumpIfFalse => exact breaksDown_branch (.inr hop) hperform
  case callFunc => exact breaksDown_callNative hop hperform

/-- Where the frame stands does not matter for how its instruction fails. -/
theorem Fails.of_moved
    {cause : Fault} (hfails : ({ f with ip := f.ip + 1 } : Frame β).Fails index i scopes cause) :
    f.Fails index i scopes cause := by
  cases hfails with
  | admitted hadmits => exact .admitted hadmits
  | operand htakes hnone => exact .operand htakes hnone
  | constant hop hnone => exact .constant hop hnone
  | released name hget => exact .released name hget
  | overfull hover => exact .overfull hover

/-- No instruction fails for want of a frame or of room on the call stack. -/
theorem Fails.ne_noFrame_callOverflow
    {cause : Fault} (hfails : f.Fails index i scopes cause) :
    cause ≠ .noFrame ∧ ∀ limit, cause ≠ .callOverflow limit := by
  cases hfails with
  | admitted hadmits =>
      obtain ⟨-, hnoFrame, -, hoverflow⟩ := Opcode.ne_of_admits hadmits
      exact ⟨hnoFrame, hoverflow⟩
  | operand _ _ => exact ⟨nofun, nofun⟩
  | constant _ _ => exact ⟨nofun, nofun⟩
  | released _ _ => exact ⟨nofun, nofun⟩
  | overfull _ => exact ⟨nofun, nofun⟩

/-- An instruction fails on a released scope only where a lookup from the
frame's own scope does. -/
theorem Fails.get_of_releasedScope
    {id : ScopeId} (hfails : f.Fails index i scopes (.releasedScope id)) :
    ∃ name, scopes.get f.scope name = .error (.releasedScope id) := by
  cases hfails with
  | admitted hadmits =>
      obtain ⟨-, -, hreleased, -⟩ := Opcode.ne_of_admits hadmits
      exact absurd rfl (hreleased id)
  | released name hget => exact ⟨name, hget⟩

theorem fails_of_move_breakDown [Host β]
    {opcode : Opcode} {f' : Frame β} {cause : Fault}
    (hmove : f.move scopes = .breakDown opcode f' cause) :
    ∃ i, f.code.instruction? f.ip = some i ∧ opcode = i.opcode ∧
      f'.stack.LeftOf f.stack ∧ f.Fails f.ip i scopes cause := by
  unfold move at hmove
  cases hi : f.code.instruction? f.ip with
  | none => simp [hi] at hmove
  | some i =>
      simp only [hi] at hmove
      split at hmove
      next => cases hmove
      next => cases hmove
      next => cases hmove
      next b hperform =>
        cases hmove
        obtain ⟨hleft, hfails⟩ := breaksDown_perform hperform
        exact ⟨i, rfl, rfl, hleft, hfails.of_moved⟩

end Parts

end Frame

/-! ## Steps that fail -/

namespace Machine

theorem exists_frames_of_step_error [Host β]
    {m : Machine β} {e : RunError} (herror : m.step.error = some e) :
    ∃ f below, m.calls.frames = f :: below := by
  cases hframes : m.calls.frames with
  | nil =>
      rw [(step_of_nil hframes).2] at herror
      cases herror
  | cons f below => exact ⟨f, below, rfl⟩

/-- A step fails because the instruction of the top frame does, or because the
caller has no room for the value that the frame hands back. -/
theorem step_error_cases [Host β]
    {m : Machine β} {f : Frame β} {below : List (Frame β)}
    (hframes : m.calls.frames = f :: below) {e : RunError} (herror : m.step.error = some e) :
    (∃ opcode f' cause, f.move m.scopes = .breakDown opcode f' cause ∧
        e = .instruction f.ip opcode (below.length + 1) cause ∧
        m.step.machine = m.settle (f' :: below)) ∨
      ∃ v caller rest, f.move m.scopes = .handBack v ∧ below = caller :: rest ∧
        caller.stack.limit ≤ caller.stack.items.length ∧
        e = .instruction f.ip .returnVal (below.length + 1)
          (.stackOverflow caller.stack.limit) ∧
        m.step.machine = { m with scopes := m.scopes.release f.scope }.settle below := by
  obtain ⟨hmachine, herror'⟩ := step_eq_carryOut hframes
  rw [herror'] at herror
  rw [hmachine]
  cases hmove : f.move m.scopes with
  | goOn f' scopes' =>
      rw [hmove] at herror
      cases herror
  | stop =>
      rw [hmove] at herror
      cases herror
  | handBack v =>
      rw [hmove] at herror
      cases below with
      | nil => cases herror
      | cons caller rest =>
          by_cases hroom : caller.stack.items.length < caller.stack.limit
          · rw [carryOut_handBack_of_lt m f rest v hroom] at herror
            cases herror
          · have hfull : caller.stack.limit ≤ caller.stack.items.length :=
              Nat.le_of_not_lt hroom
            rw [carryOut_handBack_of_le m f rest v hfull] at herror ⊢
            cases herror
            exact .inr ⟨v, caller, rest, rfl, rfl, hfull, rfl, rfl⟩
  | breakDown opcode f' cause =>
      rw [hmove] at herror
      cases herror
      exact .inl ⟨opcode, f', cause, rfl, rfl, rfl⟩

/-- A step fails in the instruction at which the top frame stands: it fails on
its frame, or it is a return to a caller without room. -/
theorem fails_of_step_error [Host β]
    {m : Machine β} {f : Frame β} {below : List (Frame β)}
    (hframes : m.calls.frames = f :: below) {e : RunError} (herror : m.step.error = some e) :
    ∃ i cause, f.code.instruction? f.ip = some i ∧
      e = .instruction f.ip i.opcode (below.length + 1) cause ∧
      (f.Fails f.ip i m.scopes cause ∨
        ∃ caller rest, below = caller :: rest ∧ i.opcode = .returnVal ∧
          cause = .stackOverflow caller.stack.limit ∧
          caller.stack.limit ≤ caller.stack.items.length) := by
  rcases step_error_cases hframes herror with
    ⟨opcode, f', cause, hmove, he, -⟩ | ⟨v, caller, rest, hmove, hbelow, hfull, he, -⟩
  · obtain ⟨i, hi, rfl, -, hfails⟩ := Frame.fails_of_move_breakDown hmove
    exact ⟨i, cause, hi, he, .inl hfails⟩
  · have hallows := f.allows_move m.scopes
    rw [hmove] at hallows
    obtain ⟨⟨i, hi, hop⟩, -⟩ := hallows
    refine ⟨i, _, hi, ?_, .inr ⟨caller, rest, hbelow, hop, rfl, hfull⟩⟩
    rw [he, hop]

/-- No step fails for want of a frame or of room on the call stack. -/
theorem cause_ne_noFrame_of_step_error [Host β]
    {m : Machine β} {e : RunError} (herror : m.step.error = some e) :
    e.cause ≠ .noFrame ∧ ∀ limit, e.cause ≠ .callOverflow limit := by
  obtain ⟨f, below, hframes⟩ := exists_frames_of_step_error herror
  obtain ⟨i, cause, -, rfl, hfails | ⟨caller, rest, -, -, rfl, -⟩⟩ :=
    fails_of_step_error hframes herror
  · exact hfails.ne_noFrame_callOverflow
  · exact ⟨nofun, nofun⟩

end Machine
end Stackline
