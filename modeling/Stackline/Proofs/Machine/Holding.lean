import Stackline.Proofs.Machine.Run

/-!
# What a machine holds

Values come into a machine as constants of its code, as bindings of its scopes and
on the operand stacks of its frames.  All else that a program does with them is to
copy them, to apply an operator and to call a function.  So a property of values
that operators and functions keep is a property of every value that a run ever
meets, if it is one of the values that the run starts with.
-/

namespace Stackline

variable {β : Type} {P : Value β → Prop}

/-- Operators and functions make values with the property of values with the
property. -/
structure Value.Closed [Host β] (P : Value β → Prop) : Prop where
  apply : ∀ {op : Operator} {a b v : Value β}, P a → P b → Value.apply op a b = .ok v → P v
  call : ∀ {f : Native β} {args : List (Value β)} {v : Value β},
    P (.native f) → (∀ a ∈ args, P a) → (f.call args).2 = .ok v → P v

/-! ## Operand stacks -/

namespace Stack

/-- Every value on the stack has the property. -/
def HoldsOnly (P : Value β → Prop) (s : Stack β) : Prop :=
  ∀ v ∈ s.items, P v

section Operations

variable {s rest : Stack β} {v : Value β}

theorem LeftOf.holdsOnly
    (hleft : rest.LeftOf s) (hs : s.HoldsOnly P) :
    rest.HoldsOnly P := by
  intro v hv
  exact hs v (hleft.items.subset hv)

theorem HoldsOnly.pop
    (hs : s.HoldsOnly P) (hpop : s.pop = .ok (v, rest)) :
    P v ∧ rest.HoldsOnly P := by
  refine ⟨hs v (List.mem_of_head? (head?_of_pop hpop)), ?_⟩
  exact (leftOf_of_pop hpop).holdsOnly hs

theorem HoldsOnly.push
    (hs : s.HoldsOnly P) (hv : P v) (hpush : s.push v = .ok rest) :
    rest.HoldsOnly P := by
  simp only [Stack.push] at hpush
  split at hpush
  next =>
    cases hpush
    exact List.forall_mem_cons.mpr ⟨hv, hs⟩
  next => cases hpush

theorem HoldsOnly.dup
    (hs : s.HoldsOnly P) (hdup : s.dup = .ok rest) :
    rest.HoldsOnly P := by
  simp only [Stack.dup, bind_eq_ok_iff] at hdup
  obtain ⟨v, hpeek, hpush⟩ := hdup
  have hv : P v := by
    simp only [peek] at hpeek
    split at hpeek
    next => cases hpeek
    next hitems =>
      cases hpeek
      exact hs v (by rw [hitems]; exact List.mem_cons_self)
  exact hs.push hv hpush

theorem HoldsOnly.popMany
    {n : Nat} {args : List (Value β)} (hs : s.HoldsOnly P)
    (hpop : s.popMany n = .ok (args, rest)) :
    (∀ v ∈ args, P v) ∧ rest.HoldsOnly P := by
  refine ⟨?_, (leftOf_of_popMany hpop).holdsOnly hs⟩
  simp only [Stack.popMany] at hpop
  split at hpop
  next =>
    cases hpop
    intro v hv
    exact hs v (List.mem_of_mem_take hv)
  next => cases hpop

end Operations

end Stack

/-! ## Scopes -/

namespace Bindings

/-- Every value that is bound has the property. -/
def HoldsOnly (P : Value β → Prop) (bs : Bindings β) : Prop :=
  ∀ b ∈ bs, P b.2

theorem HoldsOnly.get?
    {bs : Bindings β} {name : String} {v : Value β} (hbs : bs.HoldsOnly P)
    (hget : bs.get? name = some v) :
    P v := by
  induction bs with
  | nil => cases hget
  | cons b rest ih =>
      obtain ⟨hb, hrest⟩ := List.forall_mem_cons.mp hbs
      simp only [Bindings.get?] at hget
      split at hget
      next =>
        cases hget
        exact hb
      next => exact ih hrest hget

theorem HoldsOnly.set
    {bs : Bindings β} (hbs : bs.HoldsOnly P) (name : String) {v : Value β} (hv : P v) :
    (bs.set name v).HoldsOnly P := by
  induction bs with
  | nil => exact List.forall_mem_singleton.mpr hv
  | cons b rest ih =>
      obtain ⟨hb, hrest⟩ := List.forall_mem_cons.mp hbs
      simp only [Bindings.set]
      split
      next => exact List.forall_mem_cons.mpr ⟨hv, hrest⟩
      next => exact List.forall_mem_cons.mpr ⟨hb, ih hrest⟩

end Bindings

namespace Arena

/-- Every value that is bound in a scope has the property. -/
def HoldsOnly (P : Value β → Prop) (a : Arena β) : Prop :=
  ∀ id scope, a.scope? id = some scope → scope.bindings.HoldsOnly P

section Operations

variable {a b : Arena β}

theorem HoldsOnly.find
    (ha : a.HoldsOnly P) {name : String} {fuel : Nat} {id : ScopeId} {v : Value β}
    (hfind : a.find name fuel id = .ok v) :
    P v := by
  induction fuel generalizing id with
  | zero => cases hfind
  | succ fuel ih =>
      simp only [Arena.find] at hfind
      split at hfind
      next => cases hfind
      next scope hscope =>
        split at hfind
        next hbound =>
          cases hfind
          exact (ha id scope hscope).get? hbound
        next => cases hfind
        next => exact ih hfind

theorem HoldsOnly.set
    (ha : a.HoldsOnly P) {id : ScopeId} {name : String} {v : Value β} (hv : P v)
    (hset : a.set id name v = .ok b) :
    b.HoldsOnly P := by
  intro j scope hscope
  by_cases hj : j = id
  · subst j
    obtain ⟨old, hold, hnew⟩ := exists_scope?_of_set hset
    cases hnew.symm.trans hscope
    exact (ha id old hold).set name hv
  · rw [scope?_set_of_ne hset hj] at hscope
    exact ha j scope hscope

theorem HoldsOnly.release
    (ha : a.HoldsOnly P) (id : ScopeId) :
    (a.release id).HoldsOnly P := by
  intro j scope hscope
  by_cases hj : j = id
  · subst j
    by_cases hglobal : id = .global
    · subst id
      exact ha .global scope hscope
    · rw [a.scope?_release_self hglobal] at hscope
      cases hscope
  · rw [a.scope?_release_of_ne hj] at hscope
    exact ha j scope hscope

theorem HoldsOnly.releaseAll
    (ha : a.HoldsOnly P) (ids : List ScopeId) :
    (a.releaseAll ids).HoldsOnly P := by
  induction ids generalizing a with
  | nil => exact ha
  | cons id rest ih => exact ih (ha.release id)

end Operations

end Arena

/-! ## Frames -/

namespace Frame

/-- Every value on the frame's stack and every constant of its code has the property. -/
structure HoldsOnly (P : Value β → Prop) (f : Frame β) : Prop where
  stack : f.stack.HoldsOnly P
  constants : ∀ index v, f.code.constant? index = some v → P v

theorem HoldsOnly.withStack
    {f : Frame β} (hf : f.HoldsOnly P) {s : Stack β} (hs : s.HoldsOnly P) :
    ({ f with stack := s } : Frame β).HoldsOnly P :=
  ⟨hs, hf.constants⟩

theorem HoldsOnly.withIp
    {f : Frame β} (hf : f.HoldsOnly P) (ip : Nat) :
    ({ f with ip } : Frame β).HoldsOnly P :=
  ⟨hf.stack, hf.constants⟩

theorem HoldsOnly.push
    {f f' : Frame β} {v : Value β} (hf : f.HoldsOnly P) (hv : P v)
    (hpush : f.push v = .ok f') :
    f'.HoldsOnly P := by
  simp only [Frame.push, bind_eq_ok_iff, pure_eq_ok_iff] at hpush
  obtain ⟨s, hpush, rfl⟩ := hpush
  exact hf.withStack (hf.stack.push hv hpush)

end Frame

/-- What an instruction leaves has the property: the frame and the scopes, or the value
that is returned. -/
def Turn.HoldsOnly (P : Value β → Prop) : Turn β → Prop
  | .next f scopes _ => f.HoldsOnly P ∧ scopes.HoldsOnly P
  | .leave value => ∀ v, value = some v → P v

/-- What a frame makes of a step has the property. -/
def Move.HoldsOnly (P : Value β → Prop) : Move β → Prop
  | .goOn f scopes => f.HoldsOnly P ∧ scopes.HoldsOnly P
  | .stop => True
  | .handBack v => P v
  | .breakDown _ f _ => f.HoldsOnly P

namespace Frame

section Instructions

variable {f : Frame β} {scopes : Arena β} {turn : Turn β}

theorem HoldsOnly.constant
    {i : Instruction} {index : Nat} {v : Value β} (hf : f.HoldsOnly P)
    (hconstant : f.constant i index = .ok v) :
    P v := by
  simp only [Frame.constant] at hconstant
  split at hconstant
  next hconstant' =>
    cases hconstant
    exact hf.constants index v hconstant'
  next => cases hconstant

theorem HoldsOnly.branch
    (hf : f.HoldsOnly P) (hscopes : scopes.HoldsOnly P) {i : Instruction} {wanted : Bool}
    (hturn : f.branch i wanted scopes = .ok turn) :
    turn.HoldsOnly P := by
  simp only [Frame.branch, bind_eq_ok_iff, pure_eq_ok_iff, Stack.attempt_eq_ok_iff] at hturn
  obtain ⟨⟨condition, s⟩, hpop, target, -, f', hjump, rfl⟩ := hturn
  obtain ⟨ip, rfl⟩ := exists_ip_of_jumpIf hjump
  exact ⟨(hf.withStack (hf.stack.pop hpop).2).withIp ip, hscopes⟩

variable [Host β]

theorem HoldsOnly.binary
    (hclosed : Value.Closed P) (hf : f.HoldsOnly P) (hscopes : scopes.HoldsOnly P)
    {op : Operator} (hturn : f.binary op scopes = .ok turn) :
    turn.HoldsOnly P := by
  simp only [Frame.binary, bind_eq_ok_iff, pure_eq_ok_iff, Stack.attempt_eq_ok_iff] at hturn
  obtain ⟨⟨right, s₁⟩, hpop₁, ⟨left, s₂⟩, hpop₂, v, happly, s, hpush, rfl⟩ := hturn
  obtain ⟨hright, hs₁⟩ := hf.stack.pop hpop₁
  obtain ⟨hleft, hs₂⟩ := hs₁.pop hpop₂
  have hv : P v := hclosed.apply hleft hright happly
  exact ⟨hf.withStack (hs₂.push hv hpush), hscopes⟩

theorem HoldsOnly.callNative
    (hclosed : Value.Closed P) (hf : f.HoldsOnly P) (hscopes : scopes.HoldsOnly P)
    {i : Instruction} (hturn : f.callNative i scopes = .ok turn) :
    turn.HoldsOnly P := by
  simp only [Frame.callNative, bind_eq_ok_iff, Stack.attempt_eq_ok_iff] at hturn
  obtain ⟨count, -, ⟨args, s₁⟩, hmany, ⟨callee, s₂⟩, hpop, hturn⟩ := hturn
  obtain ⟨hargs, hs₁⟩ := hf.stack.popMany hmany
  obtain ⟨hcallee, hs₂⟩ := hs₁.pop hpop
  cases callee with
  | native function =>
      simp only [bind_eq_ok_iff, pure_eq_ok_iff, mapError_eq_ok_iff] at hturn
      obtain ⟨v, hcall, s, hpush, rfl⟩ := hturn
      have hgiven : ∀ a ∈ args.reverse, P a := by
        intro a ha
        exact hargs a (List.mem_reverse.mp ha)
      have hv : P v := hclosed.call hcallee hgiven hcall
      exact ⟨hf.withStack (hs₂.push hv hpush), hscopes⟩
  | int v | float v | str v => cases hturn

/-- An instruction puts no value anywhere that lacks the property. -/
theorem HoldsOnly.perform
    (hclosed : Value.Closed P) (hf : f.HoldsOnly P) (hscopes : scopes.HoldsOnly P)
    {index : Nat} {i : Instruction} (hturn : f.perform index i scopes = .ok turn) :
    turn.HoldsOnly P := by
  unfold Frame.perform at hturn
  cases hop : i.opcode <;>
    simp only [hop, bind_eq_ok_iff, pure_eq_ok_iff, Stack.attempt_eq_ok_iff] at hturn
  case loadConst =>
    obtain ⟨v, hconstant, s, hpush, rfl⟩ := hturn
    exact ⟨hf.withStack (hf.stack.push (hf.constant hconstant) hpush), hscopes⟩
  case loadVar =>
    obtain ⟨name, -, v, hget, s, hpush, rfl⟩ := hturn
    exact ⟨hf.withStack (hf.stack.push (hscopes.find hget) hpush), hscopes⟩
  case storeVar =>
    obtain ⟨name, -, ⟨v, s⟩, hpop, scopes', hset, rfl⟩ := hturn
    obtain ⟨hv, hs⟩ := hf.stack.pop hpop
    exact ⟨hf.withStack hs, hscopes.set hv hset⟩
  case add | sub | mul | div => exact hf.binary hclosed hscopes hturn
  case popTop =>
    obtain ⟨⟨_, s⟩, hpop, rfl⟩ := hturn
    exact ⟨hf.withStack (hf.stack.pop hpop).2, hscopes⟩
  case dupTop =>
    obtain ⟨s, hdup, rfl⟩ := hturn
    exact ⟨hf.withStack (hf.stack.dup hdup), hscopes⟩
  case jump =>
    obtain ⟨target, -, f', hjump, rfl⟩ := hturn
    obtain ⟨ip, rfl⟩ := exists_ip_of_jump hjump
    exact ⟨hf.withIp ip, hscopes⟩
  case jumpIfTrue | jumpIfFalse => exact hf.branch hscopes hturn
  case callFunc => exact hf.callNative hclosed hscopes hturn
  case returnVal =>
    obtain ⟨⟨v, s⟩, hpop, rfl⟩ := hturn
    rintro _ ⟨⟩
    exact (hf.stack.pop hpop).1
  case halt =>
    subst hturn
    exact nofun

theorem HoldsOnly.move
    (hclosed : Value.Closed P) (hf : f.HoldsOnly P) (hscopes : scopes.HoldsOnly P) :
    (f.move scopes).HoldsOnly P := by
  unfold Frame.move
  cases hi : f.code.instruction? f.ip with
  | none => trivial
  | some i =>
      have hmoved := hf.withIp (f.ip + 1)
      dsimp only
      split
      next hturn => exact hmoved.perform hclosed hscopes hturn
      next => trivial
      next hturn => exact hmoved.perform hclosed hscopes hturn _ rfl
      next b hfails =>
        -- What a failing instruction leaves on the stack was there before.
        exact hmoved.withStack ((breaksDown_perform hfails).stack.holdsOnly hf.stack)

end Instructions

end Frame

/-! ## Machines -/

namespace Machine

/-- Every value in the machine has the property: those of its frames and scopes and the
one that was returned. -/
structure HoldsOnly (P : Value β → Prop) (m : Machine β) : Prop where
  frames : ∀ f ∈ m.calls.frames, f.HoldsOnly P
  scopes : m.scopes.HoldsOnly P
  returned : ∀ v, m.returned = some v → P v

section Steps

variable {m : Machine β}

theorem HoldsOnly.settle
    (hm : m.HoldsOnly P) {frames : List (Frame β)} (hframes : ∀ f ∈ frames, f.HoldsOnly P) :
    (m.settle frames).HoldsOnly P :=
  ⟨hframes, hm.scopes, hm.returned⟩

theorem HoldsOnly.withScopes
    (hm : m.HoldsOnly P) {scopes : Arena β} (hscopes : scopes.HoldsOnly P) :
    ({ m with scopes } : Machine β).HoldsOnly P :=
  ⟨hm.frames, hscopes, hm.returned⟩

theorem HoldsOnly.forget
    (hm : m.HoldsOnly P) :
    ({ m with returned := none } : Machine β).HoldsOnly P :=
  ⟨hm.frames, hm.scopes, nofun⟩

theorem HoldsOnly.carryOut
    (hm : m.HoldsOnly P) {f : Frame β} {below : List (Frame β)}
    (hbelow : ∀ g ∈ below, g.HoldsOnly P) {move : Move β} (hmove : move.HoldsOnly P) :
    (m.carryOut f below move).1.HoldsOnly P := by
  have hreleased := hm.withScopes (hm.scopes.release f.scope)
  cases move with
  | goOn f' scopes =>
      exact (hm.withScopes hmove.2).settle (List.forall_mem_cons.mpr ⟨hmove.1, hbelow⟩)
  | stop => exact hreleased.settle hbelow
  | handBack v =>
      cases below with
      | nil =>
          refine ⟨hbelow, hreleased.scopes, ?_⟩
          rintro _ ⟨⟩
          exact hmove
      | cons caller rest =>
          by_cases hroom : caller.stack.items.length < caller.stack.limit
          · obtain ⟨hcaller, hrest⟩ := List.forall_mem_cons.mp hbelow
            rw [carryOut_handBack_of_lt m f rest v hroom]
            exact hreleased.settle
              (List.forall_mem_cons.mpr ⟨hcaller.push hmove (Frame.push_of_lt hroom v), hrest⟩)
          · rw [carryOut_handBack_of_le m f rest v (Nat.le_of_not_lt hroom)]
            exact hreleased.settle hbelow
  | breakDown opcode f' cause =>
      exact hm.settle (List.forall_mem_cons.mpr ⟨hmove, hbelow⟩)

variable [Host β]

/-- A step brings no value into the machine that lacks the property, also if it fails. -/
theorem HoldsOnly.step
    (hclosed : Value.Closed P) (hm : m.HoldsOnly P) :
    m.step.machine.HoldsOnly P := by
  cases hframes : m.calls.frames with
  | nil =>
      rw [(step_of_nil hframes).1]
      exact ⟨hm.frames, hm.scopes, hm.returned⟩
  | cons f below =>
      have hall := hm.frames
      rw [hframes] at hall
      obtain ⟨hf, hbelow⟩ := List.forall_mem_cons.mp hall
      rw [(step_eq_carryOut hframes).1]
      exact hm.carryOut hbelow (hf.move hclosed hm.scopes)

theorem HoldsOnly.runFrom
    (hclosed : Value.Closed P) (hm : m.HoldsOnly P) (fuel : Nat) (output : Output β) :
    (runFrom fuel m output).machine.HoldsOnly P := by
  refine runFrom_induction (P := HoldsOnly P) ?_ ?_ fuel hm output
  · intro m hm
    exact hm.step hclosed
  · intro m hm
    exact hm.forget

theorem HoldsOnly.of_mem_stages
    (hclosed : Value.Closed P) (hm : m.HoldsOnly P) {goesOn : Progress β → Bool} {k : Nat}
    {m₁ : Machine β} (hmem : m₁ ∈ m.stages goesOn k) :
    m₁.HoldsOnly P := by
  refine stages_induction (P := HoldsOnly P) ?_ hm hmem
  intro m hm _
  exact hm.step hclosed

/-- The value of a run has the property. -/
theorem HoldsOnly.value
    (hclosed : Value.Closed P) (hm : m.HoldsOnly P) {fuel : Nat} {output : Output β}
    {v : Value β} (hfinished : (Machine.runFrom fuel m output).ending = .finished (some v)) :
    P v := by
  induction fuel generalizing m output with
  | zero => cases hfinished
  | succ fuel ih =>
      have hstep := hm.step hclosed
      simp only [Machine.runFrom] at hfinished
      split at hfinished
      next => cases hfinished
      next =>
        split at hfinished
        next => exact ih hstep hfinished
        next =>
          have hreturned : m.step.machine.returned = some v := by
            injection hfinished
          exact hstep.returned v hreturned

end Steps

end Machine

end Stackline
