import Stackline.Proofs.Machine.Run
import Stackline.Proofs.Scope.History

/-!
# Machines stay within their bounds

A frame never stands beyond the end of its code, an operand stack never holds
more than it may, and neither does the call stack.  Nothing in the types says so:
the bounds are kept by every instruction, also by one that fails half-way, and by
everything else that a host can do to a machine.

So when a step fetches an instruction there is one to fetch, and an instruction
is only ever run in an active frame.
-/

namespace Stackline

variable {β : Type}

/-! ## Operand stacks -/

namespace Stack

/-- The stack holds no more than it may. -/
def Fits (s : Stack β) : Prop :=
  s.items.length ≤ s.limit

theorem LeftOf.fits
    {rest s : Stack β} (hleft : rest.LeftOf s) (hfits : s.Fits) :
    rest.Fits := by
  have hlength : rest.items.length ≤ s.items.length := hleft.items.length_le
  unfold Fits at hfits ⊢
  rw [hleft.limit]
  omega

theorem fits_of_push
    {s s' : Stack β} {v : Value β} (hpush : s.push v = .ok s') :
    s'.Fits := by
  simp only [push] at hpush
  split at hpush
  next hroom =>
    cases hpush
    exact hroom
  next => cases hpush

theorem fits_of_dup
    {s s' : Stack β} (hdup : s.dup = .ok s') :
    s'.Fits := by
  simp only [dup, bind_eq_ok_iff] at hdup
  obtain ⟨v, -, hpush⟩ := hdup
  exact fits_of_push hpush

/-- One use of an operand stack by a host. -/
inductive Action (β : Type) where
  | push (value : Value β)
  | pop
  | dup
  | popMany (n : Nat)
  | clear

/-- The stack after one action. -/
def act (s : Stack β) : Action β → Stack β
  | .push v => orStay (s.push v) s
  | .pop => orStay (do return (← s.pop).2) s
  | .dup => orStay s.dup s
  | .popMany n => orStay (do return (← s.popMany n).2) s
  | .clear => s.clear

theorem fits_act
    {s : Stack β} (hfits : s.Fits) (action : Action β) :
    (s.act action).Fits := by
  cases action with
  | push v => exact orStay_induction hfits fun _ hpush => fits_of_push hpush
  | pop =>
      apply orStay_induction hfits
      intro rest hpop
      simp only [bind_eq_ok_iff, pure_eq_ok_iff] at hpop
      obtain ⟨_, hpop, rfl⟩ := hpop
      exact (leftOf_of_pop hpop).fits hfits
  | dup => exact orStay_induction hfits fun _ hdup => fits_of_dup hdup
  | popMany n =>
      apply orStay_induction hfits
      intro rest hpop
      simp only [bind_eq_ok_iff, pure_eq_ok_iff] at hpop
      obtain ⟨_, hpop, rfl⟩ := hpop
      exact (leftOf_of_popMany hpop).fits hfits
  | clear => exact Nat.zero_le s.limit

end Stack

/-! ## Frames -/

namespace Frame

/-- The frame stands at an instruction or at the end of its code, and its operand
stack is within its limit. -/
structure WellFormed (f : Frame β) : Prop where
  ip : f.ip ≤ f.code.length
  stack : f.stack.Fits

theorem lt_length_of_instruction?
    {f : Frame β} {i : Instruction} (hi : f.code.instruction? f.ip = some i) :
    f.ip < f.code.length := by
  obtain ⟨hlt, -⟩ := Array.getElem?_eq_some_iff.mp hi
  exact hlt

theorem wellFormed_start
    (code : Code β) (scope : ScopeId) (limit : Nat) :
    (start code scope limit).WellFormed :=
  ⟨Nat.zero_le _, Nat.zero_le _⟩

theorem WellFormed.withStack
    {f : Frame β} (hf : f.WellFormed) {s : Stack β} (hs : s.Fits) :
    ({ f with stack := s } : Frame β).WellFormed :=
  ⟨hf.ip, hs⟩

theorem WellFormed.jump
    {f f' : Frame β} {target : Int} (hf : f.WellFormed) (hjump : f.jump target = .ok f') :
    f'.WellFormed := by
  simp only [Frame.jump] at hjump
  split at hjump
  next hinside =>
    cases hjump
    refine ⟨?_, hf.stack⟩
    show target.toNat ≤ f.code.length
    omega
  next => cases hjump

theorem WellFormed.jumpIf
    {wanted : Bool} {f f' : Frame β} {condition : Value β} {target : Int}
    (hf : f.WellFormed) (hjump : jumpIf wanted f condition target = .ok f') :
    f'.WellFormed := by
  simp only [Frame.jumpIf] at hjump
  split at hjump
  next => exact hf.jump hjump
  next =>
    cases hjump
    exact hf

theorem WellFormed.push
    {f f' : Frame β} {v : Value β} (hf : f.WellFormed) (hpush : f.push v = .ok f') :
    f'.WellFormed := by
  simp only [Frame.push, bind_eq_ok_iff, pure_eq_ok_iff] at hpush
  obtain ⟨s, hpush, rfl⟩ := hpush
  exact hf.withStack (Stack.fits_of_push hpush)

end Frame

/-- If the frame goes on, it is well-formed. -/
def Turn.WellFormed : Turn β → Prop
  | .next f _ _ => f.WellFormed
  | .leave _ => True

/-- If the frame goes on or fails, it is well-formed. -/
def Move.WellFormed : Move β → Prop
  | .goOn f _ => f.WellFormed
  | .breakDown _ f _ => f.WellFormed
  | .stop => True
  | .handBack _ => True

namespace Frame

section Instructions

variable {f : Frame β} {scopes : Arena β} {turn : Turn β}

theorem wellFormed_binary
    {op : Operator} (hf : f.WellFormed) (hturn : f.binary op scopes = .ok turn) :
    turn.WellFormed := by
  simp only [binary, bind_eq_ok_iff, pure_eq_ok_iff, Stack.attempt_eq_ok_iff] at hturn
  obtain ⟨_, -, _, -, _, -, stack, hpush, rfl⟩ := hturn
  exact hf.withStack (Stack.fits_of_push hpush)

theorem wellFormed_branch
    {i : Instruction} {wanted : Bool} (hf : f.WellFormed)
    (hturn : f.branch i wanted scopes = .ok turn) :
    turn.WellFormed := by
  simp only [branch, bind_eq_ok_iff, pure_eq_ok_iff, Stack.attempt_eq_ok_iff] at hturn
  obtain ⟨_, hpop, _, -, moved, hjump, rfl⟩ := hturn
  have hpopped := hf.withStack ((Stack.leftOf_of_pop hpop).fits hf.stack)
  exact hpopped.jumpIf hjump

theorem wellFormed_callNative [Host β]
    {i : Instruction} (hf : f.WellFormed) (hturn : f.callNative i scopes = .ok turn) :
    turn.WellFormed := by
  simp only [callNative, bind_eq_ok_iff, Stack.attempt_eq_ok_iff] at hturn
  obtain ⟨_, -, _, -, ⟨callee, _⟩, -, hturn⟩ := hturn
  cases callee with
  | native function =>
      simp only [bind_eq_ok_iff, pure_eq_ok_iff, mapError_eq_ok_iff] at hturn
      obtain ⟨_, -, stack, hpush, rfl⟩ := hturn
      exact hf.withStack (Stack.fits_of_push hpush)
  | int v | float v | str v => cases hturn

/-- An instruction that succeeds keeps its frame well-formed. -/
theorem wellFormed_perform [Host β]
    {index : Nat} {i : Instruction} (hf : f.WellFormed)
    (hturn : f.perform index i scopes = .ok turn) :
    turn.WellFormed := by
  unfold perform at hturn
  cases hop : i.opcode <;>
    simp only [hop, bind_eq_ok_iff, pure_eq_ok_iff, Stack.attempt_eq_ok_iff] at hturn
  case loadConst =>
    obtain ⟨_, -, stack, hpush, rfl⟩ := hturn
    exact hf.withStack (Stack.fits_of_push hpush)
  case loadVar =>
    obtain ⟨_, -, _, -, stack, hpush, rfl⟩ := hturn
    exact hf.withStack (Stack.fits_of_push hpush)
  case storeVar =>
    obtain ⟨_, -, _, hpop, _, -, rfl⟩ := hturn
    exact hf.withStack ((Stack.leftOf_of_pop hpop).fits hf.stack)
  case add | sub | mul | div => exact wellFormed_binary hf hturn
  case popTop =>
    obtain ⟨_, hpop, rfl⟩ := hturn
    exact hf.withStack ((Stack.leftOf_of_pop hpop).fits hf.stack)
  case dupTop =>
    obtain ⟨_, hdup, rfl⟩ := hturn
    exact hf.withStack (Stack.fits_of_dup hdup)
  case jump =>
    obtain ⟨_, -, moved, hjump, rfl⟩ := hturn
    exact hf.jump hjump
  case jumpIfTrue | jumpIfFalse => exact wellFormed_branch hf hturn
  case callFunc => exact wellFormed_callNative hf hturn
  case returnVal =>
    obtain ⟨_, -, rfl⟩ := hturn
    trivial
  case halt =>
    subst hturn
    trivial

/-- A frame stays well-formed in every move that it makes, also if the
instruction fails. -/
theorem wellFormed_move [Host β]
    (hf : f.WellFormed) (scopes : Arena β) :
    (f.move scopes).WellFormed := by
  unfold move
  cases hi : f.code.instruction? f.ip with
  | none => trivial
  | some i =>
      have hmoved : ({ f with ip := f.ip + 1 } : Frame β).WellFormed :=
        ⟨lt_length_of_instruction? hi, hf.stack⟩
      dsimp only
      split
      next hturn => exact wellFormed_perform hmoved hturn
      next => trivial
      next => trivial
      next b hfails =>
        -- What a failing instruction leaves on the stack was there before.
        exact hmoved.withStack ((breaksDown_perform hfails).stack.fits hf.stack)

end Instructions

/-- A frame either finds an instruction where it stands and can move past it, or
stands at the very end of its code. -/
theorem WellFormed.fetch_cases
    {f : Frame β} (hf : f.WellFormed) :
    (∃ i, f.code.instruction? f.ip = some i ∧
        f.advance = some (f.ip, { f with ip := f.ip + 1 })) ∨
      (f.ip = f.code.length ∧ f.code.instruction? f.ip = none ∧ f.advance = none) := by
  have hle : f.ip ≤ f.code.instructions.size := hf.ip
  by_cases hlt : f.ip < f.code.instructions.size
  · have hfinished : f.finished = false := decide_eq_false (Nat.not_le_of_lt hlt)
    refine .inl ⟨f.code.instructions[f.ip], Array.getElem?_eq_getElem hlt, ?_⟩
    simp [advance, hfinished]
  · have hend : f.ip = f.code.instructions.size := by omega
    have hfinished : f.finished = true := decide_eq_true (Nat.le_of_not_lt hlt)
    refine .inr ⟨hend, Array.getElem?_eq_none (Nat.le_of_not_lt hlt), ?_⟩
    simp [advance, hfinished]

/-- One use of a frame by a host. -/
inductive Action (β : Type) where
  | stack (action : Stack.Action β)
  | advance
  | jump (target : Int)
  | jumpIf (wanted : Bool) (condition : Value β) (target : Int)

/-- The frame after one action. -/
def act (f : Frame β) : Action β → Frame β
  | .stack action => { f with stack := f.stack.act action }
  | .advance => (f.advance.map Prod.snd).getD f
  | .jump target => orStay (f.jump target) f
  | .jumpIf wanted condition target => orStay (f.jumpIf wanted condition target) f

theorem wellFormed_act
    {f : Frame β} (hf : f.WellFormed) (action : Action β) :
    (f.act action).WellFormed := by
  cases action with
  | stack action => exact hf.withStack (Stack.fits_act hf.stack action)
  | advance =>
      rcases hf.fetch_cases with ⟨i, hi, hadvance⟩ | ⟨-, -, hadvance⟩
      · rw [act, hadvance]
        exact ⟨lt_length_of_instruction? hi, hf.stack⟩
      · rw [act, hadvance]
        exact hf
  | jump target => exact orStay_induction hf fun _ hjump => hf.jump hjump
  | jumpIf wanted condition target =>
      exact orStay_induction hf fun _ hjump => hf.jumpIf hjump

end Frame

/-! ## Call stacks -/

namespace CallStack

/-- All frames are well-formed, and no more than `bound` of them are or can be
active. -/
structure WellFormed (bound : Nat) (c : CallStack β) : Prop where
  frames : ∀ f ∈ c.frames, f.WellFormed
  limit : c.limit = bound
  depth : c.depth ≤ bound

variable {limit : Nat} {c c' : CallStack β}

theorem wellFormed_empty (limit : Nat) :
    (empty limit : CallStack β).WellFormed limit :=
  ⟨nofun, rfl, Nat.zero_le limit⟩

theorem WellFormed.push
    {f : Frame β} (hc : c.WellFormed limit) (hf : f.WellFormed) (hpush : c.push f = .ok c') :
    c'.WellFormed limit := by
  simp only [CallStack.push] at hpush
  split at hpush
  next hroom =>
    cases hpush
    rw [hc.limit] at hroom
    exact ⟨List.forall_mem_cons.mpr ⟨hf, hc.frames⟩, hc.limit, hroom⟩
  next => cases hpush

theorem WellFormed.pop
    {f : Frame β} (hc : c.WellFormed limit) (hpop : c.pop = some (f, c')) :
    c'.WellFormed limit := by
  rcases c with ⟨_, _ | ⟨top, below⟩⟩
  · cases hpop
  · cases hpop
    have hdepth : below.length + 1 ≤ limit := hc.depth
    exact ⟨(List.forall_mem_cons.mp hc.frames).2, hc.limit, Nat.le_of_succ_le hdepth⟩

theorem WellFormed.update
    {level : Nat} {change : Frame β → Except Fault (Frame β)} (hc : c.WellFormed limit)
    (hchange : ∀ f f', f.WellFormed → change f = .ok f' → f'.WellFormed)
    (hupdate : c.update level change = .ok c') :
    c'.WellFormed limit := by
  simp only [CallStack.update] at hupdate
  split at hupdate
  next => cases hupdate
  next f hf =>
    simp only [bind_eq_ok_iff, pure_eq_ok_iff] at hupdate
    obtain ⟨f', hf', rfl⟩ := hupdate
    have hmem : f ∈ c.frames := List.mem_of_getElem? hf
    refine ⟨?_, hc.limit, ?_⟩
    · intro g hg
      rcases List.mem_or_eq_of_mem_set hg with hg | rfl
      · exact hc.frames g hg
      · exact hchange f g (hc.frames f hmem) hf'
    · have hlength : (c.frames.set level f').length = c.frames.length := List.length_set
      rw [CallStack.depth, hlength]
      exact hc.depth

end CallStack

/-! ## Machines -/

namespace Machine

theorem depth_eq_length_activeScopes
    (m : Machine β) :
    m.calls.depth = m.activeScopes.length := by
  simp [activeScopes, CallStack.depth]

/-- A step activates no frame and ends at most one. -/
theorem step_depth [Host β]
    (m : Machine β) :
    m.step.machine.calls.depth ≤ m.calls.depth ∧
      m.calls.depth ≤ m.step.machine.calls.depth + 1 := by
  rw [depth_eq_length_activeScopes, depth_eq_length_activeScopes]
  cases m.scopeEffect_step with
  | kept hactive _ =>
      rw [hactive]
      omega
  | written _ _ _ _ hactive _ =>
      rw [hactive]
      omega
  | released id hactive _ =>
      rw [hactive, List.length_cons]
      omega

/-- The frames after a move are well-formed if those before it are. -/
theorem wellFormed_carryOut
    {m : Machine β} {f : Frame β} {below : List (Frame β)} {move : Move β}
    (hmove : move.WellFormed) (hbelow : ∀ g ∈ below, g.WellFormed) :
    ∀ g ∈ (m.carryOut f below move).1.calls.frames, g.WellFormed := by
  cases move with
  | goOn f' scopes => exact List.forall_mem_cons.mpr ⟨hmove, hbelow⟩
  | stop => exact hbelow
  | handBack v =>
      cases below with
      | nil => exact hbelow
      | cons caller rest =>
          obtain ⟨hcaller, hrest⟩ := List.forall_mem_cons.mp hbelow
          by_cases hroom : caller.stack.items.length < caller.stack.limit
          · rw [carryOut_handBack_of_lt m f rest v hroom]
            exact List.forall_mem_cons.mpr
              ⟨hcaller.push (Frame.push_of_lt hroom v), hrest⟩
          · rw [carryOut_handBack_of_le m f rest v (Nat.le_of_not_lt hroom)]
            exact hbelow
  | breakDown opcode f' cause => exact List.forall_mem_cons.mpr ⟨hmove, hbelow⟩

/-- A step keeps the frames well-formed, also if it fails. -/
theorem wellFormed_step [Host β]
    {limit : Nat} {m : Machine β} (hcalls : m.calls.WellFormed limit) :
    m.step.machine.calls.WellFormed limit := by
  have hlimit : m.step.machine.calls.limit = limit := by
    rw [m.step_keeps_setup.1, hcalls.limit]
  have hdepth : m.step.machine.calls.depth ≤ limit := Nat.le_trans m.step_depth.1 hcalls.depth
  refine ⟨?_, hlimit, hdepth⟩
  cases hframes : m.calls.frames with
  | nil =>
      rw [step_frames_of_nil hframes]
      exact nofun
  | cons f below =>
      have hall := hcalls.frames
      rw [hframes] at hall
      obtain ⟨hf, hbelow⟩ := List.forall_mem_cons.mp hall
      rw [(step_eq_carryOut hframes).1]
      exact wellFormed_carryOut (Frame.wellFormed_move hf m.scopes) hbelow

/-- One use of a machine by its host. -/
inductive Action (β : Type) where
  /-- Activates a new frame. -/
  | start (code : Code β) (scope : ScopeId) (limit : Nat)
  | pop
  | drain
  /-- Works on the frame that lies `level` frames below the top. -/
  | frame (level : Nat) (action : Frame.Action β)
  | scopes (action : Arena.Action β)
  | step

/-- The machine after one action.  One that fails leaves it as it was, but for a
step. -/
def act [Host β] (m : Machine β) : Action β → Machine β
  | .start code scope limit =>
    { m with calls := orStay (m.calls.push (.start code scope limit)) m.calls }
  | .pop => { m with calls := (m.calls.pop.map Prod.snd).getD m.calls }
  | .drain => { m with calls := m.calls.drain.2 }
  | .frame level action =>
    { m with calls := orStay (m.calls.update level fun f => .ok (f.act action)) m.calls }
  | .scopes action => { m with scopes := m.scopes.act action }
  | .step => m.step.machine

/-- The machine after a history, the first action first. -/
def actAll [Host β] (m : Machine β) (history : List (Action β)) : Machine β :=
  history.foldl act m

theorem wellFormed_act [Host β]
    {limit : Nat} {m : Machine β} (hcalls : m.calls.WellFormed limit) (action : Action β) :
    (m.act action).calls.WellFormed limit := by
  cases action with
  | start code scope size =>
      apply orStay_induction hcalls
      intro calls hpush
      exact hcalls.push (Frame.wellFormed_start code scope size) hpush
  | pop =>
      cases hpop : m.calls.pop with
      | none =>
          rw [act, hpop]
          exact hcalls
      | some popped =>
          rw [act, hpop]
          exact hcalls.pop hpop
  | drain => exact ⟨nofun, hcalls.limit, Nat.zero_le limit⟩
  | frame level action =>
      apply orStay_induction hcalls
      intro calls hupdate
      refine hcalls.update ?_ hupdate
      intro f f' hf hf'
      cases hf'
      exact Frame.wellFormed_act hf action
  | scopes action => exact hcalls
  | step => exact wellFormed_step hcalls

theorem wellFormed_actAll [Host β]
    {limit : Nat} {m : Machine β} (hcalls : m.calls.WellFormed limit)
    (history : List (Action β)) :
    (m.actAll history).calls.WellFormed limit := by
  induction history generalizing m with
  | nil => exact hcalls
  | cons action rest ih => exact ih (wellFormed_act hcalls action)

/-- Whatever a host does with a machine, its frames stand within their code, its
stacks are within their limits, every fetch finds an instruction unless the frame
is at its end, no step fails for want of a frame or of room for one, and a step
ends at most one frame and activates none. -/
theorem host_keeps_machine_in_bounds [Host β]
    (limit : Nat) (tracing : Bool) (history : List (Action β)) :
    let m := (idle limit tracing : Machine β).actAll history
    (∀ f ∈ m.calls.frames,
        f.ip ≤ f.code.length ∧ f.stack.items.length ≤ f.stack.limit) ∧
      m.calls.limit = limit ∧ m.calls.depth ≤ limit ∧
      (∀ f below, m.calls.frames = f :: below →
        (∃ i, f.code.instruction? f.ip = some i ∧
            f.advance = some (f.ip, { f with ip := f.ip + 1 })) ∨
          (f.ip = f.code.length ∧ f.advance = none ∧
            m.step.error = none ∧ m.step.machine.calls.frames = below)) ∧
      (∀ e, m.step.error = some e →
        e.cause ≠ .noFrame ∧ ∀ n, e.cause ≠ .callOverflow n) ∧
      m.step.machine.calls.depth ≤ m.calls.depth ∧
      m.calls.depth ≤ m.step.machine.calls.depth + 1 := by
  intro m
  have hcalls : m.calls.WellFormed limit :=
    wellFormed_actAll (CallStack.wellFormed_empty limit) history
  refine ⟨?_, hcalls.limit, hcalls.depth, ?_, ?_, m.step_depth⟩
  · intro f hf
    exact ⟨(hcalls.frames f hf).ip, (hcalls.frames f hf).stack⟩
  · intro f below hframes
    have hf : f.WellFormed := hcalls.frames f (hframes ▸ List.mem_cons_self)
    rcases hf.fetch_cases with hfetch | ⟨hend, hnone, hadvance⟩
    · exact .inl hfetch
    · have hmove : f.move m.scopes = .stop := by rw [Frame.move, hnone]
      obtain ⟨hmachine, herror⟩ := step_eq_carryOut hframes
      rw [hmove] at hmachine herror
      exact .inr ⟨hend, hadvance, herror, by rw [hmachine]; rfl⟩
  · intro e herror
    exact cause_ne_noFrame_of_step_error herror

end Machine
end Stackline
