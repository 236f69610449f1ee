import Stackline.Machine.Execution
import Stackline.Proofs.Attempt
import Stackline.Proofs.Scope.Arena

/-!
# What one step can do

A step of the machine is a move of its top frame.  The move depends on the frame
and on the scopes alone; what the machine makes of it depends on the frames
below only where a value is handed back.  `Frame.move` says what the frame does,
`Machine.carryOut` what becomes of the machine, and the two together are a step.

Everything that is kept along a run is derived from this, so that no other proof
has to look into the instructions.
-/

namespace Stackline

variable {β : Type}

/-! ## Parts of an instruction -/

theorem Stack.attempt_eq_ok_iff
    {α : Type} {s : Stack β} {x : Except Fault α} {a : α} :
    s.attempt x = .ok a ↔ x = .ok a :=
  mapError_eq_ok_iff

theorem Stack.head?_of_pop
    {s s' : Stack β} {v : Value β} (hpop : s.pop = .ok (v, s')) :
    s.items.head? = some v := by
  simp only [pop] at hpop
  split at hpop
  next => cases hpop
  next hitems =>
    cases hpop
    rw [hitems, List.head?_cons]

namespace Frame

/-- A frame that goes on keeps its code and its scope, and of the scopes it has
written to its own at most. -/
structure Continues
    (f : Frame β) (scopes : Arena β) (f' : Frame β) (scopes' : Arena β) : Prop where
  code : f'.code = f.code
  scope : f'.scope = f.scope
  scopes : scopes' = scopes ∨ ∃ name v, scopes.set f.scope name v = .ok scopes'

/-- The instruction keeps the frame active. -/
def StaysActive (f : Frame β) (scopes : Arena β) (turn : Turn β) : Prop :=
  ∃ f' scopes' printed, turn = .next f' scopes' printed ∧ f.Continues scopes f' scopes'

theorem staysActive_proceed
    (f : Frame β) (stack : Stack β) (scopes : Arena β) :
    f.StaysActive scopes (f.proceed stack scopes) :=
  ⟨_, _, _, rfl, rfl, rfl, .inl rfl⟩

/-- A jump only moves the frame. -/
theorem exists_ip_of_jump
    {f f' : Frame β} {target : Int} (hjump : f.jump target = .ok f') :
    ∃ ip, f' = { f with ip } := by
  simp only [jump] at hjump
  split at hjump
  next =>
    cases hjump
    exact ⟨target.toNat, rfl⟩
  next => cases hjump

theorem exists_ip_of_jumpIf
    {wanted : Bool} {f f' : Frame β} {condition : Value β} {target : Int}
    (hjump : jumpIf wanted f condition target = .ok f') :
    ∃ ip, f' = { f with ip } := by
  simp only [jumpIf] at hjump
  split at hjump
  next => exact exists_ip_of_jump hjump
  next =>
    cases hjump
    exact ⟨f.ip, rfl⟩

theorem staysActive_binary
    {f : Frame β} {op : Operator} {scopes : Arena β} {turn : Turn β}
    (hturn : f.binary op scopes = .ok turn) :
    f.StaysActive scopes turn := by
  simp only [binary, bind_eq_ok_iff, pure_eq_ok_iff] at hturn
  obtain ⟨_, -, _, -, _, -, stack, -, rfl⟩ := hturn
  exact staysActive_proceed f stack scopes

theorem staysActive_branch
    {f : Frame β} {i : Instruction} {wanted : Bool} {scopes : Arena β} {turn : Turn β}
    (hturn : f.branch i wanted scopes = .ok turn) :
    f.StaysActive scopes turn := by
  simp only [branch, bind_eq_ok_iff, pure_eq_ok_iff, Stack.attempt_eq_ok_iff] at hturn
  obtain ⟨_, -, _, -, moved, hjump, rfl⟩ := hturn
  obtain ⟨ip, rfl⟩ := exists_ip_of_jumpIf hjump
  exact ⟨_, _, _, rfl, rfl, rfl, .inl rfl⟩

theorem staysActive_callNative [Host β]
    {f : Frame β} {i : Instruction} {scopes : Arena β} {turn : Turn β}
    (hturn : f.callNative i scopes = .ok turn) :
    f.StaysActive scopes turn := by
  simp only [callNative, bind_eq_ok_iff, Stack.attempt_eq_ok_iff] at hturn
  obtain ⟨_, -, _, -, ⟨callee, _⟩, -, hturn⟩ := hturn
  cases callee with
  | native function =>
      simp only [bind_eq_ok_iff, pure_eq_ok_iff] at hturn
      obtain ⟨_, -, stack, -, rfl⟩ := hturn
      exact ⟨_, _, _, rfl, rfl, rfl, .inl rfl⟩
  | int n => cases hturn
  | float x => cases hturn
  | str s => cases hturn

/-- An instruction that succeeds keeps its frame active, unless it is a halt or
a return of the top value. -/
theorem perform_cases [Host β]
    {f : Frame β} {index : Nat} {i : Instruction} {scopes : Arena β} {turn : Turn β}
    (hturn : f.perform index i scopes = .ok turn) :
    f.StaysActive scopes turn ∨
      (i.opcode = .halt ∧ turn = .leave none) ∨
      (i.opcode = .returnVal ∧
        ∃ v, f.stack.items.head? = some v ∧ turn = .leave (some v)) := by
  unfold perform at hturn
  cases hop : i.opcode <;>
    simp only [hop, bind_eq_ok_iff, pure_eq_ok_iff, Stack.attempt_eq_ok_iff] at hturn
  case loadConst =>
    obtain ⟨_, -, stack, -, rfl⟩ := hturn
    exact .inl (staysActive_proceed f stack scopes)
  case loadVar =>
    obtain ⟨_, -, _, -, stack, -, rfl⟩ := hturn
    exact .inl (staysActive_proceed f stack scopes)
  case popTop | dupTop =>
    obtain ⟨_, -, rfl⟩ := hturn
    exact .inl (staysActive_proceed f _ scopes)
  case storeVar =>
    obtain ⟨name, -, ⟨v, s⟩, -, b, hset, rfl⟩ := hturn
    exact .inl ⟨_, _, _, rfl, rfl, rfl, .inr ⟨name, v, hset⟩⟩
  case add | sub | mul | div => exact .inl (staysActive_binary hturn)
  case jump =>
    obtain ⟨_, -, moved, hjump, rfl⟩ := hturn
    obtain ⟨ip, rfl⟩ := exists_ip_of_jump hjump
    exact .inl ⟨_, _, _, rfl, rfl, rfl, .inl rfl⟩
  case jumpIfTrue | jumpIfFalse => exact .inl (staysActive_branch hturn)
  case callFunc => exact .inl (staysActive_callNative hturn)
  case returnVal =>
    obtain ⟨⟨v, _⟩, hpop, rfl⟩ := hturn
    exact .inr (.inr ⟨rfl, v, Stack.head?_of_pop hpop, rfl⟩)
  case halt => exact .inr (.inl ⟨rfl, hturn.symm⟩)

/-- A value goes onto the operand stack if there is room for it. -/
theorem push_of_lt
    {f : Frame β} (hroom : f.stack.items.length < f.stack.limit) (v : Value β) :
    f.push v = .ok { f with stack := { f.stack with items := v :: f.stack.items } } := by
  simp only [push, Stack.push, if_pos hroom]
  rfl

theorem push_of_le
    {f : Frame β} (hfull : f.stack.limit ≤ f.stack.items.length) (v : Value β) :
    f.push v = .error (.stackOverflow f.stack.limit) := by
  simp only [push, Stack.push, if_neg (Nat.not_lt_of_le hfull)]
  rfl

end Frame

/-! ## The move of the top frame -/

/-- What a frame does in one step, whoever called it. -/
inductive Move (β : Type) where
  /-- The frame goes on, with these scopes. -/
  | goOn (frame : Frame β) (scopes : Arena β)
  /-- The frame ends without a value. -/
  | stop
  /-- The frame ends and hands a value back. -/
  | handBack (value : Value β)
  /-- The instruction fails and leaves the frame like this. -/
  | breakDown (opcode : Opcode) (frame : Frame β) (cause : Fault)

namespace Frame

/-- The move that a frame makes on the scopes that it finds. -/
def move [Host β] (f : Frame β) (scopes : Arena β) : Move β :=
  match f.code.instruction? f.ip with
  | none => .stop
  | some i =>
    let moved := { f with ip := f.ip + 1 }
    match moved.perform f.ip i scopes with
    | .ok (.next f' scopes' _) => .goOn f' scopes'
    | .ok (.leave none) => .stop
    | .ok (.leave (some v)) => .handBack v
    | .error b => .breakDown i.opcode { moved with stack := b.stack } b.cause

/-- The frame stands at a halt or past its code. -/
def AtStop (f : Frame β) : Prop :=
  ∀ i, f.code.instruction? f.ip = some i → i.opcode = .halt

/-- The frame stands at a return. -/
def AtReturn (f : Frame β) : Prop :=
  ∃ i, f.code.instruction? f.ip = some i ∧ i.opcode = .returnVal

/-- What a move tells about the frame that makes it. -/
def Allows (f : Frame β) (scopes : Arena β) : Move β → Prop
  | .goOn f' scopes' => f.Continues scopes f' scopes'
  | .stop => f.AtStop
  | .handBack v => f.AtReturn ∧ f.stack.items.head? = some v
  | .breakDown opcode f' _ =>
    (∃ i, f.code.instruction? f.ip = some i ∧ opcode = i.opcode) ∧
      f'.code = f.code ∧ f'.scope = f.scope ∧ f'.ip = f.ip + 1

theorem allows_move [Host β]
    (f : Frame β) (scopes : Arena β) :
    f.Allows scopes (f.move scopes) := by
  unfold move
  cases hi : f.code.instruction? f.ip with
  | none => simp [Allows, AtStop, hi]
  | some i =>
      dsimp only
      split
      next f' scopes' printed hturn =>
        obtain ⟨_, _, _, heq, hkeeps⟩ | ⟨-, heq⟩ | ⟨-, _, -, heq⟩ := perform_cases hturn
        · cases heq
          exact ⟨hkeeps.code, hkeeps.scope, hkeeps.scopes⟩
        · cases heq
        · cases heq
      next hturn =>
        obtain ⟨_, _, _, heq, -⟩ | ⟨hop, -⟩ | ⟨-, _, -, heq⟩ := perform_cases hturn
        · cases heq
        · simp [Allows, AtStop, hi, hop]
        · cases heq
      next hturn =>
        obtain ⟨_, _, _, heq, -⟩ | ⟨-, heq⟩ | ⟨hop, _, htop, heq⟩ := perform_cases hturn
        · cases heq
        · cases heq
        · cases heq
          exact ⟨⟨i, hi, hop⟩, htop⟩
      next b hturn => exact ⟨⟨i, hi, rfl⟩, rfl, rfl, rfl⟩

end Frame

namespace Machine

/-- What the machine makes of the move of its top frame `f`: the machine after
the step and the error if it fails. -/
def carryOut (m : Machine β) (f : Frame β) (below : List (Frame β)) :
    Move β → Machine β × Option RunError
  | .goOn f' scopes => ({ m with scopes }.settle (f' :: below), none)
  | .stop => ({ m with scopes := m.scopes.release f.scope }.settle below, none)
  | .handBack v =>
    match m.leave f below (some v) with
    | .ok m' => (m', none)
    | .error (m', cause) =>
      (m', some (.instruction f.ip .returnVal (below.length + 1) cause))
  | .breakDown opcode f' cause =>
    (m.settle (f' :: below), some (.instruction f.ip opcode (below.length + 1) cause))

/-- A value is handed to a caller that has room for it. -/
theorem carryOut_handBack_of_lt
    (m : Machine β) (f : Frame β) {caller : Frame β} (rest : List (Frame β)) (v : Value β)
    (hroom : caller.stack.items.length < caller.stack.limit) :
    m.carryOut f (caller :: rest) (.handBack v) =
      ({ m with scopes := m.scopes.release f.scope }.settle
        ({ caller with
            stack := { caller.stack with items := v :: caller.stack.items } } :: rest),
        none) := by
  simp only [carryOut, leave, Frame.push_of_lt hroom]

/-- A caller without room makes the return fail when the frame has gone. -/
theorem carryOut_handBack_of_le
    (m : Machine β) (f : Frame β) {caller : Frame β} (rest : List (Frame β)) (v : Value β)
    (hfull : caller.stack.limit ≤ caller.stack.items.length) :
    m.carryOut f (caller :: rest) (.handBack v) =
      ({ m with scopes := m.scopes.release f.scope }.settle (caller :: rest),
        some (.instruction f.ip .returnVal ((caller :: rest).length + 1)
          (.stackOverflow caller.stack.limit))) := by
  simp only [carryOut, leave, Frame.push_of_le hfull]

/-- Room or not, handing a value back releases the scope of the frame and keeps
the frames below, but for the operand stack of the topmost. -/
theorem exists_settle_of_handBack
    (m : Machine β) (f : Frame β) (below : List (Frame β)) (v : Value β) :
    ∃ (m₀ : Machine β) (frames : List (Frame β)),
      (m.carryOut f below (.handBack v)).1 = m₀.settle frames ∧
      frames.map Frame.scope = below.map Frame.scope ∧
      m₀.scopes = m.scopes.release f.scope := by
  cases below with
  | nil =>
      exact ⟨{ m with scopes := m.scopes.release f.scope, returned := some v }, [],
        rfl, rfl, rfl⟩
  | cons caller rest =>
      by_cases hroom : caller.stack.items.length < caller.stack.limit
      · rw [carryOut_handBack_of_lt m f rest v hroom]
        exact ⟨_, _, rfl, rfl, rfl⟩
      · rw [carryOut_handBack_of_le m f rest v (Nat.le_of_not_lt hroom)]
        exact ⟨_, _, rfl, rfl, rfl⟩

/-- Without frames a step only finds that there is nothing to do. -/
theorem step_of_nil [Host β]
    {m : Machine β} (hframes : m.calls.frames = []) :
    m.step.machine = { m with status := .halted } ∧ m.step.error = none := by
  simp [step, hframes]

/-- A step carries out the move of the top frame. -/
theorem step_eq_carryOut [Host β]
    {m : Machine β} {f : Frame β} {below : List (Frame β)}
    (hframes : m.calls.frames = f :: below) :
    m.step.machine = (m.carryOut f below (f.move m.scopes)).1 ∧
      m.step.error = (m.carryOut f below (f.move m.scopes)).2 := by
  suffices hpair :
      (m.step.machine, m.step.error) = m.carryOut f below (f.move m.scopes) from
    ⟨congrArg Prod.fst hpair, congrArg Prod.snd hpair⟩
  simp only [step, hframes, Frame.move]
  cases hi : f.code.instruction? f.ip with
  | none => rfl
  | some i =>
      dsimp only
      rcases hturn : Frame.perform { f with ip := f.ip + 1 } f.ip i m.scopes with
        b | ⟨f', scopes', printed⟩ | _ | v
      · rfl
      · rfl
      · rfl
      · have hop : i.opcode = .returnVal := by
          obtain ⟨_, _, _, heq, -⟩ | ⟨-, heq⟩ | ⟨hop, -⟩ := Frame.perform_cases hturn
          · cases heq
          · cases heq
          · exact hop
        simp only [carryOut, hop]
        cases m.leave f below (some v) <;> rfl

/-- If the instruction goes on in its frame, so does the machine. -/
theorem step_of_perform_next [Host β]
    {m : Machine β} {f f' : Frame β} {below : List (Frame β)} {i : Instruction}
    {scopes' : Arena β} {printed : String}
    (hframes : m.calls.frames = f :: below) (hi : f.code.instruction? f.ip = some i)
    (hperform : ({ f with ip := f.ip + 1 } : Frame β).perform f.ip i m.scopes =
      .ok (.next f' scopes' printed)) :
    m.step.machine = { m with scopes := scopes' }.settle (f' :: below) ∧
      m.step.error = none := by
  have hmove : f.move m.scopes = .goOn f' scopes' := by simp only [Frame.move, hi, hperform]
  obtain ⟨hmachine, herror⟩ := step_eq_carryOut hframes
  rw [hmove] at hmachine herror
  exact ⟨hmachine, herror⟩

/-- If the instruction fails, the frame stays with what is left of its stack. -/
theorem step_of_perform_error [Host β]
    {m : Machine β} {f : Frame β} {below : List (Frame β)} {i : Instruction} {b : Breakdown β}
    (hframes : m.calls.frames = f :: below) (hi : f.code.instruction? f.ip = some i)
    (hperform : ({ f with ip := f.ip + 1 } : Frame β).perform f.ip i m.scopes = .error b) :
    m.step.machine = m.settle ({ f with ip := f.ip + 1, stack := b.stack } :: below) ∧
      m.step.error = some (.instruction f.ip i.opcode (below.length + 1) b.cause) := by
  have hmove : f.move m.scopes =
      .breakDown i.opcode { f with ip := f.ip + 1, stack := b.stack } b.cause := by
    simp only [Frame.move, hi, hperform]
  obtain ⟨hmachine, herror⟩ := step_eq_carryOut hframes
  rw [hmove] at hmachine herror
  exact ⟨hmachine, herror⟩

/-! ## What a step does to the scopes -/

/-- The scopes of the active frames, that of the top frame first. -/
def activeScopes (m : Machine β) : List ScopeId :=
  m.calls.frames.map Frame.scope

/-- The effect of a step on the scopes: the top frame stays and has written to
its own scope at most, or it has gone and its scope is released. -/
inductive ScopeEffect (m m' : Machine β) : Prop where
  | kept (hactive : m'.activeScopes = m.activeScopes) (hscopes : m'.scopes = m.scopes)
  | written (id : ScopeId) (name : String) (v : Value β)
      (hmem : id ∈ m.activeScopes) (hactive : m'.activeScopes = m.activeScopes)
      (hset : m.scopes.set id name v = .ok m'.scopes)
  | released (id : ScopeId) (hactive : m.activeScopes = id :: m'.activeScopes)
      (hscopes : m'.scopes = m.scopes.release id)

theorem scopeEffect_leave
    {m m' : Machine β} {f : Frame β} {below : List (Frame β)}
    (hframes : m.calls.frames = f :: below)
    (hbelow : m'.activeScopes = below.map Frame.scope)
    (hscopes : m'.scopes = m.scopes.release f.scope) :
    m.ScopeEffect m' := by
  refine .released f.scope ?_ hscopes
  rw [hbelow, activeScopes, hframes, List.map_cons]

/-- A step touches no scope but that of the top frame, also if it fails. -/
theorem scopeEffect_step [Host β]
    (m : Machine β) :
    m.ScopeEffect m.step.machine := by
  cases hframes : m.calls.frames with
  | nil =>
      rw [(step_of_nil hframes).1]
      exact .kept rfl rfl
  | cons f below =>
      have hallows := f.allows_move m.scopes
      rw [(step_eq_carryOut hframes).1]
      cases hmove : f.move m.scopes with
      | goOn f' scopes' =>
          rw [hmove] at hallows
          obtain ⟨-, hscope, hscopes⟩ := hallows
          have hactive : f'.scope :: below.map Frame.scope = m.activeScopes := by
            rw [hscope, activeScopes, hframes, List.map_cons]
          rcases hscopes with rfl | ⟨name, v, hset⟩
          · exact .kept hactive rfl
          · refine .written f.scope name v ?_ hactive hset
            simp [activeScopes, hframes]
      | stop => exact scopeEffect_leave hframes rfl rfl
      | handBack v =>
          obtain ⟨m₀, frames, hsettle, hactive, hscopes⟩ :=
            m.exists_settle_of_handBack f below v
          rw [hsettle]
          exact scopeEffect_leave hframes hactive hscopes
      | breakDown opcode f' cause =>
          rw [hmove] at hallows
          obtain ⟨-, -, hscope, -⟩ := hallows
          refine .kept ?_ rfl
          change f'.scope :: below.map Frame.scope = m.activeScopes
          rw [hscope, activeScopes, hframes, List.map_cons]

end Machine
end Stackline
