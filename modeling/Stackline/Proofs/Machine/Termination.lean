import Mathlib.Algebra.Ring.Nat
import Stackline.Proofs.Machine.Bounds
import Stackline.Proofs.Program.Code
import Stackline.Proofs.Scope.Lineage
import Stackline.Value.Standard

/-!
# Programs without backward jumps end

A frame that goes on without a jump moves to the next instruction, and one that
takes a jump moves to its target.  If all targets lie ahead, every step brings the
frame closer to the end of its code.  `Machine.remaining` counts how far all frames
together have still to go, with one more step for each of them to end.  Every step
after which a run goes on makes it smaller, also one that ends a frame and resumes
its caller.

Nothing is said about jumps that fail: an operand that is no integer, or an index at
which there is no instruction, ends the run.
-/

namespace Stackline

variable {β : Type}

/-- Every jump to an instruction of the code goes to one that comes later. -/
def Code.Forward (c : Code β) : Prop :=
  ∀ (index : Nat) (i : Instruction) (target : Int),
    c.instruction? index = some i → i.opcode.isJump = true → i.target = .ok target →
      0 ≤ target → target < c.length → index < target

/-! ## Where an instruction leads -/

namespace Frame

/-- Where the instruction `i` leaves the frame: at the place that it had moved on to,
or at the target of the jump that `i` is. -/
def LedTo (f : Frame β) (i : Instruction) (f' : Frame β) : Prop :=
  f'.ip = f.ip ∨
    ∃ target, i.opcode.isJump = true ∧ i.target = .ok target ∧
      0 ≤ target ∧ target < f.code.length ∧ f'.ip = target.toNat

/-- If the frame goes on, it is where the instruction may lead. -/
def Leads (f : Frame β) (i : Instruction) : Turn β → Prop
  | .next f' _ _ => f.LedTo i f'
  | .leave _ => True

section Instructions

variable {f : Frame β} {i : Instruction} {scopes : Arena β} {turn : Turn β}

theorem ledTo_of_jump
    {f' : Frame β} {target : Int} (hop : i.opcode.isJump = true)
    (htarget : i.target = .ok target) (hjump : f.jump target = .ok f') :
    f.LedTo i f' := by
  simp only [jump] at hjump
  split at hjump
  next hinside =>
    cases hjump
    exact .inr ⟨target, hop, htarget, hinside.1, hinside.2, rfl⟩
  next => cases hjump

theorem leads_binary
    {op : Operator} (hturn : f.binary op scopes = .ok turn) :
    f.Leads i turn := by
  simp only [binary, bind_eq_ok_iff, pure_eq_ok_iff] at hturn
  obtain ⟨_, -, _, -, _, -, stack, -, rfl⟩ := hturn
  exact .inl rfl

theorem leads_branch
    {wanted : Bool} (hop : i.opcode.isJump = true)
    (hturn : f.branch i wanted scopes = .ok turn) :
    f.Leads i turn := by
  simp only [branch, bind_eq_ok_iff, pure_eq_ok_iff, Stack.attempt_eq_ok_iff] at hturn
  obtain ⟨⟨condition, s⟩, -, target, htarget, f', hjump, rfl⟩ := hturn
  simp only [jumpIf] at hjump
  split at hjump
  next => exact ledTo_of_jump (f := { f with stack := s }) hop htarget hjump
  next =>
    cases hjump
    exact .inl rfl

theorem leads_callNative [Host β]
    (hturn : f.callNative i scopes = .ok turn) :
    f.Leads i turn := by
  simp only [callNative, bind_eq_ok_iff, Stack.attempt_eq_ok_iff] at hturn
  obtain ⟨_, -, _, -, ⟨callee, _⟩, -, hturn⟩ := hturn
  cases callee with
  | native function =>
      simp only [bind_eq_ok_iff, pure_eq_ok_iff] at hturn
      obtain ⟨_, -, stack, -, rfl⟩ := hturn
      exact .inl rfl
  | int v | float v | str v => cases hturn

theorem leads_perform [Host β]
    {index : Nat} (hturn : f.perform index i scopes = .ok turn) :
    f.Leads i turn := by
  unfold perform at hturn
  cases hop : i.opcode <;>
    simp only [hop, bind_eq_ok_iff, pure_eq_ok_iff, Stack.attempt_eq_ok_iff] at hturn
  case loadConst =>
    obtain ⟨_, -, _, -, rfl⟩ := hturn
    exact .inl rfl
  case loadVar | storeVar =>
    obtain ⟨_, -, _, -, _, -, rfl⟩ := hturn
    exact .inl rfl
  case add | sub | mul | div => exact leads_binary hturn
  case popTop | dupTop =>
    obtain ⟨_, -, rfl⟩ := hturn
    exact .inl rfl
  case jump =>
    obtain ⟨target, htarget, f', hjump, rfl⟩ := hturn
    exact ledTo_of_jump (by rw [hop]; rfl) htarget hjump
  case jumpIfTrue | jumpIfFalse => exact leads_branch (by rw [hop]; rfl) hturn
  case callFunc => exact leads_callNative hturn
  case returnVal =>
    obtain ⟨_, -, rfl⟩ := hturn
    trivial
  case halt =>
    subst hturn
    trivial

end Instructions

/-- How many steps the frame can take, if each of them brings it closer to the end of
its code: one for each instruction ahead and one to end. -/
def remaining (f : Frame β) : Nat :=
  f.code.length - f.ip + 1

theorem remaining_pos (f : Frame β) :
    0 < f.remaining :=
  Nat.succ_pos _

/-- A frame that goes on in forward code is closer to its end. -/
theorem remaining_lt_of_goOn [Host β]
    {f f' : Frame β} {scopes scopes' : Arena β} (hforward : f.code.Forward)
    (hmove : f.move scopes = .goOn f' scopes') :
    f'.remaining < f.remaining := by
  have hcontinues : f.Continues scopes f' scopes' := by
    have hallows := f.allows_move scopes
    rw [hmove] at hallows
    exact hallows
  unfold move at hmove
  cases hi : f.code.instruction? f.ip with
  | none => simp only [hi] at hmove; cases hmove
  | some i =>
      simp only [hi] at hmove
      have hinside : f.ip < f.code.length := lt_length_of_instruction? hi
      have hahead : f.ip < f'.ip := by
        split at hmove
        next hturn =>
          cases hmove
          have hled : LedTo { f with ip := f.ip + 1 } i f' := leads_perform hturn
          rcases hled with hnext | ⟨target, hop, htarget, hpos, hlt, hip⟩
          · rw [hnext]
            exact Nat.lt_succ_self f.ip
          · have hlater : (f.ip : Int) < target :=
              hforward f.ip i target hi hop htarget hpos hlt
            rw [hip]
            omega
        next => cases hmove
        next => cases hmove
        next => cases hmove
      unfold remaining
      rw [hcontinues.code]
      omega

end Frame

/-! ## Steps -/

namespace Machine

/-- How many steps the frames can take together, if each of them brings its frame
closer to the end. -/
def remaining (m : Machine β) : Nat :=
  (m.calls.frames.map Frame.remaining).sum

theorem remaining_of_frames
    {m : Machine β} {f : Frame β} {below : List (Frame β)}
    (hframes : m.calls.frames = f :: below) :
    m.remaining = f.remaining + (below.map Frame.remaining).sum := by
  rw [remaining, hframes, List.map_cons, List.sum_cons]

theorem remaining_pos_of_running [Host β]
    {m : Machine β} (hrunning : m.step.machine.status = .running) :
    0 < m.step.machine.remaining := by
  cases hframes : m.step.machine.calls.frames with
  | nil =>
      rw [step_status_eq_halted_iff.mpr hframes] at hrunning
      cases hrunning
  | cons f below =>
      rw [remaining_of_frames hframes]
      exact Nat.add_pos_left f.remaining_pos _

/-- A caller has as far to go with the value that it is handed as without it. -/
theorem remaining_carryOut_handBack
    (m : Machine β) (f : Frame β) (below : List (Frame β)) (v : Value β) :
    (m.carryOut f below (.handBack v)).1.remaining = (below.map Frame.remaining).sum := by
  cases below with
  | nil => rfl
  | cons caller rest =>
      by_cases hroom : caller.stack.items.length < caller.stack.limit
      · rw [carryOut_handBack_of_lt m f rest v hroom]
        rfl
      · rw [carryOut_handBack_of_le m f rest v (Nat.le_of_not_lt hroom)]
        rfl

/-- Every step after which a run goes on leaves less to do. -/
theorem remaining_step_lt [Host β]
    {m : Machine β} (hforward : ∀ f ∈ m.calls.frames, f.code.Forward)
    (hgoes : m.step.goesOn = true) :
    m.step.machine.remaining < m.remaining := by
  obtain ⟨hsucceeds, hrunning⟩ := Progress.goesOn_eq_true_iff.mp hgoes
  cases hframes : m.calls.frames with
  | nil =>
      rw [(step_of_nil hframes).1] at hrunning
      cases hrunning
  | cons f below =>
      have hbefore := remaining_of_frames hframes
      have hpos := f.remaining_pos
      obtain ⟨hmachine, herror⟩ := step_eq_carryOut hframes
      cases hmove : f.move m.scopes with
      | goOn f' scopes' =>
          have hf : f.code.Forward := hforward f (hframes ▸ List.mem_cons_self)
          have hcloser : f'.remaining < f.remaining := Frame.remaining_lt_of_goOn hf hmove
          have hafter : m.step.machine.calls.frames = f' :: below := by
            rw [hmachine, hmove]
            rfl
          rw [remaining_of_frames hafter, hbefore]
          omega
      | stop =>
          have hafter : m.step.machine.remaining = (below.map Frame.remaining).sum := by
            rw [hmachine, hmove]
            rfl
          rw [hafter, hbefore]
          omega
      | handBack v =>
          rw [hmachine, hmove, remaining_carryOut_handBack, hbefore]
          omega
      | breakDown opcode f' cause =>
          rw [hmove] at herror
          cases herror.symm.trans hsucceeds

theorem forward_step [Host β]
    {m : Machine β} (hforward : ∀ f ∈ m.calls.frames, f.code.Forward) :
    ∀ f ∈ m.step.machine.calls.frames, f.code.Forward := by
  obtain ⟨scopes, returned, frames, hsettle, hsuffix, -⟩ := m.exists_settle_of_step
  rw [hsettle]
  intro f hf
  have hmem : f.activation ∈ m.calls.frames.map Frame.activation :=
    hsuffix.subset (List.mem_map_of_mem hf)
  obtain ⟨g, hg, hsame⟩ := List.mem_map.mp hmem
  have hcode : g.code = f.code := congrArg Prod.fst hsame
  rw [← hcode]
  exact hforward g hg

theorem grounded_step [Host β]
    {m : Machine β} (hgrounded : m.scopes.Grounded) :
    m.step.machine.scopes.Grounded := by
  cases m.scopeEffect_step with
  | kept _ hscopes =>
      rw [hscopes]
      exact hgrounded
  | written id name v _ _ hset => exact hgrounded.set hset
  | released id _ hscopes =>
      rw [hscopes]
      exact hgrounded.release id

/-! ## Runs -/

theorem runFrom_ne_unfinished [Host β]
    {fuel : Nat} {m : Machine β} (hforward : ∀ f ∈ m.calls.frames, f.code.Forward)
    (hpos : 0 < fuel) (hfuel : m.remaining ≤ fuel) (output : Output β) :
    (runFrom fuel m output).ending ≠ .unfinished := by
  induction fuel generalizing m output with
  | zero => exact absurd hpos (Nat.lt_irrefl 0)
  | succ fuel ih =>
      simp only [runFrom]
      split
      next =>
        intro hunfinished
        cases hunfinished
      next herror =>
        split
        next hrunning =>
          have hgoes := Progress.goesOn_eq_true_iff.mpr ⟨herror, hrunning⟩
          have hless : m.step.machine.remaining < m.remaining := remaining_step_lt hforward hgoes
          have hmore : 0 < m.step.machine.remaining := remaining_pos_of_running hrunning
          exact ih (forward_step hforward) (by omega) (by omega) _
        next =>
          intro hunfinished
          cases hunfinished

/-- A run of frames whose jumps all lead forward ends, whatever the natives answer.
It takes no more steps than its frames have instructions ahead, and one for each
frame to end; a run without frames takes one.  More steps would not change anything,
and no lookup on the way goes on for ever. -/
theorem forward_run_ends [Host β]
    {m : Machine β} (hforward : ∀ f ∈ m.calls.frames, f.code.Forward)
    (hgrounded : m.scopes.Grounded) (output : Output β) :
    let bound := max 1 (m.calls.frames.map fun f => f.code.length - f.ip + 1).sum
    ((∃ value, (m.execute bound output).ending = .finished value) ∨
        ∃ e, (m.execute bound output).ending = .failed e) ∧
      (∀ fuel, bound ≤ fuel → m.execute fuel output = m.execute bound output) ∧
      ∀ m₁ ∈ m.begun.stages Progress.goesOn bound, ∀ id name,
        ∃ reach, ∀ fuel, reach ≤ fuel → m₁.scopes.find name fuel id = m₁.scopes.get id name := by
  intro bound
  have hends : (m.execute bound output).ending ≠ .unfinished := by
    rw [execute_eq_runFrom]
    exact runFrom_ne_unfinished (m := m.begun) hforward (Nat.le_max_left 1 _)
      (Nat.le_max_right 1 _) output
  refine ⟨?_, ?_, ?_⟩
  · cases hending : (m.execute bound output).ending with
    | finished value => exact .inl ⟨value, rfl⟩
    | failed e => exact .inr ⟨e, rfl⟩
    | unfinished => exact absurd hending hends
  · intro fuel hfuel
    obtain ⟨more, rfl⟩ := Nat.exists_eq_add_of_le hfuel
    exact runFrom_add hends more
  · intro m₁ hm₁ id name
    have hstep : ∀ m : Machine β, m.scopes.Grounded → m.step.goesOn = true →
        m.step.machine.scopes.Grounded := fun m hm _ => grounded_step hm
    have hgrounded₁ : m₁.scopes.Grounded :=
      stages_induction (P := fun m => m.scopes.Grounded) hstep (m := m.begun) hgrounded hm₁
    obtain ⟨ids, hlineage⟩ := hgrounded₁ id
    exact ⟨ids.length, fun fuel hfuel => hlineage.find_eq_get name hfuel⟩

/-- A callee with a branch ahead returns to a caller that fails.  The frames have seven
instructions and two ends ahead, so the run ends within nine steps. -/
theorem forward_run_ends_in_caller :
    let callee : Code Standard := .ofInstructions
      [⟨.loadVar, ["x"]⟩, ⟨.jumpIfFalse, ["3"]⟩, ⟨.halt, []⟩, ⟨.loadConst, ["7"]⟩,
        ⟨.returnVal, []⟩]
    let caller : Code Standard := .ofInstructions [⟨.popTop, []⟩, ⟨.popTop, []⟩]
    let m : Machine Standard :=
      { idle 2 false with
        calls := { limit := 2, frames := [.start callee ⟨1⟩ 4, .start caller .global 4] }
        scopes :=
          { globals := [("x", .str "")], slots := [some (Scope.empty (some .global))] } }
    callee.Forward ∧ caller.Forward ∧ m.scopes.Grounded ∧
      ∃ e, (m.execute 9 .empty).ending = .failed e := by
  intro callee caller m
  have hcallee : callee.Forward := by
    intro index i target hi hop htarget hpos hlt
    rw [Code.instruction?_ofInstructions] at hi
    match index with
    | 1 =>
        cases hi
        cases htarget
        decide
    | 0 | 2 | 3 | 4 =>
        cases hi
        cases hop
    | n + 5 => cases hi
  have hcaller : caller.Forward := by
    intro index i target hi hop htarget hpos hlt
    rw [Code.instruction?_ofInstructions] at hi
    match index with
    | 0 | 1 =>
        cases hi
        cases hop
    | n + 2 => cases hi
  have hgrounded : m.scopes.Grounded := by
    intro id
    have hglobal : m.scopes.Lineage .global [.global] := .root rfl rfl
    match id with
    | ⟨0⟩ => exact ⟨_, hglobal⟩
    | ⟨1⟩ => exact ⟨_, .child rfl rfl hglobal⟩
    | ⟨n + 2⟩ => exact ⟨_, .dead rfl⟩
  have hforward : ∀ f ∈ m.calls.frames, f.code.Forward :=
    List.forall_mem_cons.mpr ⟨hcallee, List.forall_mem_singleton.mpr hcaller⟩
  obtain ⟨hends, -, -⟩ := forward_run_ends hforward hgrounded .empty
  refine ⟨hcallee, hcaller, hgrounded, hends.resolve_left ?_⟩
  rintro ⟨value, hfinished⟩
  cases hfinished

end Machine
end Stackline
