import Stackline.Proofs.Machine.Bounds
import Stackline.Proofs.Program.Code
import Stackline.Value.Standard

/-!
# The effects in the catalogue

The catalogue says of most operations how many values they take off the operand
stack and how many they put on it.  Nothing makes the instructions keep to it:
each of them is a sequence of pops, lookups, jumps and pushes of its own, and the
first of these that fails ends it.

`Stack.Exchanges` says of such a sequence that it keeps to an effect.  A pop in
front of a sequence adds one to what is taken off, and anything else that can fail
may only come when nothing is left to take off.
-/

namespace Stackline

variable {β : Type}

namespace Stack

/-- From this stack on, the rest of an instruction takes `consumes` values off and
puts `produces` on: it finds too few values exactly if there are not so many, it
lacks room only if the stack would grow beyond its limit, and if it succeeds,
what was below the values taken off is below those put on. -/
structure Exchanges (s : Stack β) (consumes produces : Nat) (rest : Attempt β (Turn β)) :
    Prop where
  underflow :
    (∃ b, rest = .error b ∧ b.cause = .stackUnderflow) ↔ s.items.length < consumes
  overflow : ∀ b limit, rest = .error b → b.cause = .stackOverflow limit →
    s.limit + consumes < s.items.length + produces
  result : ∀ turn, rest = .ok turn →
    ∃ f scopes printed produced, turn = .next f scopes printed ∧
      produced.length = produces ∧ f.stack.limit = s.limit ∧
      f.stack.items = produced ++ s.items.drop consumes

section Parts

variable {s : Stack β} {consumes produces : Nat}

theorem exchanges_error
    {b : Breakdown β} (hunderflow : b.cause = .stackUnderflow ↔ s.items.length < consumes)
    (hoverflow : ∀ limit, b.cause = .stackOverflow limit →
      s.limit + consumes < s.items.length + produces) :
    s.Exchanges consumes produces (.error b) := by
  refine ⟨?_, ?_, ?_⟩
  · rw [← hunderflow]
    constructor
    · rintro ⟨b', hb, hcause⟩
      cases hb
      exact hcause
    · intro hcause
      exact ⟨b, rfl, hcause⟩
  · intro b' limit hb hcause
    cases hb
    exact hoverflow limit hcause
  · intro turn hturn
    cases hturn

theorem exchanges_ok
    {f : Frame β} (henough : consumes ≤ s.items.length) {produced : List (Value β)}
    (hlength : produced.length = produces) (hlimit : f.stack.limit = s.limit)
    (hitems : f.stack.items = produced ++ s.items.drop consumes) (scopes : Arena β)
    (printed : String) :
    s.Exchanges consumes produces (.ok (.next f scopes printed)) := by
  refine ⟨?_, ?_, ?_⟩
  · refine iff_of_false ?_ (Nat.not_lt_of_le henough)
    rintro ⟨b, hb, -⟩
    cases hb
  · intro b limit hb
    cases hb
  · intro turn hturn
    cases hturn
    exact ⟨f, scopes, printed, produced, rfl, hlength, hlimit, hitems⟩

theorem exchanges_next
    (f : Frame β) (scopes : Arena β) (printed : String) :
    f.stack.Exchanges 0 0 (.ok (.next f scopes printed)) :=
  exchanges_ok (Nat.zero_le _) List.length_nil rfl rfl scopes printed

/-- A pop in front takes one more value off. -/
theorem exchanges_pop
    {next : Value β × Stack β → Attempt β (Turn β)}
    (hnext : ∀ v rest, s.pop = .ok (v, rest) → rest.Exchanges consumes produces (next (v, rest))) :
    s.Exchanges (consumes + 1) produces (s.attempt s.pop >>= next) := by
  rcases s with ⟨limit, _ | ⟨top, items⟩⟩
  · apply exchanges_error
    · exact iff_of_true rfl (Nat.succ_pos consumes)
    · intro size hcause
      cases hcause
  · obtain ⟨hunderflow, hoverflow, hresult⟩ := hnext top ⟨limit, items⟩ rfl
    refine ⟨?_, ?_, hresult⟩
    · have hshorter : items.length < consumes ↔ (top :: items).length < consumes + 1 := by simp
      exact hunderflow.trans hshorter
    · intro b size hb hcause
      have hroom := hoverflow b size hb hcause
      simp only [List.length_cons] at hroom ⊢
      omega

/-- A part that cannot fail because of the stack may come when no more values are
to be taken off. -/
theorem exchanges_attempt
    {α : Type} {part : Except Fault α} {next : α → Attempt β (Turn β)}
    (hpart : ∀ cause, part = .error cause → cause.ofStack = false)
    (hnext : ∀ a, part = .ok a → s.Exchanges 0 produces (next a)) :
    s.Exchanges 0 produces (s.attempt part >>= next) := by
  cases part with
  | ok a => exact hnext a rfl
  | error cause =>
      have hstack : cause.ofStack = false := hpart cause rfl
      apply exchanges_error
      · refine iff_of_false ?_ (Nat.not_lt_zero _)
        rintro rfl
        cases hstack
      · rintro limit rfl
        cases hstack

theorem exchanges_push
    (f : Frame β) (s : Stack β) (v : Value β) (scopes : Arena β) :
    s.Exchanges 0 1 (do return f.proceed (← s.attempt (s.push v)) scopes) := by
  by_cases hroom : s.items.length < s.limit
  · have hpush : s.push v = .ok { s with items := v :: s.items } := if_pos hroom
    rw [hpush]
    exact exchanges_ok (s := s) (f := { f with stack := { s with items := v :: s.items } })
      (Nat.zero_le _) (List.length_singleton (a := v)) rfl rfl scopes ""
  · have hfull : s.push v = .error (.stackOverflow s.limit) := if_neg hroom
    rw [hfull]
    apply exchanges_error
    · refine iff_of_false ?_ (Nat.not_lt_zero _)
      intro hcause
      cases hcause
    · intro limit _
      omega

/-- Copying the top value takes it off and puts it on twice. -/
theorem exchanges_dup
    (f : Frame β) (s : Stack β) (scopes : Arena β) :
    s.Exchanges 1 2 (do return f.proceed (← s.attempt s.dup) scopes) := by
  rcases s with ⟨limit, _ | ⟨top, items⟩⟩
  · apply exchanges_error
    · exact iff_of_true rfl Nat.one_pos
    · intro size hcause
      cases hcause
  · obtain ⟨hunderflow, hoverflow, hresult⟩ := exchanges_push f ⟨limit, top :: items⟩ top scopes
    refine ⟨?_, ?_, ?_⟩
    · have hsame : (top :: items).length < 0 ↔ (top :: items).length < 1 := by simp
      exact hunderflow.trans hsame
    · intro b size hb hcause
      have hroom := hoverflow b size hb hcause
      omega
    · intro turn hturn
      obtain ⟨f', scopes', printed, produced, rfl, hlength, hlimit, hitems⟩ := hresult turn hturn
      refine ⟨f', scopes', printed, produced ++ [top], rfl, ?_, hlimit, ?_⟩
      · simp [hlength]
      · simpa using hitems

end Parts

end Stack

/-! ## Parts that do not fail because of the stack -/

section Causes

variable {f : Frame β} {i : Instruction} {cause : Fault}

theorem Instruction.ofStack_of_require_error
    {index : Nat} (hrequire : i.require index = .error cause) :
    cause.ofStack = false := by
  simp only [require] at hrequire
  split at hrequire
  next => cases hrequire
  next =>
    cases hrequire
    rfl

theorem Instruction.Complete.exists_require
    (hi : i.Complete) {index : Nat} (hindex : index < i.opcode.operandCount) :
    ∃ text, i.require index = .ok text := by
  obtain ⟨text, htext⟩ := Option.ne_none_iff_exists'.mp (hi.operand?_ne_none hindex)
  refine ⟨text, ?_⟩
  simp only [require, htext]

theorem Instruction.ofStack_of_target_error
    (htarget : i.target = .error cause) :
    cause.ofStack = false := by
  simp only [target, bind_eq_error_iff] at htarget
  rcases htarget with hrequire | ⟨text, -, hread⟩
  · exact ofStack_of_require_error hrequire
  · simp only [Frame.readTarget] at hread
    split at hread
    next => cases hread
    next =>
      cases hread
      rfl

theorem Frame.ofStack_of_constant_error
    {index : Nat} (hconstant : f.constant i index = .error cause) :
    cause.ofStack = false := by
  simp only [constant] at hconstant
  split at hconstant
  next => cases hconstant
  next =>
    cases hconstant
    rfl

theorem Arena.ofStack_of_get_error
    {a : Arena β} {id : ScopeId} {name : String} (hget : a.get id name = .error cause) :
    cause.ofStack = false := by
  obtain rfl | ⟨released, rfl⟩ := find_error_cases hget
  · rfl
  · rfl

end Causes

/-! ## Instructions -/

theorem Operator.effect_opcode
    (op : Operator) :
    op.opcode.entry.effect = .fixed 2 1 := by
  cases op <;> rfl

namespace Frame

open Stack

theorem exchanges_binary
    (f : Frame β) (op : Operator) (scopes : Arena β) :
    f.stack.Exchanges 2 1 (f.binary op scopes) := by
  refine exchanges_pop fun right s₁ _ => exchanges_pop fun left s₂ _ => ?_
  refine exchanges_attempt ?_ fun v _ => exchanges_push f s₂ v scopes
  intro cause happly
  exact (Value.apply_error happly).2

theorem exchanges_branch
    (f : Frame β) (i : Instruction) (wanted : Bool) (scopes : Arena β) :
    f.stack.Exchanges 1 0 (f.branch i wanted scopes) := by
  refine exchanges_pop fun condition s _ => ?_
  refine exchanges_attempt (fun cause => Instruction.ofStack_of_target_error) fun target _ => ?_
  refine exchanges_attempt ?_ ?_
  · intro cause hjump
    simp only [jumpIf] at hjump
    split at hjump
    next =>
      obtain rfl := jump_error hjump
      rfl
    next => cases hjump
  · intro f' hjump
    obtain ⟨ip, rfl⟩ := exists_ip_of_jumpIf hjump
    exact exchanges_next { f with ip, stack := s } scopes ""

/-- Every operation whose effect the catalogue gives keeps to it, but for a halt,
which ends the frame. -/
theorem exchanges_perform [Host β]
    {i : Instruction} {consumes produces : Nat}
    (heffect : i.opcode.entry.effect = .fixed consumes produces) (hhalt : i.opcode ≠ .halt)
    (hcomplete : i.Complete) (f : Frame β) (index : Nat) (scopes : Arena β) :
    f.stack.Exchanges consumes produces (f.perform index i scopes) := by
  unfold perform
  cases hop : i.opcode <;> rw [hop] at heffect <;> cases heffect <;> dsimp only
  case loadConst =>
    refine exchanges_attempt (fun cause => ofStack_of_constant_error) fun v _ => ?_
    exact exchanges_push f f.stack v scopes
  case loadVar =>
    refine exchanges_attempt (fun cause => Instruction.ofStack_of_require_error) fun name _ => ?_
    refine exchanges_attempt (fun cause => Arena.ofStack_of_get_error) fun v _ => ?_
    exact exchanges_push f f.stack v scopes
  case storeVar =>
    -- A missing operand would be found before the missing value.
    have htakes : 0 < i.opcode.operandCount := by
      rw [hop]
      decide
    obtain ⟨name, hname⟩ := hcomplete.exists_require htakes
    rw [hname]
    refine exchanges_pop fun v s _ => ?_
    refine exchanges_attempt ?_ fun scopes' _ => ?_
    · intro cause hset
      obtain ⟨rfl, -⟩ := Arena.get_of_set_error hset
      rfl
    · exact exchanges_next { f with stack := s } scopes' ""
  case add | sub | mul | div => exact exchanges_binary f _ scopes
  case popTop =>
    exact exchanges_pop fun v s _ => exchanges_next { f with stack := s } scopes ""
  case dupTop => exact exchanges_dup f f.stack scopes
  case jump =>
    refine exchanges_attempt (fun cause => Instruction.ofStack_of_target_error) fun target _ => ?_
    refine exchanges_attempt ?_ ?_
    · intro cause hjump
      obtain rfl := jump_error hjump
      rfl
    · intro f' hjump
      obtain ⟨ip, rfl⟩ := exists_ip_of_jump hjump
      exact exchanges_next { f with ip } scopes ""
  case jumpIfTrue | jumpIfFalse => exact exchanges_branch f i _ scopes
  case halt => exact absurd hop hhalt

end Frame

/-! ## Steps -/

namespace Machine

/-- Unless the instruction ends its frame, a step fails for the causes for which the
instruction does. -/
theorem step_cause_iff [Host β]
    {m : Machine β} {f : Frame β} {below : List (Frame β)} {i : Instruction} {cause : Fault}
    (hframes : m.calls.frames = f :: below) (hi : f.code.instruction? f.ip = some i)
    (hstays : ∀ turn, ({ f with ip := f.ip + 1 } : Frame β).perform f.ip i m.scopes = .ok turn →
      ∃ f' scopes printed, turn = .next f' scopes printed) :
    (∃ e, m.step.error = some e ∧ e.cause = cause) ↔
      ∃ b, ({ f with ip := f.ip + 1 } : Frame β).perform f.ip i m.scopes = .error b ∧
        b.cause = cause := by
  cases hperform : ({ f with ip := f.ip + 1 } : Frame β).perform f.ip i m.scopes with
  | error b =>
      obtain ⟨-, herror⟩ := step_of_perform_error hframes hi hperform
      rw [herror]
      constructor
      · rintro ⟨e, he, hcause⟩
        cases he
        exact ⟨b, rfl, hcause⟩
      · rintro ⟨b', hb, hcause⟩
        cases hb
        exact ⟨_, rfl, hcause⟩
  | ok turn =>
      obtain ⟨f', scopes', printed, rfl⟩ := hstays turn hperform
      obtain ⟨-, herror⟩ := step_of_perform_next hframes hi hperform
      rw [herror]
      constructor
      · rintro ⟨e, he, -⟩
        cases he
      · rintro ⟨b, hb, -⟩
        cases hb

/-- Unless the instruction ends its frame, a step that succeeds puts the frame that
the instruction leaves in the place of the old one. -/
theorem perform_of_step_ok [Host β]
    {m : Machine β} {f : Frame β} {below : List (Frame β)} {i : Instruction}
    (hframes : m.calls.frames = f :: below) (hi : f.code.instruction? f.ip = some i)
    (hstays : ∀ turn, ({ f with ip := f.ip + 1 } : Frame β).perform f.ip i m.scopes = .ok turn →
      ∃ f' scopes printed, turn = .next f' scopes printed)
    (hok : m.step.error = none) :
    ∃ f' scopes printed,
      ({ f with ip := f.ip + 1 } : Frame β).perform f.ip i m.scopes =
        .ok (.next f' scopes printed) ∧
      m.step.machine.calls.frames = f' :: below := by
  cases hperform : ({ f with ip := f.ip + 1 } : Frame β).perform f.ip i m.scopes with
  | error b =>
      obtain ⟨-, herror⟩ := step_of_perform_error hframes hi hperform
      cases hok.symm.trans herror
  | ok turn =>
      obtain ⟨f', scopes', printed, rfl⟩ := hstays turn hperform
      obtain ⟨hmachine, -⟩ := step_of_perform_next hframes hi hperform
      refine ⟨f', scopes', printed, rfl, ?_⟩
      rw [hmachine]
      rfl

/-- The step of an operation whose effect the catalogue gives, on a stack within its
limit.  It finds too few values exactly if there are fewer than the operation takes
off.  It lacks room only if the operation puts on more than it takes off and the
difference does not fit, so never in arithmetic.  If it succeeds, the values taken
off are replaced by as many as the catalogue says, with the same values below. -/
theorem step_keeps_to_catalogue [Host β]
    {m : Machine β} {f : Frame β} {below : List (Frame β)} {i : Instruction}
    {consumes produces : Nat}
    (hframes : m.calls.frames = f :: below) (hi : f.code.instruction? f.ip = some i)
    (heffect : i.opcode.entry.effect = .fixed consumes produces) (hhalt : i.opcode ≠ .halt)
    (hcomplete : i.Complete) (hfits : f.stack.Fits) :
    ((∃ e, m.step.error = some e ∧ e.cause = .stackUnderflow) ↔
        f.stack.items.length < consumes) ∧
      (∀ e limit, m.step.error = some e → e.cause = .stackOverflow limit →
        consumes < produces ∧ consumes ≤ f.stack.items.length ∧
          f.stack.limit < f.stack.items.length - consumes + produces) ∧
      (∀ op : Operator, i.opcode = op.opcode →
        ∀ e limit, m.step.error = some e → e.cause ≠ .stackOverflow limit) ∧
      (m.step.error = none →
        ∃ f' produced, m.step.machine.calls.frames = f' :: below ∧
          consumes ≤ f.stack.items.length ∧ produced.length = produces ∧
          f'.stack.limit = f.stack.limit ∧
          f'.stack.items = produced ++ f.stack.items.drop consumes) := by
  have hexchanges : f.stack.Exchanges consumes produces
      (({ f with ip := f.ip + 1 } : Frame β).perform f.ip i m.scopes) :=
    Frame.exchanges_perform heffect hhalt hcomplete { f with ip := f.ip + 1 } f.ip m.scopes
  have hstays : ∀ turn,
      ({ f with ip := f.ip + 1 } : Frame β).perform f.ip i m.scopes = .ok turn →
        ∃ f' scopes printed, turn = .next f' scopes printed := by
    intro turn hturn
    obtain ⟨f', scopes', printed, -, rfl, -⟩ := hexchanges.result turn hturn
    exact ⟨f', scopes', printed, rfl⟩
  have hunderflow := (step_cause_iff hframes hi hstays).trans hexchanges.underflow
  have henough : (∀ e, m.step.error = some e → e.cause ≠ .stackUnderflow) →
      consumes ≤ f.stack.items.length := by
    intro hother
    apply Nat.le_of_not_lt
    intro hless
    obtain ⟨e, he, hempty⟩ := hunderflow.mpr hless
    exact hother e he hempty
  have hoverflow : ∀ e limit, m.step.error = some e → e.cause = .stackOverflow limit →
      consumes < produces ∧ consumes ≤ f.stack.items.length ∧
        f.stack.limit < f.stack.items.length - consumes + produces := by
    intro e limit he hfull
    obtain ⟨b, hb, hb'⟩ := (step_cause_iff hframes hi hstays).mp ⟨e, he, hfull⟩
    have hgrows : f.stack.limit + consumes < f.stack.items.length + produces :=
      hexchanges.overflow b limit hb hb'
    have hconsumes : consumes ≤ f.stack.items.length := by
      apply henough
      intro e' he' hempty
      cases he.symm.trans he'
      cases hfull.symm.trans hempty
    have hlimit : f.stack.items.length ≤ f.stack.limit := hfits
    omega
  refine ⟨hunderflow, hoverflow, ?_, ?_⟩
  · intro op hop e limit he hfull
    obtain ⟨hgrows, -⟩ := hoverflow e limit he hfull
    rw [hop, Operator.effect_opcode] at heffect
    cases heffect
    omega
  · intro hok
    have hconsumes : consumes ≤ f.stack.items.length := by
      apply henough
      intro e he
      cases hok.symm.trans he
    obtain ⟨f', scopes', printed, hperform, hframes'⟩ :=
      perform_of_step_ok hframes hi hstays hok
    obtain ⟨_, _, _, produced, hturn, hlength, hlimit, hitems⟩ := hexchanges.result _ hperform
    cases hturn
    exact ⟨f', produced, hframes', hconsumes, hlength, hlimit, hitems⟩

/-- A copy of the top value fills the stack up to its limit; the value below stays. -/
theorem step_keeps_to_catalogue_dup :
    let f : Frame Standard :=
      { Frame.start (.ofInstructions [⟨.dupTop, []⟩]) .global 3 with
        stack := { limit := 3, items := [.int 2, .str "kept"] } }
    let m : Machine Standard := { idle 1 false with calls := { limit := 1, frames := [f] } }
    m.step.error = none ∧
      ∃ f' produced, m.step.machine.calls.frames = [f'] ∧ produced.length = 2 ∧
        f'.stack.items = produced ++ [.str "kept"] := by
  intro f m
  have hframes : m.calls.frames = [f] := rfl
  have hi : f.code.instruction? f.ip = some ⟨.dupTop, []⟩ := rfl
  have hok : m.step.error = none := rfl
  obtain ⟨-, -, -, hresult⟩ :=
    step_keeps_to_catalogue hframes hi rfl nofun rfl (Nat.le_succ 2)
  obtain ⟨f', produced, hframes', -, hlength, -, hitems⟩ := hresult hok
  exact ⟨hok, f', produced, hframes', hlength, hitems⟩

end Machine
end Stackline
