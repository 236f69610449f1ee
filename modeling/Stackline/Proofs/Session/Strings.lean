import Stackline.Proofs.Machine.Holding
import Stackline.Proofs.Program.Code
import Stackline.Proofs.Session.Calls
import Stackline.Proofs.Value.Exact

/-!
# Strings stay short

Arithmetic builds no string beyond a limit.  Strings also come from elsewhere: from
the literals of a program, from the standard function that turns a value into its
text, and as copies of what is on a stack or in a scope.  None of these makes a
string longer than the limit out of shorter ones, so in a session with the standard
functions the limit holds in every state of every run, if it holds for the globals
and the literals that the run starts with.
-/

namespace Stackline

/-! ## What a session holds -/

namespace Session

open Machine

variable {β : Type} {P : Value β → Prop}

/-- Every value that is bound in a scope of the session or held by a waiting frame has
the property. -/
structure HoldsOnly (P : Value β → Prop) (s : Session β) : Prop where
  waiting : ∀ f ∈ s.machine.calls.frames, f.HoldsOnly P
  scopes : s.machine.scopes.HoldsOnly P

section Runs

variable {s : Session β} {f : Frame β}

/-- A session at rest holds what its globals hold. -/
theorem AtRest.holdsOnly
    (hs : s.AtRest) (hglobals : s.globals.HoldsOnly P) :
    s.HoldsOnly P := by
  constructor
  · rw [hs.frames]
    exact nofun
  · intro id scope hscope
    have hid : id = .global := by
      rw [← Arena.live_iff_of_nil hs.bare.slots id, Arena.Live, hscope]
      rfl
    subst hid
    cases hscope
    exact hglobals

theorem HoldsOnly.started
    (hs : s.HoldsOnly P) (hf : f.HoldsOnly P) :
    (s.started f).HoldsOnly P :=
  ⟨List.forall_mem_cons.mpr ⟨hf, hs.waiting⟩, hs.scopes, nofun⟩

variable [Host β]

theorem HoldsOnly.run
    (hclosed : Value.Closed P) (hs : s.HoldsOnly P) (hf : f.HoldsOnly P) (fuel : Nat) :
    (s.run fuel f).session.HoldsOnly P := by
  by_cases hroom : s.machine.calls.depth < s.machine.calls.limit
  · obtain ⟨output, -, hmachine⟩ := run_of_room (f := f) hroom fuel
    have hx := (hs.started hf).runFrom hclosed fuel output
    constructor
    · rw [hmachine]
      split
      next => exact nofun
      next => exact hx.frames
    · rw [hmachine]
      split
      next => exact hx.scopes.releaseAll _
      next => exact hx.scopes
  · obtain ⟨-, hmachine⟩ := run_of_full f (Nat.le_of_not_lt hroom) fuel
    constructor
    · rw [hmachine]
      exact nofun
    · rw [hmachine]
      exact hs.scopes.releaseAll _

theorem HoldsOnly.value
    (hclosed : Value.Closed P) (hs : s.HoldsOnly P) (hf : f.HoldsOnly P) {fuel : Nat}
    {v : Value β} (hfinished : (s.run fuel f).ending = .finished (some v)) :
    P v := by
  by_cases hroom : s.machine.calls.depth < s.machine.calls.limit
  · obtain ⟨output, hending, -⟩ := run_of_room (f := f) hroom fuel
    rw [hending] at hfinished
    exact (hs.started hf).value hclosed hfinished
  · obtain ⟨hending, -⟩ := run_of_full f (Nat.le_of_not_lt hroom) fuel
    cases hending.symm.trans hfinished

end Runs

theorem holdsOnly_globalFrame
    {s : Session β} {program : List Instruction}
    (hliterals : ∀ i ∈ program, ∀ text, i.literal? = some text → P (.ofLiteral text)) :
    (s.globalFrame (.ofInstructions program)).HoldsOnly P := by
  refine ⟨nofun, ?_⟩
  intro index v hv
  rw [Session.globalFrame, Frame.start, Code.constant?_ofInstructions] at hv
  obtain ⟨text, htext, rfl⟩ := Option.map_eq_some_iff.mp hv
  obtain ⟨i, hi, hliteral⟩ := Option.bind_eq_some_iff.mp htext
  exact hliterals i (List.mem_of_getElem? hi) text hliteral

end Session

/-! ## Values with short strings -/

namespace Value

/-- A string is at most as long as arithmetic may build one, and a function is one of the
standard functions. -/
def Moderate : Value Standard → Prop
  | .str s => s.utf8ByteSize ≤ maxStringBytes
  | .native f => ∃ g : Standard, f = g.native g
  | .int _ | .float _ => True

theorem moderate_ofLiteral
    {text : String} (htext : text.utf8ByteSize ≤ maxStringBytes) :
    (ofLiteral text).Moderate := by
  unfold ofLiteral
  split
  next => trivial
  next =>
    split
    next => trivial
    next => exact (utf8ByteSize_unquote_le text).trans htext

theorem Moderate.utf8ByteSize_text_le
    {v : Value Standard} (hv : v.Moderate) :
    v.text.utf8ByteSize ≤ maxStringBytes := by
  cases v with
  | int n => exact utf8ByteSize_word_le n
  | float x => exact utf8ByteSize_floatNotation_le x
  | str s => exact hv
  | native f =>
      obtain ⟨g, rfl⟩ := hv
      cases g <;> decide

/-! ## Operators -/

section Operators

variable {a b v : Value Standard}

theorem moderate_ofString
    {bytes : Nat} {s : Unit → String} (hbytes : (s ()).utf8ByteSize = bytes)
    (hv : ofString bytes s = .ok v) :
    v.Moderate := by
  obtain ⟨hshort, rfl⟩ := ofString_eq_ok_iff.mp hv
  exact hbytes.trans_le hshort

theorem moderate_repeatString
    {s : String} {count : Int64} (hv : repeatString s count = .ok v) :
    v.Moderate := by
  unfold repeatString at hv
  exact moderate_ofString (Text.utf8ByteSize_repeated _ s) hv

theorem moderate_arithmetic
    {op : Operator} {onInts : Int → Int → Int} {onFloats : Float → Float → Float}
    (hv : arithmetic op onInts onFloats a b = .ok v) :
    v.Moderate := by
  unfold arithmetic at hv
  split at hv
  next => cases hv
  next =>
    unfold ofResult at hv
    split at hv
    next =>
      cases hv
      trivial
    next => cases hv
  next =>
    cases hv
    trivial

theorem moderate_add (hv : a.add b = .ok v) : v.Moderate := by
  unfold add at hv
  split at hv
  next => exact moderate_ofString String.utf8ByteSize_append hv
  next => exact moderate_arithmetic hv

theorem moderate_mul (hv : a.mul b = .ok v) : v.Moderate := by
  unfold mul at hv
  split at hv
  next => exact moderate_repeatString hv
  next => exact moderate_repeatString hv
  next => exact moderate_arithmetic hv

theorem moderate_div (hv : a.div b = .ok v) : v.Moderate := by
  unfold div at hv
  split at hv
  next =>
    split at hv
    next => cases hv
    next =>
      cases hv
      trivial
  next => cases hv

theorem moderate_apply {op : Operator} (hv : apply op a b = .ok v) : v.Moderate := by
  cases op with
  | add => exact moderate_add hv
  | sub => exact moderate_arithmetic hv
  | mul => exact moderate_mul hv
  | div => exact moderate_div hv

end Operators

end Value

/-! ## Standard functions -/

namespace Standard

open Value

variable {β : Type}

theorem mem_of_extremeFrom
    {f : Standard} {wanted : Ordering} {best v : Value β} {rest : List (Value β)}
    (hv : extremeFrom f wanted best rest = .ok v) :
    v ∈ best :: rest := by
  induction rest generalizing best with
  | nil =>
      cases hv
      exact List.mem_cons_self
  | cons w rest ih =>
      simp only [extremeFrom] at hv
      split at hv
      next => cases hv
      next order _ =>
        have hmem := ih hv
        by_cases hwanted : order = wanted
        · rw [if_pos hwanted] at hmem
          exact List.mem_cons_of_mem best hmem
        · rw [if_neg hwanted] at hmem
          rcases List.mem_cons.mp hmem with rfl | hrest
          · exact List.mem_cons_self
          · exact List.mem_cons_of_mem best (List.mem_cons_of_mem w hrest)

theorem mem_of_extreme
    {f : Standard} {wanted : Ordering} {args : List (Value β)} {v : Value β}
    (hv : (extreme f wanted args).result = .ok v) :
    v ∈ args := by
  cases args with
  | nil => cases hv
  | cons first rest => exact mem_of_extremeFrom hv

theorem exists_mem_of_onFirst
    {f : Standard} {act : Value β → Except String (Value β)} {args : List (Value β)}
    {v : Value β} (hv : (onFirst f act args).result = .ok v) :
    ∃ a ∈ args, act a = .ok v := by
  cases args with
  | nil => cases hv
  | cons first rest => exact ⟨first, List.mem_cons_self, hv⟩

section Numbers

variable {a v : Value Standard}

theorem moderate_absolute (hv : absolute a = .ok v) : v.Moderate := by
  unfold absolute at hv
  split at hv
  next =>
    split at hv
    next =>
      cases hv
      trivial
    next => cases hv
  next =>
    cases hv
    trivial
  next => cases hv

theorem moderate_length (hv : length a = .ok v) : v.Moderate := by
  unfold length at hv
  split at hv
  next =>
    cases hv
    trivial
  next => cases hv

theorem moderate_toInteger (hv : toInteger a = .ok v) : v.Moderate := by
  unfold toInteger at hv
  split at hv
  next =>
    cases hv
    trivial
  next =>
    split at hv
    next =>
      cases hv
      trivial
    next => cases hv
  next =>
    split at hv
    next =>
      cases hv
      trivial
    next => cases hv
  next => cases hv

theorem moderate_toFloating (hv : toFloating a = .ok v) : v.Moderate := by
  unfold toFloating at hv
  split at hv
  next =>
    split at hv
    next =>
      cases hv
      trivial
    next => cases hv
  next =>
    split at hv
    next =>
      cases hv
      trivial
    next => cases hv

end Numbers

theorem moderate_invoke
    {f : Standard} {args : List (Value Standard)} {v : Value Standard}
    (hargs : ∀ a ∈ args, a.Moderate) (hv : (invoke f args).result = .ok v) :
    v.Moderate := by
  cases f with
  | abs =>
      obtain ⟨a, -, ha⟩ := exists_mem_of_onFirst hv
      exact moderate_absolute ha
  | min => exact hargs v (mem_of_extreme hv)
  | max => exact hargs v (mem_of_extreme hv)
  | len =>
      obtain ⟨a, -, ha⟩ := exists_mem_of_onFirst hv
      exact moderate_length ha
  | str =>
      obtain ⟨a, hmem, ha⟩ := exists_mem_of_onFirst hv
      cases ha
      exact (hargs a hmem).utf8ByteSize_text_le
  | int =>
      obtain ⟨a, -, ha⟩ := exists_mem_of_onFirst hv
      exact moderate_toInteger ha
  | float =>
      obtain ⟨a, -, ha⟩ := exists_mem_of_onFirst hv
      exact moderate_toFloating ha
  | print =>
      cases hv
      trivial

end Standard

/-- Operators and standard functions keep strings short. -/
theorem Value.closed_moderate : Value.Closed Value.Moderate where
  apply _ _ hv := moderate_apply hv
  call {f args v} hf hargs hv := by
    obtain ⟨g, rfl⟩ := hf
    unfold Native.call at hv
    split at hv
    next =>
      rw [mapError_eq_ok_iff] at hv
      exact Standard.moderate_invoke hargs hv
    next => cases hv

namespace Session

open Machine Value

/-- In every state of a run, however long it is, the strings on the stacks, in the scopes
and in the value that is returned are at most as long as arithmetic may build them, if
this is so for the globals and the literals of the program.  It is then so for all that
the run leaves, and the next run starts in the same way. -/
theorem strings_stay_short
    {s : Session Standard} (hs : s.AtRest) (hglobals : s.globals.HoldsOnly Moderate)
    {program : List Instruction}
    (hliterals : ∀ i ∈ program, ∀ text, i.literal? = some text →
      text.utf8ByteSize ≤ maxStringBytes)
    (fuel : Nat) :
    (∀ m ∈ (s.started (s.globalFrame (.ofInstructions program))).stages Progress.goesOn fuel,
        m.HoldsOnly Moderate ∧ m.step.machine.HoldsOnly Moderate) ∧
      (∀ v, (s.runProgram fuel program).ending = .finished (some v) → v.Moderate) ∧
      (s.runProgram fuel program).session.HoldsOnly Moderate := by
  have hsession : s.HoldsOnly Moderate := hs.holdsOnly hglobals
  have hframe : (s.globalFrame (.ofInstructions program)).HoldsOnly Moderate := by
    apply holdsOnly_globalFrame
    intro i hi text htext
    exact moderate_ofLiteral (hliterals i hi text htext)
  refine ⟨?_, ?_, hsession.run closed_moderate hframe fuel⟩
  · intro m hm
    have hstage := (hsession.started hframe).of_mem_stages closed_moderate hm
    exact ⟨hstage, hstage.step closed_moderate⟩
  · intro v hv
    have hending : (s.run fuel (s.globalFrame (.ofInstructions program))).ending =
        .finished (some v) := by
      rwa [runProgram, mapError_eq_finished_iff] at hv
    exact hsession.value closed_moderate hframe hending

/-- A program that doubles a string over and over has it twice after one round, and no
round leaves it longer than the limit. -/
theorem strings_stay_short_doubling :
    let s : Session Standard :=
      fresh {} [("str", .native (Standard.str.native .str)), ("x", .str "ab")]
    let program : List Instruction :=
      [⟨.loadVar, ["str"]⟩, ⟨.loadVar, ["x"]⟩, ⟨.loadConst, ["2"]⟩, ⟨.mul, []⟩,
        ⟨.callFunc, ["1"]⟩, ⟨.storeVar, ["x"]⟩, ⟨.jump, ["0"]⟩]
    s.AtRest ∧ s.globals.HoldsOnly Moderate ∧
      ((s.runProgram 6 program).session.globals.get? "x").map Value.text = some "abab" ∧
      ∀ fuel, (s.runProgram fuel program).session.HoldsOnly Moderate ∧
        ∀ m ∈ (s.started (s.globalFrame (.ofInstructions program))).stages Progress.goesOn fuel,
          m.HoldsOnly Moderate := by
  intro s program
  have hs : s.AtRest := ⟨rfl, rfl, rfl, rfl⟩
  have hglobals : s.globals.HoldsOnly Moderate := by
    refine List.forall_mem_cons.mpr ⟨⟨.str, rfl⟩, List.forall_mem_singleton.mpr ?_⟩
    show "ab".utf8ByteSize ≤ maxStringBytes
    decide
  have hliterals : ∀ i ∈ program, ∀ text, i.literal? = some text →
      text.utf8ByteSize ≤ maxStringBytes := by
    simp [program, Instruction.literal?, Instruction.operand?]
    decide
  have hround : ((s.runProgram 6 program).session.globals.get? "x").map Value.text =
      some "abab" := by
    decide +kernel
  refine ⟨hs, hglobals, hround, ?_⟩
  intro fuel
  obtain ⟨hstages, -, hsession⟩ := strings_stay_short hs hglobals hliterals fuel
  exact ⟨hsession, fun m hm => (hstages m hm).1⟩

end Session

end Stackline
