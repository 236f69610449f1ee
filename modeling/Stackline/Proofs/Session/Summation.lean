import Stackline.Proofs.Machine.Solo
import Stackline.Proofs.Program.Loading
import Stackline.Proofs.Session.Startup
import Stackline.Proofs.Value.Natural

/-!
# A program that adds up numbers

The program counts `i` from a number down to zero and adds every `i` to `total`.  Once
around its loop takes eleven steps, and what holds at the head of the loop is that
`total` and the numbers still to be added make up the whole sum.  The sums on the way
only grow, so if the whole sum fits a word, all of them do; and if it does not, one of
the additions is the first to fail.
-/

namespace Stackline
namespace Summation

open Decimal Machine

variable {β : Type}

/-! ## The program -/

/-- The program after its first instruction, which loads the number. -/
def body : List Instruction :=
  [⟨.storeVar, ["i"]⟩, ⟨.loadConst, ["0"]⟩, ⟨.storeVar, ["total"]⟩,
    -- The head of the loop, at index 4.
    ⟨.loadVar, ["i"]⟩, ⟨.jumpIfFalse, ["15"]⟩,
    ⟨.loadVar, ["total"]⟩, ⟨.loadVar, ["i"]⟩, ⟨.add, []⟩, ⟨.storeVar, ["total"]⟩,
    ⟨.loadVar, ["i"]⟩, ⟨.loadConst, ["1"]⟩, ⟨.sub, []⟩, ⟨.storeVar, ["i"]⟩,
    ⟨.jump, ["4"]⟩, ⟨.loadVar, ["total"]⟩, ⟨.returnVal, []⟩]

/-- The program that adds up the numbers from `n` down. -/
def program (n : Nat) : List Instruction :=
  ⟨.loadConst, [Decimal.ofNat n]⟩ :: body

/-- The text of the program. -/
def text (n : Nat) : String :=
  Text.unlines
    ["# total = 1 + 2 + ... + 10",
      "LOAD_CONST " ++ Decimal.ofNat n, "STORE_VAR i",
      "LOAD_CONST 0", "STORE_VAR total",
      "LOAD_VAR i", "JUMP_IF_FALSE 15",
      "LOAD_VAR total", "LOAD_VAR i", "ADD", "STORE_VAR total",
      "LOAD_VAR i", "LOAD_CONST 1", "SUB", "STORE_VAR i",
      "JUMP 4", "LOAD_VAR total", "RETURN_VAL"]

theorem legible_body : ∀ i ∈ body, i.Legible := by
  have hread : Source.read ((body.map Instruction.text).zipIdx 1) = .ok body := by
    decide +kernel
  exact Source.legible_of_read hread

theorem legible_program
    (n : Nat) :
    ∀ i ∈ program n, i.Legible := by
  refine List.forall_mem_cons.mpr ⟨⟨rfl, ?_⟩, legible_body⟩
  intro w hw
  obtain rfl := List.mem_singleton.mp hw
  rw [Decimal.ofNat, String.toList_ofList]
  exact (writes_toDigits n).isWord

theorem text_eq
    (n : Nat) :
    text n = "# total = 1 + 2 + ... + 10" ++ "\n" ++
      Source.fileText ((program n).map Instruction.text) := by
  have hfirst : "LOAD_CONST " ++ Decimal.ofNat n =
      Instruction.text ⟨.loadConst, [Decimal.ofNat n]⟩ := by
    rw [Instruction.text, String.intercalate_cons_cons, String.intercalate_singleton]
    rfl
  have hne : (program n).map Instruction.text ≠ [] := List.cons_ne_nil _ _
  rw [Source.fileText_eq_unlines hne, ← Text.unlines_cons, text, hfirst]
  rfl

/-- The text is read as the program. -/
theorem parse_load_text
    (n : Nat) :
    Source.parse (Source.load (text n)) = .ok (program n) := by
  obtain ⟨hload, hparse⟩ := Source.load_fileText_map_text (legible_program n)
  have hcomment : Source.load "# total = 1 + 2 + ... + 10" = [] := by decide +kernel
  rw [text_eq, Source.load_append, hcomment, hload, List.nil_append, hparse]

/-! ## The loop -/

/-- The globals in the course of the program. -/
def tally (g : Bindings β) (i total : Nat) : Bindings β :=
  (g.set "i" (.nat i)).set "total" (.nat total)

section Globals

variable (g : Bindings β) (i total : Nat)

theorem get?_tally_i :
    (tally g i total).get? "i" = some (.nat i) := by
  rw [tally, Bindings.get?_set_of_ne (by decide), Bindings.get?_set_self]

theorem get?_tally_total :
    (tally g i total).get? "total" = some (.nat total) := by
  rw [tally, Bindings.get?_set_self]

theorem get?_tally_of_ne
    {name : String} (hi : "i" ≠ name) (htotal : "total" ≠ name) :
    (tally g i total).get? name = g.get? name := by
  rw [tally, Bindings.get?_set_of_ne htotal, Bindings.get?_set_of_ne hi]

theorem set_tally_total
    (next : Nat) :
    (tally g i total).set "total" (.nat next) = tally g i next := by
  rw [tally, Bindings.set_set_self, tally]

theorem set_tally_i
    (next : Nat) :
    (tally g i total).set "i" (.nat next) = tally g next total := by
  rw [tally, Bindings.set_set_set_of_ne (by decide), tally]

end Globals

/-- The program on a machine. -/
def solo (m : Machine β) (room n : Nat) : Solo β :=
  { machine := m, program := program n, room }

section Loop

variable [Host β] {m : Machine β} {room n : Nat} {g : Bindings β} {i total : Nat}

/-- The number is loaded into `i`, and `total` is zero. -/
theorem reaches_head
    (hroom : 2 ≤ room) (hn : FitsWord n) :
    let w := solo m room n
    Reaches 4 (w.state 0 [] g) (w.state 4 [] (tally g n 0)) := by
  intro w
  have hempty : 0 < w.room := Nat.lt_of_lt_of_le Nat.zero_lt_two hroom
  calc
    Reaches 1 (w.state 0 [] g) (w.state 1 [.nat n] g) :=
      Solo.reaches_loadConst rfl (Value.ofLiteral_ofNat hn) hempty
    Reaches 1 _ (w.state 2 [] (g.set "i" (.nat n))) := Solo.reaches_storeVar rfl rfl
    Reaches 1 _ (w.state 3 [.nat 0] (g.set "i" (.nat n))) := Solo.reaches_loadConst rfl rfl hempty
    Reaches 1 _ (w.state 4 [] (tally g n 0)) := Solo.reaches_storeVar rfl rfl

/-- With `i` not yet at zero, the next thing to do is to add it to `total`. -/
theorem reaches_addition
    (hroom : 2 ≤ room) (hi : FitsWord i) (hpos : i ≠ 0) :
    let w := solo m room n
    let g' := tally g i total
    Reaches 4 (w.state 4 [] g') (w.state 8 [.nat i, .nat total] g') := by
  intro w g'
  have hempty : 0 < w.room := Nat.lt_of_lt_of_le Nat.zero_lt_two hroom
  have htrue : (.nat i : Value β).truthy = true := by
    rw [Value.truthy_nat hi]
    exact decide_eq_true hpos
  calc
    Reaches 1 (w.state 4 [] g') (w.state 5 [.nat i] g') :=
      Solo.reaches_loadVar rfl (get?_tally_i g i total) hempty
    Reaches 1 _ (w.state 6 [] g') := Solo.reaches_jumpIfFalse_of_true rfl rfl htrue
    Reaches 1 _ (w.state 7 [.nat total] g') :=
      Solo.reaches_loadVar rfl (get?_tally_total g i total) hempty
    Reaches 1 _ (w.state 8 [.nat i, .nat total] g') :=
      Solo.reaches_loadVar rfl (get?_tally_i g i total) hroom

/-- If the addition succeeds, the loop starts over with the number below. -/
theorem reaches_head_of_addition
    (hroom : 2 ≤ room) (hsum : FitsWord (total + (i + 1))) :
    let w := solo m room n
    Reaches 7 (w.state 8 [.nat (i + 1), .nat total] (tally g (i + 1) total))
      (w.state 4 [] (tally g i (total + (i + 1)))) := by
  intro w
  have hempty : 0 < w.room := Nat.lt_of_lt_of_le Nat.zero_lt_two hroom
  have hi : FitsWord (i + 1) := hsum.of_le (Nat.le_add_left _ _)
  have hadd : w.program[8]? = some ⟨Operator.add.opcode, []⟩ := rfl
  have hsub : w.program[12]? = some ⟨Operator.sub.opcode, []⟩ := rfl
  have hhead : 4 < w.program.length := Nat.lt_add_of_pos_right (Nat.zero_lt_succ 12)
  calc
    Reaches 1 (w.state 8 [.nat (i + 1), .nat total] (tally g (i + 1) total))
        (w.state 9 [.nat (total + (i + 1))] (tally g (i + 1) total)) :=
      Solo.reaches_operator hadd (Value.apply_add_nat_of_fitsWord hsum) hempty
    Reaches 1 _ (w.state 10 [] (tally g (i + 1) (total + (i + 1)))) :=
      Solo.reaches_storeVar rfl (set_tally_total g _ _ _)
    Reaches 1 _ (w.state 11 [.nat (i + 1)] (tally g (i + 1) (total + (i + 1)))) :=
      Solo.reaches_loadVar rfl (get?_tally_i g _ _) hempty
    Reaches 1 _ (w.state 12 [.nat 1, .nat (i + 1)] (tally g (i + 1) (total + (i + 1)))) :=
      Solo.reaches_loadConst rfl rfl hroom
    Reaches 1 _ (w.state 13 [.nat i] (tally g (i + 1) (total + (i + 1)))) :=
      Solo.reaches_operator hsub (Value.apply_sub_nat hi) hempty
    Reaches 1 _ (w.state 14 [] (tally g i (total + (i + 1)))) :=
      Solo.reaches_storeVar rfl (set_tally_i g _ _ _)
    Reaches 1 _ (w.state 4 [] (tally g i (total + (i + 1)))) :=
      Solo.reaches_jump rfl rfl hhead

/-- Once around the loop, `i` has gone over to `total`. -/
theorem reaches_round
    (hroom : 2 ≤ room) (hsum : FitsWord (total + (i + 1))) :
    let w := solo m room n
    Reaches 11 (w.state 4 [] (tally g (i + 1) total))
      (w.state 4 [] (tally g i (total + (i + 1)))) := by
  intro w
  have hi : FitsWord (i + 1) := hsum.of_le (Nat.le_add_left _ _)
  calc
    Reaches 4 (w.state 4 [] (tally g (i + 1) total)) _ :=
      reaches_addition hroom hi (Nat.succ_ne_zero i)
    Reaches 7 _ (w.state 4 [] (tally g i (total + (i + 1)))) :=
      reaches_head_of_addition hroom hsum

/-- With `i` at zero, `total` is loaded to be returned. -/
theorem reaches_return
    (hroom : 2 ≤ room) :
    let w := solo m room n
    let g' := tally g 0 total
    Reaches 3 (w.state 4 [] g') (w.state 16 [.nat total] g') := by
  intro w g'
  have hempty : 0 < w.room := Nat.lt_of_lt_of_le Nat.zero_lt_two hroom
  have hend : 15 < w.program.length := Nat.lt_add_of_pos_right (Nat.zero_lt_succ 1)
  calc
    Reaches 1 (w.state 4 [] g') (w.state 5 [.nat 0] g') :=
      Solo.reaches_loadVar rfl (get?_tally_i g 0 total) hempty
    Reaches 1 _ (w.state 15 [] g') :=
      Solo.reaches_jumpIfFalse_of_false rfl rfl hend rfl
    Reaches 1 _ (w.state 16 [.nat total] g') :=
      Solo.reaches_loadVar rfl (get?_tally_total g 0 total) hempty

theorem triangle_succ
    (i : Nat) :
    (i + 1) * (i + 1 + 1) / 2 = i * (i + 1) / 2 + (i + 1) := by
  have hdouble : (i + 1) * (i + 1 + 1) = i * (i + 1) + (i + 1) * 2 := by
    rw [Nat.mul_comm i, ← Nat.mul_add]
  rw [hdouble, Nat.add_mul_div_right _ _ Nat.zero_lt_two]

/-- If the whole sum fits, `total` comes to it. -/
theorem reaches_sum
    (hroom : 2 ≤ room) (hsum : FitsWord (total + i * (i + 1) / 2)) :
    let w := solo m room n
    Reaches (11 * i) (w.state 4 [] (tally g i total))
      (w.state 4 [] (tally g 0 (total + i * (i + 1) / 2))) := by
  intro w
  induction i generalizing total with
  | zero => exact rfl
  | succ i ih =>
      rw [triangle_succ, Nat.add_comm (_ / 2), ← Nat.add_assoc] at hsum ⊢
      -- What has been added so far is a part of the whole sum, so it fits too.
      have hnext : FitsWord (total + (i + 1)) := hsum.of_le (Nat.le_add_right _ _)
      rw [Nat.mul_succ, Nat.add_comm]
      calc
        Reaches 11 (w.state 4 [] (tally g (i + 1) total)) _ := reaches_round hroom hnext
        Reaches (11 * i) _ _ := ih hsum

/-- If the whole sum does not fit, an addition is reached that cannot be carried out. -/
theorem exists_reaches_overflow
    (hroom : 2 ≤ room) (hi : FitsWord i) (htotal : FitsWord total)
    (hsum : ¬FitsWord (total + i * (i + 1) / 2)) :
    let w := solo m room n
    ∃ (k a b : Nat) (g' : Bindings β), k < 11 * i ∧
      Reaches k (w.state 4 [] (tally g i total)) (w.state 8 [.nat b, .nat a] g') ∧
      Value.apply .add (.nat a : Value β) (.nat b) = .error (.integerOverflow .add) := by
  intro w
  induction i generalizing total with
  | zero => exact absurd htotal hsum
  | succ i ih =>
      by_cases hnext : FitsWord (total + (i + 1))
      · have hrest : ¬FitsWord (total + (i + 1) + i * (i + 1) / 2) := by
          rwa [triangle_succ, Nat.add_comm (_ / 2), ← Nat.add_assoc] at hsum
        obtain ⟨k, a, b, g', hk, hreaches, hfails⟩ :=
          ih (hi.of_le (Nat.le_succ i)) hnext hrest
        have hround : Reaches 11 (w.state 4 [] (tally g (i + 1) total)) _ :=
          reaches_round hroom hnext
        exact ⟨11 + k, a, b, g', by omega, hround.trans hreaches, hfails⟩
      · -- This is the addition that fails.
        exact ⟨4, total, i + 1, _, by omega, reaches_addition hroom hi (Nat.succ_ne_zero i),
          Value.apply_add_nat_of_not_fitsWord htotal hi hnext⟩

/-! ## The whole run -/

theorem runFrom_of_fitsWord
    (hroom : 2 ≤ room) (hn : FitsWord n) (hsum : FitsWord (n * (n + 1) / 2)) {fuel : Nat}
    (hfuel : 11 * n + 8 ≤ fuel) (output : Output β) :
    let x := runFrom fuel ((solo m room n).state 0 [] g) output
    x.ending = .finished (some (.nat (n * (n + 1) / 2))) ∧
      x.machine.scopes.globals = tally g 0 (n * (n + 1) / 2) := by
  have hloop : Reaches (11 * n) ((solo m room n).state 4 [] (tally g n 0)) _ :=
    reaches_sum hroom (by rwa [Nat.zero_add])
  rw [Nat.zero_add] at hloop
  have hreturn := ((reaches_head hroom hn).trans hloop).trans (reaches_return hroom)
  obtain ⟨rest, rfl⟩ : ∃ rest, fuel = 4 + 11 * n + 3 + (rest + 1) :=
    ⟨fuel - (11 * n + 8), by omega⟩
  obtain ⟨output', hrun⟩ :=
    runFrom_of_reaches hreturn (List.cons_ne_nil _ _) (rest + 1) output
  rw [hrun]
  exact Solo.runFrom_returnVal rfl rest output'

theorem runFrom_of_not_fitsWord
    (hroom : 2 ≤ room) (hn : FitsWord n) (hsum : ¬FitsWord (n * (n + 1) / 2)) {fuel : Nat}
    (hfuel : 11 * n + 8 ≤ fuel) (output : Output β) :
    (runFrom fuel ((solo m room n).state 0 [] g) output).ending =
      .failed (.instruction 8 .add 1 (.integerOverflow .add)) := by
  have hzero : FitsWord 0 := hn.of_le (Nat.zero_le n)
  obtain ⟨k, a, b, g', hk, hloop, hfails⟩ :=
    exists_reaches_overflow (m := m) (n := n) (g := g) hroom hn hzero (by rwa [Nat.zero_add])
  have haddition := (reaches_head hroom hn).trans hloop
  obtain ⟨rest, rfl⟩ : ∃ rest, fuel = 4 + k + (rest + 1) := ⟨fuel - (4 + k + 1), by omega⟩
  obtain ⟨output', hrun⟩ :=
    runFrom_of_reaches haddition (List.cons_ne_nil _ _) (rest + 1) output
  have hadd : (solo m room n).program[8]? = some ⟨Operator.add.opcode, []⟩ := rfl
  rw [hrun]
  exact Solo.runFrom_operator_error hadd hfails rest output'

end Loop

section Sessions

open Session

theorem started_eq_state
    {s : Session β} (hs : s.AtRest) (n : Nat) :
    s.started (s.globalFrame (.ofInstructions (program n))) =
      (solo { s.machine with returned := none } s.settings.maxStackSize n).state 0 []
        s.globals := by
  rw [started, hs.frames]
  rfl

/-- A run of the text is a run of the program in the only frame of the session. -/
theorem runText_text [Host β]
    {s : Session β} (hs : s.AtRest) (hdepth : 1 ≤ s.settings.maxCallDepth) (fuel n : Nat) :
    ∃ output,
      let x := runFrom fuel
        ((solo { s.machine with returned := none } s.settings.maxStackSize n).state 0 []
          s.globals) output
      (s.runText fuel (text n)).ending = x.ending.mapError .run ∧
        ∀ value, x.ending = .finished value →
          (s.runText fuel (text n)).session.globals = x.machine.scopes.globals := by
  have hprogram : s.runText fuel (text n) = s.runProgram fuel (program n) := by
    rw [runText, runLines, parse_load_text]
  obtain ⟨output, hending, hmachine⟩ :=
    run_of_room (f := s.globalFrame (.ofInstructions (program n))) (hs.room hdepth) fuel
  rw [started_eq_state hs] at hending hmachine
  refine ⟨output, ?_, ?_⟩
  · rw [hprogram, runProgram, hending]
  · intro value hfinished
    rw [hfinished] at hmachine
    rw [hprogram, runProgram, globals, hmachine]

end Sessions

/-- Whatever the session has done before, and with any settings that give room for two
values and one frame, the program ends.  If the sum of the numbers up to `n` fits a word,
it is the value of the run and the last value of `total`, with `i` at zero and every other
global as it was.  Otherwise the addition fails. -/
theorem runs_to_sum_or_overflow [Host β]
    {s : Session β} (hs : s.AtRest) (hstack : 2 ≤ s.settings.maxStackSize)
    (hdepth : 1 ≤ s.settings.maxCallDepth) {n fuel : Nat} (hn : FitsWord n)
    (hfuel : 11 * n + 8 ≤ fuel) :
    let sum := n * (n + 1) / 2
    let r := s.runText fuel (text n)
    (FitsWord sum →
      r.ending = .finished (some (.int (Int64.ofNat sum))) ∧
      r.session.globals.get? "i" = some (.int 0) ∧
      r.session.globals.get? "total" = some (.int (Int64.ofNat sum)) ∧
      ∀ name, name ≠ "i" → name ≠ "total" →
        r.session.globals.get? name = s.globals.get? name) ∧
    (¬FitsWord sum →
      r.ending = .failed (.run (.instruction 8 .add 1 (.integerOverflow .add)))) := by
  intro sum r
  obtain ⟨output, hending, hglobals⟩ := runText_text hs hdepth fuel n
  constructor
  · intro hsum
    obtain ⟨hfinished, htally⟩ := runFrom_of_fitsWord hstack hn hsum hfuel output
    have hr : r.session.globals = tally s.globals 0 sum := (hglobals _ hfinished).trans htally
    refine ⟨?_, ?_, ?_, ?_⟩
    · rw [hending, hfinished]
      rfl
    · rw [hr, get?_tally_i]
      rfl
    · rw [hr, get?_tally_total]
      rfl
    · intro name hi htotal
      rw [hr, get?_tally_of_ne s.globals 0 sum hi.symm htotal.symm]
  · intro hsum
    rw [hending, runFrom_of_not_fitsWord hstack hn hsum hfuel output]
    rfl

/-- There is room for no more than the program needs.  The numbers up to ten add up to
fifty-five, and those up to `2 ^ 32` to more than a word holds. -/
theorem runs_to_sum_or_overflow_ten :
    let s : Session Standard := .new { maxStackSize := 2, maxCallDepth := 1 }
    (s.runText 118 (text 10)).ending = .finished (some (.int 55)) ∧
      (s.runText 118 (text 10)).session.globals.get? "total" = some (.int 55) ∧
      (s.runText (11 * 4294967296 + 8) (text 4294967296)).ending =
        .failed (.run (.instruction 8 .add 1 (.integerOverflow .add))) := by
  intro s
  have hs : s.AtRest := Session.atRest_new _
  have hten : FitsWord 10 := fitsWord_iff.mpr (by decide)
  have hlarge : FitsWord 4294967296 := fitsWord_iff.mpr (by decide)
  have hsum : FitsWord 55 := fitsWord_iff.mpr (by decide)
  have htoo : ¬FitsWord (4294967296 * (4294967296 + 1) / 2) := by
    rw [fitsWord_iff]
    decide
  obtain ⟨hending, -, htotal, -⟩ :=
    (runs_to_sum_or_overflow hs (Nat.le_refl 2) (Nat.le_refl 1) hten (Nat.le_refl 118)).1 hsum
  have hfailed := (runs_to_sum_or_overflow hs (Nat.le_refl 2) (Nat.le_refl 1) hlarge
    (Nat.le_refl (11 * 4294967296 + 8))).2 htoo
  exact ⟨hending, htotal, hfailed⟩

end Summation
end Stackline
