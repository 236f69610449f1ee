import Stackline.Program.Code
import Stackline.Proofs.Program.Instruction

/-!
# Programs and their code

Code keeps its constants apart from its instructions, in a pool that an
instruction refers to by a slot.  None of this shows: code that is made from a
program holds the instructions of the program, and for each of them the constant
that its operand stands for.
-/

namespace Stackline

variable {β : Type}

namespace Code

/-- The code holds the program: its instructions and the constants that they
load. -/
structure Holds (c : Code β) (program : List Instruction) : Prop where
  instructions : c.instructions.toList = program
  constant : ∀ index,
    c.constant? index = (program[index]?.bind Instruction.literal?).map Value.ofLiteral
  /-- There is a slot for every instruction. -/
  slots : c.slots.size = program.length
  /-- What a slot refers to is in the pool. -/
  inPool : ∀ index place : Nat, c.slots[index]? = some (some place) → place < c.pool.size

theorem holds_empty : (empty : Code β).Holds [] where
  instructions := rfl
  constant _ := rfl
  slots := rfl
  inPool index place hslot := by simp [empty] at hslot

/-! ## Adding an instruction -/

theorem instructions_push
    (c : Code β) (i : Instruction) :
    (c.push i).instructions = c.instructions.push i := by
  unfold push
  split <;> rfl

theorem slots_push
    (c : Code β) (i : Instruction) :
    (c.push i).slots = c.slots.push (i.literal?.map fun _ => c.pool.size) := by
  unfold push
  split
  next text hliteral => rw [hliteral, Option.map_some]
  next hliteral => rw [hliteral, Option.map_none]

theorem size_pool_push
    (c : Code β) (i : Instruction) :
    (c.push i).pool.size = c.pool.size + i.literal?.toList.length := by
  unfold push
  split
  next text hliteral => simp [hliteral]
  next hliteral => simp [hliteral]

theorem getElem?_pool_push_of_lt
    {c : Code β} {place : Nat} (hplace : place < c.pool.size) (i : Instruction) :
    (c.push i).pool[place]? = c.pool[place]? := by
  unfold push
  split
  next =>
    rw [Array.getElem?_push, if_neg (Nat.ne_of_lt hplace)]
  next => rfl

theorem getElem?_pool_push_size
    (c : Code β) (i : Instruction) :
    (c.push i).pool[c.pool.size]? = i.literal?.map Value.ofLiteral := by
  unfold push
  split
  next text hliteral => simp [hliteral]
  next hliteral => simp [hliteral]

/-- A new instruction finds its own constant in the pool, and the others find
theirs where it was. -/
theorem Holds.constant?_push
    {c : Code β} {program : List Instruction} (hc : c.Holds program) (i : Instruction)
    (index : Nat) :
    (c.push i).constant? index =
      if index = program.length then i.literal?.map Value.ofLiteral else c.constant? index := by
  unfold constant?
  rw [slots_push, Array.getElem?_push, hc.slots]
  by_cases hlast : index = program.length
  · rw [if_pos hlast, if_pos hlast]
    have hconstant := c.getElem?_pool_push_size i
    cases hliteral : i.literal? with
    | none => rfl
    | some text =>
        rw [hliteral] at hconstant
        exact hconstant
  · rw [if_neg hlast, if_neg hlast]
    cases hslot : c.slots[index]?.join with
    | none => rfl
    | some place =>
        have hplace := hc.inPool index place (Option.join_eq_some_iff.mp hslot)
        exact getElem?_pool_push_of_lt hplace i

theorem Holds.push
    {c : Code β} {program : List Instruction} (hc : c.Holds program) (i : Instruction) :
    (c.push i).Holds (program ++ [i]) where
  instructions := by rw [instructions_push, Array.toList_push, hc.instructions]
  constant index := by
    rw [hc.constant?_push, hc.constant]
    rcases Nat.lt_trichotomy index program.length with hlt | heq | hgt
    · rw [if_neg (Nat.ne_of_lt hlt), List.getElem?_append_left hlt]
    · rw [if_pos heq, heq, List.getElem?_concat_length, Option.bind_some]
    · have hbefore : program.length ≤ index := Nat.le_of_lt hgt
      have hafter : (program ++ [i]).length ≤ index := by
        rw [List.length_append]
        exact hgt
      rw [if_neg (Nat.ne_of_gt hgt), List.getElem?_eq_none hbefore, List.getElem?_eq_none hafter]
  slots := by rw [slots_push, Array.size_push, hc.slots, List.length_append, List.length_singleton]
  inPool index place hslot := by
    rw [slots_push, Array.getElem?_push] at hslot
    rw [size_pool_push]
    split at hslot
    next =>
      cases hliteral : i.literal? with
      | none => simp [hliteral] at hslot
      | some text =>
          simp only [hliteral, Option.map_some, Option.some.injEq] at hslot
          simp [hslot]
    next => exact Nat.lt_add_right _ (hc.inPool index place hslot)

theorem holds_foldl_push
    {c : Code β} {done : List Instruction} (hc : c.Holds done) (rest : List Instruction) :
    (rest.foldl push c).Holds (done ++ rest) := by
  induction rest generalizing c done with
  | nil =>
      rw [List.append_nil]
      exact hc
  | cons i rest ih =>
      rw [List.append_cons]
      exact ih (hc.push i)

theorem holds_ofInstructions
    (program : List Instruction) :
    (ofInstructions program : Code β).Holds program :=
  holds_foldl_push holds_empty program

theorem constant?_ofInstructions
    (program : List Instruction) (index : Nat) :
    (ofInstructions program : Code β).constant? index =
      (program[index]?.bind Instruction.literal?).map Value.ofLiteral :=
  (holds_ofInstructions program).constant index

theorem instruction?_ofInstructions
    (program : List Instruction) (index : Nat) :
    (ofInstructions program : Code β).instruction? index = program[index]? := by
  have hholds : (ofInstructions program : Code β).Holds program := holds_ofInstructions program
  rw [instruction?, ← Array.getElem?_toList, hholds.instructions]

/-! ## The pool as a whole -/

theorem toList_pool_push
    (c : Code β) (i : Instruction) :
    (c.push i).pool.toList = c.pool.toList ++ (i.literal?.map Value.ofLiteral).toList := by
  unfold push
  split
  next text hliteral => simp [hliteral]
  next hliteral => simp [hliteral]

theorem toList_pool_foldl_push
    (c : Code β) (rest : List Instruction) :
    (rest.foldl push c).pool.toList =
      c.pool.toList ++ rest.filterMap fun i => i.literal?.map Value.ofLiteral := by
  induction rest generalizing c with
  | nil => simp
  | cons i rest ih =>
      rw [List.foldl_cons, ih, toList_pool_push, List.append_assoc]
      cases hliteral : i.literal? with
      | none => simp [hliteral]
      | some text => simp [hliteral]

/-- The pool holds the constants of the program in the order of the instructions. -/
theorem toList_pool_ofInstructions
    (program : List Instruction) :
    (ofInstructions program : Code β).pool.toList =
      program.filterMap fun i => i.literal?.map Value.ofLiteral :=
  toList_pool_foldl_push empty program

end Code

/-- The code of a program with all its operands lacks no constant. -/
theorem Code.constant?_ofInstructions_ne_none
    {program : List Instruction} {index : Nat} {i : Instruction}
    (hi : program[index]? = some i) (hcomplete : i.Complete) (hop : i.opcode = .loadConst) :
    (ofInstructions program : Code β).constant? index ≠ none := by
  have hoperand : i.operand? 0 ≠ none := by
    apply hcomplete.operand?_ne_none
    rw [hop]
    decide
  rw [constant?_ofInstructions, hi, Option.bind_some, Instruction.literal?, if_pos hop]
  simpa using hoperand

end Stackline
