import Stackline.Text.Repetition

/-!
# Texts that are written several times

A repeated text is the join of as many copies.  It is built from left to right and, if it is
empty, not built at all, but neither can be seen in the result.  So counts add up, and with
them bytes and characters.
-/

namespace Stackline
namespace Text

theorem repeatOnto_eq
    (s : String) (n : Nat) (before : String) :
    repeatOnto s n before = before ++ String.join (List.replicate n s) := by
  induction n generalizing before with
  | zero => simp [repeatOnto]
  | succ n ih =>
      rw [repeatOnto, ih, List.replicate_succ, String.join_cons, String.append_assoc]

theorem join_replicate_empty
    (n : Nat) :
    String.join (List.replicate n "") = "" := by
  induction n with
  | zero => rfl
  | succ n ih => rw [List.replicate_succ, String.join_cons, ih, String.append_empty]

/-- A repeated text is the join of its copies. -/
theorem repeated_eq_join
    (n : Nat) (s : String) :
    repeated n s = String.join (List.replicate n s) := by
  unfold repeated
  split
  next hempty => rw [String.isEmpty_iff.mp hempty, join_replicate_empty]
  next => rw [repeatOnto_eq, String.empty_append]

@[simp] theorem repeated_zero
    (s : String) :
    repeated 0 s = "" := by
  rw [repeated_eq_join, List.replicate_zero, String.join_nil]

@[simp] theorem repeated_succ
    (n : Nat) (s : String) :
    repeated (n + 1) s = s ++ repeated n s := by
  rw [repeated_eq_join, List.replicate_succ, String.join_cons, ← repeated_eq_join]

theorem repeated_add
    (m n : Nat) (s : String) :
    repeated (m + n) s = repeated m s ++ repeated n s := by
  induction m with
  | zero => rw [Nat.zero_add, repeated_zero, String.empty_append]
  | succ m ih =>
      rw [Nat.succ_add, repeated_succ, ih, repeated_succ, String.append_assoc]

theorem utf8ByteSize_repeated
    (n : Nat) (s : String) :
    (repeated n s).utf8ByteSize = s.utf8ByteSize * n := by
  induction n with
  | zero => simp
  | succ n ih =>
      rw [repeated_succ, String.utf8ByteSize_append, ih, Nat.mul_succ, Nat.add_comm]

theorem length_repeated
    (n : Nat) (s : String) :
    (repeated n s).length = s.length * n := by
  induction n with
  | zero => simp
  | succ n ih =>
      rw [repeated_succ, String.length_append, ih, Nat.mul_succ, Nat.add_comm]

end Text
end Stackline
