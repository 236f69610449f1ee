/-!
# Attempts

Most of what a program can ask for may fail.  What such an attempt comes to is
taken apart here once: how a sequence of attempts succeeds, how it fails, and
what is left if a failed one changes nothing.
-/

namespace Stackline

/-! ## Attempts that succeed -/

theorem bind_eq_ok_iff
    {ε α γ : Type} {x : Except ε α} {g : α → Except ε γ} {c : γ} :
    (x >>= g) = .ok c ↔ ∃ a, x = .ok a ∧ g a = .ok c := by
  cases x <;> simp [bind, Except.bind]

theorem pure_eq_ok_iff
    {ε α : Type} {a c : α} :
    (pure a : Except ε α) = .ok c ↔ a = c := by
  simp [pure, Except.pure]

theorem mapError_eq_ok_iff
    {ε δ α : Type} {x : Except ε α} {g : ε → δ} {a : α} :
    x.mapError g = .ok a ↔ x = .ok a := by
  cases x with
  | ok b =>
      constructor
      · intro h
        cases h
        rfl
      · intro h
        cases h
        rfl
  | error e => exact iff_of_false nofun nofun

/-! ## Attempts that fail -/

theorem bind_eq_error_iff
    {ε α γ : Type} {x : Except ε α} {g : α → Except ε γ} {e : ε} :
    (x >>= g) = .error e ↔ x = .error e ∨ ∃ a, x = .ok a ∧ g a = .error e := by
  cases x <;> simp [bind, Except.bind]

theorem pure_ne_error
    {ε α : Type} {a : α} {e : ε} :
    ¬(pure a : Except ε α) = .error e :=
  nofun

theorem map_eq_error_iff
    {ε α γ : Type} {x : Except ε α} {g : α → γ} {e : ε} :
    x.map g = .error e ↔ x = .error e := by
  cases x with
  | ok a => exact iff_of_false nofun nofun
  | error cause =>
      constructor
      · intro h
        cases h
        rfl
      · intro h
        cases h
        rfl

theorem mapError_eq_error_iff
    {ε δ α : Type} {x : Except ε α} {g : ε → δ} {e : δ} :
    x.mapError g = .error e ↔ ∃ cause, x = .error cause ∧ g cause = e := by
  cases x with
  | ok a => exact iff_of_false nofun nofun
  | error cause =>
      constructor
      · intro h
        cases h
        exact ⟨cause, rfl, rfl⟩
      · rintro ⟨_, h, rfl⟩
        cases h
        rfl

/-! ## Attempts that change nothing if they fail -/

/-- What an attempt leads to, or what was there before if it fails.  It is meant for
attempts whose checks all come before their first change, as those of stacks, frames
and call stacks do: where they fail, what was there before is still what is there. -/
def orStay {ε α : Type} (x : Except ε α) (before : α) : α :=
  match x with
  | .ok a => a
  | .error _ => before

theorem orStay_induction
    {ε α : Type} {P : α → Prop} {x : Except ε α} {before : α}
    (hbefore : P before) (hok : ∀ a, x = .ok a → P a) :
    P (orStay x before) := by
  cases x with
  | ok a => exact hok a rfl
  | error e => exact hbefore

end Stackline
