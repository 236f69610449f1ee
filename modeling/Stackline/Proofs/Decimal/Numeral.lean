import Stackline.Decimal.Numeral
import Stackline.Proofs.Decimal.Integer

/-!
# The grammar of numerals

A numeral is read in one pass: the sign is taken off, then the digits up to a point, those
behind it, and the exponent.  Here the same texts are told by a grammar, which says how a
numeral is put together and nothing about how it is taken apart.  Every text of the grammar
is taken apart as it was put together, because neither a point nor the mark of an exponent
is a digit, so it is read; and no other text is.
-/

namespace Stackline
namespace Decimal

/-! ## How numerals are put together -/

/-- Nothing, or a mark and digits with at most one sign in front. -/
inductive IsExponent : List Char → Prop where
  | absent : IsExponent []
  | present {mark : Char} {cs : List Char} {n : Int} (hmark : mark = 'e' ∨ mark = 'E')
      (hcs : WritesInt cs n) : IsExponent (mark :: cs)

/-- A word for a number that has no digits, its letters in either case. -/
def IsSpecial (cs : List Char) : Prop :=
  cs.map Char.toLower ∈ ["inf".toList, "infinity".toList, "nan".toList]

/-- A number without its sign. -/
inductive IsMagnitude : List Char → Prop where
  | special {cs : List Char} (hcs : IsSpecial cs) : IsMagnitude cs
  /-- Digits without a point. -/
  | whole {digits exponent : List Char} {n : Nat} (hdigits : Writes digits n)
      (hexponent : IsExponent exponent) : IsMagnitude (digits ++ exponent)
  /-- Digits before a point, behind it, or on both sides. -/
  | pointed {whole fraction exponent : List Char} {n : Nat} (hdigits : Writes (whole ++ fraction) n)
      (hexponent : IsExponent exponent) : IsMagnitude (whole ++ '.' :: (fraction ++ exponent))

/-- A number with at most one sign in front. -/
inductive IsNumeral : List Char → Prop where
  | plain {cs : List Char} (hcs : IsMagnitude cs) : IsNumeral cs
  | plus {cs : List Char} (hcs : IsMagnitude cs) : IsNumeral ('+' :: cs)
  | minus {cs : List Char} (hcs : IsMagnitude cs) : IsNumeral ('-' :: cs)

theorem Writes.isNumeral
    {cs : List Char} {n : Nat} (hcs : Writes cs n) :
    IsNumeral cs := by
  have hwhole : IsMagnitude (cs ++ []) := .whole hcs .absent
  rw [List.append_nil] at hwhole
  exact .plain hwhole

/-! ## Exponents -/

theorem exponent?_eq_none_iff
    {cs : List Char} :
    exponent? cs = none ↔ ¬IsExponent cs := by
  match cs with
  | [] => exact iff_of_false nofun (not_not_intro .absent)
  | c :: cs =>
      by_cases hmark : c = 'e' ∨ c = 'E'
      · rw [exponent?, if_pos hmark, integer?_eq_none_iff]
        apply not_congr
        constructor
        · rintro ⟨n, hcs⟩
          exact .present hmark hcs
        · intro hexponent
          match hexponent with
          | .present _ hcs => exact ⟨_, hcs⟩
      · rw [exponent?, if_neg hmark]
        refine iff_of_true rfl ?_
        intro hexponent
        match hexponent with
        | .present hmark' _ => exact hmark hmark'

/-- What follows the digits does not look like more of them. -/
theorem IsExponent.of_head?
    {cs : List Char} (hcs : IsExponent cs) {c : Char} (hc : cs.head? = some c) :
    c.isDigit = false ∧ c ≠ '.' := by
  match hcs with
  | .present hmark _ =>
      rw [← Option.some.inj hc]
      rcases hmark with rfl | rfl
      · decide
      · decide

/-! ## Digits on both sides of a point -/

section Split

variable {whole fraction rest : List Char}

/-- Digits end where no digit follows. -/
theorem span_digits
    {digits : List Char} (hdigits : ∀ c ∈ digits, c.isDigit = true)
    (hrest : ∀ c, rest.head? = some c → c.isDigit = false) :
    (digits ++ rest).takeWhile Char.isDigit = digits ∧
      (digits ++ rest).dropWhile Char.isDigit = rest := by
  have hdrop : (digits ++ rest).dropWhile Char.isDigit = rest := by
    rw [List.dropWhile_append_of_pos hdigits]
    exact Text.dropWhile_eq_self hrest
  have hboth : (digits ++ rest).takeWhile Char.isDigit ++ (digits ++ rest).dropWhile Char.isDigit =
      digits ++ rest := List.takeWhile_append_dropWhile
  rw [hdrop] at hboth
  exact ⟨List.append_cancel_right hboth, hdrop⟩

theorem splitPoint_of_point
    {cs : List Char} (hpoint : cs.dropWhile Char.isDigit = '.' :: rest) :
    splitPoint cs =
      (cs.takeWhile Char.isDigit, rest.takeWhile Char.isDigit, rest.dropWhile Char.isDigit) := by
  simp only [splitPoint, hpoint]

theorem splitPoint_of_no_point
    {cs : List Char} (hpoint : ∀ rest, cs.dropWhile Char.isDigit ≠ '.' :: rest) :
    splitPoint cs = (cs.takeWhile Char.isDigit, [], cs.dropWhile Char.isDigit) := by
  unfold splitPoint
  split
  next rest hrest => exact absurd hrest (hpoint rest)
  next => rfl

theorem splitPoint_whole
    (hwhole : ∀ c ∈ whole, c.isDigit = true)
    (hrest : ∀ c, rest.head? = some c → c.isDigit = false ∧ c ≠ '.') :
    splitPoint (whole ++ rest) = (whole, [], rest) := by
  obtain ⟨htake, hdrop⟩ := span_digits hwhole fun c hc => (hrest c hc).1
  have hpoint : ∀ more, rest ≠ '.' :: more := by
    rintro more rfl
    exact (hrest '.' List.head?_cons).2 rfl
  rw [splitPoint_of_no_point, htake, hdrop]
  rwa [hdrop]

theorem splitPoint_pointed
    (hwhole : ∀ c ∈ whole, c.isDigit = true) (hfraction : ∀ c ∈ fraction, c.isDigit = true)
    (hrest : ∀ c, rest.head? = some c → c.isDigit = false) :
    splitPoint (whole ++ '.' :: (fraction ++ rest)) = (whole, fraction, rest) := by
  have hpoint : ∀ c, ('.' :: (fraction ++ rest)).head? = some c → c.isDigit = false := by
    intro c hc
    rw [← Option.some.inj hc]
    rfl
  obtain ⟨htake, hdrop⟩ := span_digits hwhole hpoint
  obtain ⟨htake', hdrop'⟩ := span_digits hfraction hrest
  rw [splitPoint_of_point hdrop, htake, htake', hdrop']

/-- What a text is taken apart into: its digits, and what follows them. -/
theorem splitPoint_cases
    (cs : List Char) :
    ∃ whole fraction rest, splitPoint cs = (whole, fraction, rest) ∧
      (∀ c ∈ whole ++ fraction, c.isDigit = true) ∧
      (cs = whole ++ rest ∧ fraction = [] ∨ cs = whole ++ '.' :: (fraction ++ rest)) := by
  have hdigits : ∀ cs : List Char, ∀ c ∈ cs.takeWhile Char.isDigit, c.isDigit = true :=
    fun _ => List.all_eq_true.mp List.all_takeWhile
  have hwhole : cs.takeWhile Char.isDigit ++ cs.dropWhile Char.isDigit = cs :=
    List.takeWhile_append_dropWhile
  by_cases hpoint : ∃ rest, cs.dropWhile Char.isDigit = '.' :: rest
  · obtain ⟨rest, hrest⟩ := hpoint
    refine ⟨_, _, _, splitPoint_of_point hrest, ?_, .inr ?_⟩
    · exact List.forall_mem_append.mpr ⟨hdigits cs, hdigits rest⟩
    · rw [List.takeWhile_append_dropWhile, ← hrest, hwhole]
  · refine ⟨_, _, _, splitPoint_of_no_point (not_exists.mp hpoint), ?_, .inl ⟨hwhole.symm, rfl⟩⟩
    rw [List.append_nil]
    exact hdigits cs

end Split

/-! ## Numbers without a sign -/

section Magnitude

variable {cs whole fraction rest : List Char}

theorem isSpecial_iff :
    IsSpecial cs ↔
      (String.ofList (cs.map Char.toLower) = "inf" ∨
        String.ofList (cs.map Char.toLower) = "infinity") ∨
      String.ofList (cs.map Char.toLower) = "nan" := by
  have hlower : ∀ word : String, cs.map Char.toLower = word.toList ↔
      String.ofList (cs.map Char.toLower) = word := by
    intro word
    rw [← String.toList_inj, String.toList_ofList]
  simp only [IsSpecial, List.mem_cons, List.not_mem_nil, or_false, hlower, or_assoc]

theorem magnitude?_of_isSpecial
    (hcs : IsSpecial cs) :
    magnitude? cs ≠ none := by
  rcases isSpecial_iff.mp hcs with hinfinity | hnan
  · simp [magnitude?, hinfinity]
  · simp [magnitude?, hnan]

theorem magnitude?_of_not_isSpecial
    (hcs : ¬IsSpecial cs) (hsplit : splitPoint cs = (whole, fraction, rest)) :
    magnitude? cs = none ↔ whole ++ fraction = [] ∨ exponent? rest = none := by
  obtain ⟨hinfinity, hnan⟩ := not_or.mp (mt isSpecial_iff.mpr hcs)
  simp only [magnitude?, if_neg hinfinity, if_neg hnan, hsplit]
  by_cases hnone : whole ++ fraction = []
  · have hempty : (whole.isEmpty && fraction.isEmpty) = true := by simpa using hnone
    rw [if_pos hempty]
    exact iff_of_true rfl (.inl hnone)
  · have hempty : ¬(whole.isEmpty && fraction.isEmpty) = true := by simpa using hnone
    rw [if_neg hempty, Option.map_eq_none_iff]
    exact (or_iff_right hnone).symm

/-- A number that is no word is in the grammar if the parts are that it is taken apart into. -/
theorem isMagnitude_iff_of_not_isSpecial
    (hcs : ¬IsSpecial cs) (hsplit : splitPoint cs = (whole, fraction, rest)) :
    IsMagnitude cs ↔ whole ++ fraction ≠ [] ∧ IsExponent rest := by
  constructor
  · intro hmagnitude
    match hmagnitude with
    | .special hcs' => exact absurd hcs' hcs
    | .whole hdigits hexponent =>
        rw [splitPoint_whole hdigits.digits fun c hc => hexponent.of_head? hc] at hsplit
        cases hsplit
        rw [List.append_nil]
        exact ⟨hdigits.ne_nil, hexponent⟩
    | .pointed hdigits hexponent =>
        obtain ⟨hwhole, hfraction⟩ := List.forall_mem_append.mp hdigits.digits
        rw [splitPoint_pointed hwhole hfraction fun c hc => (hexponent.of_head? hc).1] at hsplit
        cases hsplit
        exact ⟨hdigits.ne_nil, hexponent⟩
  · rintro ⟨hne, hexponent⟩
    obtain ⟨whole', fraction', rest', hsplit', hdigits, hjoin⟩ := splitPoint_cases cs
    rw [hsplit] at hsplit'
    cases hsplit'
    have hwrites : Writes (whole ++ fraction) _ := ⟨hne, hdigits, rfl⟩
    rcases hjoin with ⟨rfl, rfl⟩ | rfl
    · rw [List.append_nil] at hwrites
      exact .whole hwrites hexponent
    · exact .pointed hwrites hexponent

/-- The numbers that are read without a sign are those of the grammar. -/
theorem magnitude?_eq_none_iff :
    magnitude? cs = none ↔ ¬IsMagnitude cs := by
  by_cases hspecial : IsSpecial cs
  · exact iff_of_false (magnitude?_of_isSpecial hspecial) (not_not_intro (.special hspecial))
  · obtain ⟨whole, fraction, rest, hsplit, -⟩ := splitPoint_cases cs
    rw [magnitude?_of_not_isSpecial hspecial hsplit,
      isMagnitude_iff_of_not_isSpecial hspecial hsplit, exponent?_eq_none_iff,
      Decidable.not_and_iff_not_or_not, Decidable.not_not]

/-- A sign is no part of a number without its sign. -/
theorem not_isMagnitude_sign
    {sign : Char} (hsign : sign = '-' ∨ sign = '+') (rest : List Char) :
    ¬IsMagnitude (sign :: rest) := by
  have hspecial : ¬IsSpecial (sign :: rest) := by
    rcases hsign with rfl | rfl
    · simp [IsSpecial]
    · simp [IsSpecial]
  have hhead : ∀ c, (sign :: rest).head? = some c → c.isDigit = false ∧ c ≠ '.' := by
    intro c hc
    rw [← Option.some.inj hc]
    rcases hsign with rfl | rfl
    · decide
    · decide
  have hsplit : splitPoint ([] ++ sign :: rest) = ([], [], sign :: rest) :=
    splitPoint_whole (List.forall_mem_nil _) hhead
  rw [isMagnitude_iff_of_not_isSpecial hspecial hsplit]
  exact fun hparts => hparts.1 rfl

end Magnitude

/-! ## Numbers with a sign -/

theorem numeral?_of_no_sign
    {cs : List Char} (hminus : ∀ rest, cs ≠ '-' :: rest) (hplus : ∀ rest, cs ≠ '+' :: rest) :
    numeral? cs = (magnitude? cs).map (Numeral.mk false) := by
  unfold numeral?
  split
  next rest => exact absurd rfl (hminus rest)
  next rest => exact absurd rfl (hplus rest)
  next => rfl

/-- The texts that are refused are those that are not in the grammar. -/
theorem numeral?_eq_none_iff
    {cs : List Char} :
    numeral? cs = none ↔ ¬IsNumeral cs := by
  rcases sign_cases cs with ⟨rest, rfl⟩ | ⟨rest, rfl⟩ | ⟨hminus, hplus⟩
  · rw [numeral?, Option.map_eq_none_iff, magnitude?_eq_none_iff]
    apply not_congr
    refine ⟨.minus, ?_⟩
    intro hnumeral
    match hnumeral with
    | .plain hcs => exact absurd hcs (not_isMagnitude_sign (.inl rfl) rest)
    | .minus hcs => exact hcs
  · rw [numeral?, Option.map_eq_none_iff, magnitude?_eq_none_iff]
    apply not_congr
    refine ⟨.plus, ?_⟩
    intro hnumeral
    match hnumeral with
    | .plain hcs => exact absurd hcs (not_isMagnitude_sign (.inr rfl) rest)
    | .plus hcs => exact hcs
  · rw [numeral?_of_no_sign hminus hplus, Option.map_eq_none_iff, magnitude?_eq_none_iff]
    apply not_congr
    refine ⟨.plain, ?_⟩
    intro hnumeral
    match hnumeral with
    | .plain hcs => exact hcs
    | .plus _ => exact absurd rfl (hplus _)
    | .minus _ => exact absurd rfl (hminus _)

theorem float?_eq_none_iff
    {s : String} :
    float? s = none ↔ ¬IsNumeral s.toList := by
  rw [float?, Option.map_eq_none_iff, numeral?_eq_none_iff]

end Decimal
end Stackline
