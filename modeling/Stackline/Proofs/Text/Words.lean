import Stackline.Text.Blank

/-!
# Words and the blanks around them

A text is split into words and trimmed by two functions that know nothing of each
other, and both are undone by writing words with single spaces between them.  Such a
text has its words again, and trimming finds nothing to take off it.

The words of a text can also be told without splitting it.  `Text.Spells` says which
texts have given words, and each text has the words that it is split into and no
others.
-/

namespace Stackline
namespace Text

/-- A run of characters that are not blank. -/
structure IsWord (w : List Char) : Prop where
  ne_nil : w ≠ []
  solid : ∀ c ∈ w, isBlank c = false

/-- The text starts and ends with a character that is not blank. -/
structure Trimmed (cs : List Char) : Prop where
  first : ∃ c, cs.head? = some c ∧ isBlank c = false
  last : ∃ c, cs.getLast? = some c ∧ isBlank c = false

/-! ## Trimming -/

/-- The list is `core` with elements around it that satisfy `p`, and `core` neither starts
nor ends with such an element. -/
structure Strips {α : Type} (p : α → Bool) (xs core : List α) : Prop where
  around : ∃ before after, xs = before ++ core ++ after ∧
    (∀ x ∈ before, p x = true) ∧ ∀ x ∈ after, p x = true
  first : ∀ x, core.head? = some x → p x = false
  last : ∀ x, core.getLast? = some x → p x = false

section Stripping

variable {α : Type} {p : α → Bool} {xs core : List α}

theorem dropWhile_eq_self
    (hfirst : ∀ x, xs.head? = some x → p x = false) :
    xs.dropWhile p = xs := by
  match xs with
  | [] => rfl
  | x :: rest =>
      apply List.dropWhile_cons_of_neg
      simp [hfirst x List.head?_cons]

theorem eq_false_of_head?_dropWhile
    {x : α} (hhead : (xs.dropWhile p).head? = some x) :
    p x = false := by
  have hnot := List.head?_dropWhile_not p xs
  rw [hhead] at hnot
  exact hnot

theorem strips_trimWhile
    (p : α → Bool) (xs : List α) :
    Strips p xs (trimWhile p xs) := by
  let front := xs.dropWhile p
  let back := front.reverse.dropWhile p
  let after := (front.reverse.takeWhile p).reverse
  have hfront : front = back.reverse ++ after := by
    rw [← List.reverse_append, List.takeWhile_append_dropWhile, List.reverse_reverse]
  have hxs : xs = xs.takeWhile p ++ back.reverse ++ after := by
    rw [List.append_assoc, ← hfront, List.takeWhile_append_dropWhile]
  refine ⟨⟨xs.takeWhile p, after, hxs, ?_, ?_⟩, ?_, ?_⟩
  · exact List.all_eq_true.mp List.all_takeWhile
  · intro x hx
    exact List.all_eq_true.mp List.all_takeWhile x (List.mem_reverse.mp hx)
  · intro x hx
    have hhead : front.head? = some x := by
      rw [hfront, List.head?_append]
      exact Option.or_eq_some_iff.mpr (.inl hx)
    exact eq_false_of_head?_dropWhile hhead
  · intro x hx
    have hhead : back.head? = some x := by
      rw [← List.getLast?_reverse]
      exact hx
    exact eq_false_of_head?_dropWhile hhead

theorem Strips.trimWhile_eq
    (hstrips : Strips p xs core) :
    trimWhile p xs = core := by
  obtain ⟨⟨before, after, rfl, hbefore, hafter⟩, hfirst, hlast⟩ := hstrips
  have hback : (core ++ after).reverse.dropWhile p = core.reverse := by
    rw [List.reverse_append, List.dropWhile_append_of_pos, dropWhile_eq_self]
    · intro x hx
      rw [List.head?_reverse] at hx
      exact hlast x hx
    · intro x hx
      exact hafter x (List.mem_reverse.mp hx)
  rw [trimWhile, List.append_assoc, List.dropWhile_append_of_pos hbefore]
  by_cases hnil : core = []
  · have hfront : (after ++ []).dropWhile p = [] := List.dropWhile_append_of_pos hafter
    rw [List.append_nil] at hfront
    rw [hnil, List.nil_append, hfront]
    rfl
  · have hfront : (core ++ after).dropWhile p = core ++ after := by
      apply dropWhile_eq_self
      obtain ⟨c, rest, rfl⟩ := List.exists_cons_of_ne_nil hnil
      exact hfirst
    rw [hfront, dropEndWhile, hback, List.reverse_reverse]

/-- What is left after trimming is told by what it starts and ends with. -/
theorem trimWhile_eq_iff :
    trimWhile p xs = core ↔ Strips p xs core := by
  constructor
  · rintro rfl
    exact strips_trimWhile p xs
  · exact Strips.trimWhile_eq

end Stripping

theorem sublist_trimWhile
    (p : Char → Bool) (cs : List Char) :
    (trimWhile p cs).Sublist cs := by
  have hend : (dropEndWhile p (cs.dropWhile p)).Sublist (cs.dropWhile p) := by
    have hreverse := ((List.dropWhile_sublist p (l := (cs.dropWhile p).reverse)).reverse)
    rwa [List.reverse_reverse] at hreverse
  exact hend.trans (List.dropWhile_sublist p)

theorem Trimmed.strips
    {cs : List Char} (hcs : Trimmed cs) :
    Strips isBlank cs cs := by
  obtain ⟨first, hfirst, hfirst'⟩ := hcs.first
  obtain ⟨last, hlast, hlast'⟩ := hcs.last
  refine ⟨⟨[], [], by simp, List.forall_mem_nil _, List.forall_mem_nil _⟩, ?_, ?_⟩
  · intro c hc
    rwa [← Option.some.inj (hfirst.symm.trans hc)]
  · intro c hc
    rwa [← Option.some.inj (hlast.symm.trans hc)]

theorem Strips.trimmed
    {cs core : List Char} (hstrips : Strips isBlank cs core) (hne : core ≠ []) :
    Trimmed core := by
  obtain ⟨first, hfirst⟩ := Option.ne_none_iff_exists'.mp (mt List.head?_eq_none_iff.mp hne)
  obtain ⟨last, hlast⟩ := Option.ne_none_iff_exists'.mp (mt List.getLast?_eq_none_iff.mp hne)
  exact ⟨⟨first, hfirst, hstrips.first first hfirst⟩, ⟨last, hlast, hstrips.last last hlast⟩⟩

/-- A blank at the end is taken off with the others. -/
theorem trimWhile_append_blank
    (cs : List Char) {c : Char} (hc : isBlank c = true) :
    trimWhile isBlank (cs ++ [c]) = trimWhile isBlank cs := by
  rw [trimWhile, trimWhile, List.dropWhile_append]
  split
  next hblank =>
    rw [List.isEmpty_iff.mp hblank]
    simp [dropEndWhile, hc]
  next => simp [dropEndWhile, hc]

theorem trim_eq_iff
    {s t : String} :
    trim s = t ↔ Strips isBlank s.toList t.toList := by
  rw [← trimWhile_eq_iff, ← String.toList_inj, trim, String.toList_ofList]

theorem trim_of_trimmed
    {s : String} (hs : Trimmed s.toList) :
    trim s = s :=
  trim_eq_iff.mpr hs.strips

/-- What is left after trimming starts and ends with a character that is not blank,
if anything is left. -/
theorem trimmed_trim
    {s : String} (hne : trim s ≠ "") :
    Trimmed (trim s).toList := by
  apply (trim_eq_iff.mp rfl).trimmed
  rwa [Ne, String.toList_eq_nil_iff]

theorem IsWord.trimmed
    {w : List Char} (hw : IsWord w) :
    Trimmed w := by
  constructor
  · obtain ⟨c, hc⟩ := Option.ne_none_iff_exists'.mp (mt List.head?_eq_none_iff.mp hw.ne_nil)
    exact ⟨c, hc, hw.solid c (List.mem_of_head? hc)⟩
  · obtain ⟨c, hc⟩ := Option.ne_none_iff_exists'.mp (mt List.getLast?_eq_none_iff.mp hw.ne_nil)
    exact ⟨c, hc, hw.solid c (List.mem_of_getLast? hc)⟩

theorem Trimmed.append
    {xs ys : List Char} (hxs : Trimmed xs) (between : List Char) (hys : Trimmed ys) :
    Trimmed (xs ++ between ++ ys) := by
  obtain ⟨first, hfirst, hfirst'⟩ := hxs.first
  obtain ⟨last, hlast, hlast'⟩ := hys.last
  constructor
  · refine ⟨first, ?_, hfirst'⟩
    rw [List.append_assoc, List.head?_append, hfirst, Option.some_or]
  · refine ⟨last, ?_, hlast'⟩
    rw [List.getLast?_append, hlast, Option.some_or]

/-! ## Splitting into words -/

theorem wordsFrom_append
    {w : List Char} (hw : ∀ c ∈ w, isBlank c = false) (started rest : List Char) :
    wordsFrom started (w ++ rest) = wordsFrom (w.reverse ++ started) rest := by
  induction w generalizing started with
  | nil => rfl
  | cons c w ih =>
      have hc : isBlank c = false := hw c List.mem_cons_self
      have hrest : ∀ d ∈ w, isBlank d = false := fun d hd => hw d (List.mem_cons_of_mem c hd)
      calc
        wordsFrom started (c :: (w ++ rest)) = wordsFrom (c :: started) (w ++ rest) := by
          simp [wordsFrom, hc]
        _ = wordsFrom (w.reverse ++ c :: started) rest := ih hrest (c :: started)
        _ = wordsFrom ((c :: w).reverse ++ started) rest := by simp

theorem IsWord.wordsFrom_self
    {w : List Char} (hw : IsWord w) :
    wordsFrom [] w = [w] := by
  have happend := wordsFrom_append hw.solid [] []
  simpa [wordsFrom, hw.ne_nil] using happend

theorem IsWord.wordsFrom_space
    {w : List Char} (hw : IsWord w) (rest : List Char) :
    wordsFrom [] (w ++ [' '] ++ rest) = w :: wordsFrom [] rest := by
  have hspace : isBlank ' ' = true := by decide
  rw [List.append_assoc, wordsFrom_append hw.solid]
  simp [wordsFrom, hspace, hw.ne_nil]

theorem isWord_reverse
    {started : List Char} (hne : ¬started.isEmpty) (hsolid : ∀ c ∈ started, isBlank c = false) :
    IsWord started.reverse := by
  constructor
  · simpa using hne
  · simpa using hsolid

theorem isWord_of_mem_wordsFrom
    {started cs w : List Char} (hstarted : ∀ c ∈ started, isBlank c = false)
    (hw : w ∈ wordsFrom started cs) :
    IsWord w := by
  induction cs generalizing started with
  | nil =>
      simp only [wordsFrom] at hw
      split at hw
      next => cases hw
      next hne =>
        rw [List.mem_singleton.mp hw]
        exact isWord_reverse hne hstarted
  | cons c cs ih =>
      simp only [wordsFrom] at hw
      split at hw
      next =>
        split at hw
        next => exact ih (List.forall_mem_nil _) hw
        next hne =>
          rcases List.mem_cons.mp hw with rfl | hrest
          · exact isWord_reverse hne hstarted
          · exact ih (List.forall_mem_nil _) hrest
      next hc =>
        apply ih ?_ hw
        intro d hd
        rcases List.mem_cons.mp hd with rfl | hd
        · exact Bool.eq_false_iff.mpr hc
        · exact hstarted d hd

theorem isWord_of_mem_words
    {s w : String} (hw : w ∈ words s) :
    IsWord w.toList := by
  obtain ⟨cs, hcs, rfl⟩ := List.mem_map.mp hw
  rw [String.toList_ofList]
  exact isWord_of_mem_wordsFrom (List.forall_mem_nil _) hcs

theorem wordsFrom_ne_nil
    {started : List Char} (hne : started ≠ []) (cs : List Char) :
    wordsFrom started cs ≠ [] := by
  induction cs generalizing started with
  | nil => simp [wordsFrom, hne]
  | cons c cs ih =>
      simp only [wordsFrom, List.isEmpty_iff, hne, if_false]
      split
      next => simp
      next => exact ih (List.cons_ne_nil c started)

/-- A text that starts with a character that is not blank has a word. -/
theorem words_ne_nil
    {s : String} (hs : Trimmed s.toList) :
    words s ≠ [] := by
  obtain ⟨c, hc, hsolid⟩ := hs.first
  obtain ⟨rest, hrest⟩ := List.head?_eq_some_iff.mp hc
  have hstart : wordsFrom [] s.toList = wordsFrom [c] rest := by simp [hrest, wordsFrom, hsolid]
  rw [words, hstart]
  simpa using wordsFrom_ne_nil (List.cons_ne_nil c []) rest

/-! ## Words with spaces between them -/

section Spaced

variable {ws : List (List Char)}

theorem wordsFrom_intercalate
    (hws : ∀ w ∈ ws, IsWord w) :
    wordsFrom [] ([' '].intercalate ws) = ws := by
  induction ws with
  | nil => rfl
  | cons w ws ih =>
      obtain ⟨hw, hrest⟩ := List.forall_mem_cons.mp hws
      cases ws with
      | nil => simpa using hw.wordsFrom_self
      | cons w' ws => rw [List.intercalate_cons_cons, hw.wordsFrom_space, ih hrest]

theorem trimmed_intercalate
    (hne : ws ≠ []) (hws : ∀ w ∈ ws, IsWord w) :
    Trimmed ([' '].intercalate ws) := by
  induction ws with
  | nil => exact absurd rfl hne
  | cons w ws ih =>
      obtain ⟨hw, hrest⟩ := List.forall_mem_cons.mp hws
      cases ws with
      | nil => simpa using hw.trimmed
      | cons w' ws =>
          rw [List.intercalate_cons_cons]
          exact hw.trimmed.append [' '] (ih (List.cons_ne_nil w' ws) hrest)

/-- No blank but the space is written between words. -/
theorem not_mem_intercalate
    {c : Char} (hblank : isBlank c = true) (hspace : c ≠ ' ') (hws : ∀ w ∈ ws, IsWord w) :
    c ∉ [' '].intercalate ws := by
  induction ws with
  | nil => exact List.not_mem_nil
  | cons w ws ih =>
      obtain ⟨hw, hrest⟩ := List.forall_mem_cons.mp hws
      have hsolid : c ∉ w := by
        intro hc
        rw [hw.solid c hc] at hblank
        cases hblank
      cases ws with
      | nil => simpa using hsolid
      | cons w' ws =>
          rw [List.intercalate_cons_cons]
          simp only [List.mem_append, List.mem_singleton, not_or]
          exact ⟨⟨hsolid, hspace⟩, ih hrest⟩

end Spaced

/-- Words written with spaces between them are the words of that text. -/
theorem words_intercalate
    {ws : List String} (hws : ∀ w ∈ ws, IsWord w.toList) :
    words (String.intercalate " " ws) = ws := by
  have hchars : ∀ w ∈ ws.map String.toList, IsWord w := by simpa using hws
  have hspace : " ".toList = [' '] := rfl
  rw [words, String.toList_intercalate, hspace, wordsFrom_intercalate hchars, List.map_map]
  simp

/-! ## The words of a text -/

/-- The characters are these words in order, with blanks between them and perhaps
around them. -/
inductive Spells : List (List Char) → List Char → Prop where
  /-- Blanks spell no word. -/
  | blanks {gap : List Char} (hgap : ∀ c ∈ gap, isBlank c = true) : Spells [] gap
  /-- A word comes after blanks, if any, and before another blank or the end. -/
  | word {gap w rest : List Char} {ws : List (List Char)}
      (hgap : ∀ c ∈ gap, isBlank c = true) (hw : IsWord w)
      (hends : ∀ c, rest.head? = some c → isBlank c = true) (hrest : Spells ws rest) :
      Spells (w :: ws) (gap ++ w ++ rest)

section Spelling

variable {ws : List (List Char)} {cs : List Char}

theorem Spells.cons_blank
    (hcs : Spells ws cs) {c : Char} (hc : isBlank c = true) :
    Spells ws (c :: cs) := by
  cases hcs with
  | blanks hgap => exact .blanks (List.forall_mem_cons.mpr ⟨hc, hgap⟩)
  | @word gap w rest ws hgap hw hends hrest =>
      have hlonger : ∀ d ∈ c :: gap, isBlank d = true := List.forall_mem_cons.mpr ⟨hc, hgap⟩
      exact .word hlonger hw hends hrest

theorem IsWord.spells
    {w rest : List Char} (hw : IsWord w) (hends : ∀ c, rest.head? = some c → isBlank c = true)
    (hrest : Spells ws rest) :
    Spells (w :: ws) (w ++ rest) :=
  @Spells.word [] w rest ws (List.forall_mem_nil _) hw hends hrest

/-- What is split off spells the text, together with the word that was open. -/
theorem spells_wordsFrom
    {started : List Char} (hstarted : ∀ c ∈ started, isBlank c = false) (cs : List Char) :
    Spells (wordsFrom started cs) (started.reverse ++ cs) := by
  induction cs generalizing started with
  | nil =>
      by_cases hempty : started.isEmpty = true
      · rw [wordsFrom, if_pos hempty, List.isEmpty_iff.mp hempty]
        exact .blanks (List.forall_mem_nil _)
      · rw [wordsFrom, if_neg hempty]
        exact (isWord_reverse hempty hstarted).spells nofun (.blanks (List.forall_mem_nil _))
  | cons c cs ih =>
      by_cases hc : isBlank c = true
      · have hrest : Spells (wordsFrom [] cs) (c :: cs) :=
          (ih (List.forall_mem_nil _)).cons_blank hc
        by_cases hempty : started.isEmpty = true
        · rw [wordsFrom, if_pos hc, if_pos hempty, List.isEmpty_iff.mp hempty]
          exact hrest
        · rw [wordsFrom, if_pos hc, if_neg hempty]
          refine (isWord_reverse hempty hstarted).spells ?_ hrest
          simp [hc]
      · have hlonger : ∀ d ∈ c :: started, isBlank d = false :=
          List.forall_mem_cons.mpr ⟨Bool.eq_false_iff.mpr hc, hstarted⟩
        rw [wordsFrom, if_neg hc]
        simpa using ih hlonger

theorem wordsFrom_blanks
    {gap : List Char} (hgap : ∀ c ∈ gap, isBlank c = true) (rest : List Char) :
    wordsFrom [] (gap ++ rest) = wordsFrom [] rest := by
  induction gap with
  | nil => rfl
  | cons c gap ih =>
      obtain ⟨hc, hgap⟩ := List.forall_mem_cons.mp hgap
      rw [List.cons_append, wordsFrom, if_pos hc]
      exact ih hgap

/-- A text spells the words that it is split into and no others. -/
theorem Spells.wordsFrom_eq
    (hcs : Spells ws cs) :
    wordsFrom [] cs = ws := by
  induction hcs with
  | @blanks gap hgap => simpa [wordsFrom] using wordsFrom_blanks hgap []
  | @word gap w rest ws hgap hw hends hrest ih =>
      rw [List.append_assoc, wordsFrom_blanks hgap, wordsFrom_append hw.solid, List.append_nil]
      cases rest with
      | nil =>
          rw [← ih]
          simp [wordsFrom, hw.ne_nil]
      | cons c rest =>
          have hc : isBlank c = true := hends c List.head?_cons
          rw [← ih]
          simp [wordsFrom, hc, hw.ne_nil]

end Spelling

theorem words_eq_iff
    {s : String} {ws : List String} :
    words s = ws ↔ Spells (ws.map String.toList) s.toList := by
  constructor
  · rintro rfl
    have hspells : Spells (wordsFrom [] s.toList) s.toList :=
      spells_wordsFrom (List.forall_mem_nil _) s.toList
    simpa [words] using hspells
  · intro hspells
    rw [words, hspells.wordsFrom_eq]
    simp

end Text
end Stackline
