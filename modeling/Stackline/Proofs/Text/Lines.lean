import Stackline.Proofs.Text.Words
import Stackline.Text.Lines

/-!
# Lines that are written and read again

Lines that are written one after the other, each with a line feed, are found again
by splitting the text, unless one of them holds a line feed itself or ends in a
carriage return, which splitting takes for a part of the ending.  Trimmed text does
not end so, because a carriage return is blank.
-/

namespace Stackline
namespace Text

/-- The text is found again when it is written as a line. -/
structure IsLine (l : List Char) : Prop where
  feed : '\n' ∉ l
  ending : l.getLast? ≠ some '\r'

theorem Trimmed.isLine
    {l : List Char} (hl : Trimmed l) (hfeed : '\n' ∉ l) :
    IsLine l := by
  refine ⟨hfeed, ?_⟩
  intro hreturn
  obtain ⟨c, hc, hsolid⟩ := hl.last
  rw [hreturn] at hc
  cases hc
  exact absurd hsolid (by decide)

theorem linesFrom_append
    {l : List Char} (hl : '\n' ∉ l) (started rest : List Char) :
    linesFrom started (l ++ rest) = linesFrom (l.reverse ++ started) rest := by
  induction l generalizing started with
  | nil => rfl
  | cons c l ih =>
      rw [List.mem_cons, not_or] at hl
      obtain ⟨hc, hrest⟩ := hl
      calc
        linesFrom started (c :: (l ++ rest)) = linesFrom (c :: started) (l ++ rest) := by
          rw [linesFrom, if_neg (Ne.symm hc)]
        _ = linesFrom (l.reverse ++ c :: started) rest := ih hrest (c :: started)
        _ = linesFrom ((c :: l).reverse ++ started) rest := by simp

theorem dropReturn_of_head?
    {cs : List Char} (hcs : cs.head? ≠ some '\r') :
    dropReturn cs = cs := by
  unfold dropReturn
  split
  next => exact absurd rfl hcs
  next => rfl

/-- What is taken off the front of the characters, if anything, is a carriage
return. -/
theorem dropReturn_cases
    (cs : List Char) :
    dropReturn cs = cs ∨ cs = '\r' :: dropReturn cs := by
  by_cases hreturn : cs.head? = some '\r'
  · obtain ⟨rest, rfl⟩ := List.head?_eq_some_iff.mp hreturn
    exact .inr rfl
  · exact .inl (dropReturn_of_head? hreturn)

/-- A carriage return that belongs to the ending of a line is no loss once the line is
trimmed. -/
theorem trim_dropReturn
    (cs : List Char) :
    trim (String.ofList (dropReturn cs).reverse) = trim (String.ofList cs.reverse) := by
  rcases dropReturn_cases cs with hsame | hreturn
  · rw [hsame]
  · have hsplit : cs.reverse = (dropReturn cs).reverse ++ ['\r'] := by
      rw [← List.reverse_cons, ← hreturn]
    have hblank : isBlank '\r' = true := by decide
    rw [trim, trim, String.toList_ofList, String.toList_ofList, hsplit,
      trimWhile_append_blank _ hblank]

/-- No line of a text holds a line feed. -/
theorem not_mem_of_mem_linesFrom
    {started cs l : List Char} (hstarted : '\n' ∉ started) (hl : l ∈ linesFrom started cs) :
    '\n' ∉ l := by
  induction cs generalizing started with
  | nil =>
      rw [linesFrom] at hl
      split at hl
      next => exact absurd hl List.not_mem_nil
      next =>
        rw [List.mem_singleton.mp hl, List.mem_reverse]
        exact hstarted
  | cons c cs ih =>
      rw [linesFrom] at hl
      split at hl
      next =>
        rcases List.mem_cons.mp hl with rfl | hrest
        · rw [List.mem_reverse]
          intro hfeed
          apply hstarted
          rcases dropReturn_cases started with hsame | hreturn
          · rwa [← hsame]
          · rw [hreturn]
            exact List.mem_cons_of_mem _ hfeed
        · exact ih List.not_mem_nil hrest
      next hc =>
        have hlonger : '\n' ∉ c :: started := by
          rw [List.mem_cons, not_or]
          exact ⟨Ne.symm hc, hstarted⟩
        exact ih hlonger hl

theorem IsLine.linesFrom_feed
    {l : List Char} (hl : IsLine l) (rest : List Char) :
    linesFrom [] (l ++ '\n' :: rest) = l :: linesFrom [] rest := by
  have hkept : dropReturn l.reverse = l.reverse := by
    apply dropReturn_of_head?
    rw [List.head?_reverse]
    exact hl.ending
  rw [linesFrom_append hl.feed, linesFrom, if_pos rfl, List.append_nil, hkept,
    List.reverse_reverse]

/-- Without a line feed the text is one open line. -/
theorem linesFrom_of_not_mem
    {l : List Char} (hfeed : '\n' ∉ l) :
    linesFrom [] l = linesFrom l.reverse [] := by
  have happend := linesFrom_append hfeed [] []
  rwa [List.append_nil, List.append_nil] at happend

/-- An open line at the end is a line too, unless it is empty. -/
theorem linesFrom_of_ne_nil
    {l : List Char} (hfeed : '\n' ∉ l) (hne : l ≠ []) :
    linesFrom [] l = [l] := by
  rw [linesFrom_of_not_mem hfeed, linesFrom, if_neg, List.reverse_reverse]
  simpa using hne

theorem linesFrom_intercalate
    {ls : List (List Char)} (hls : ∀ l ∈ ls, IsLine l ∧ l ≠ []) :
    linesFrom [] (['\n'].intercalate ls) = ls := by
  induction ls with
  | nil => rfl
  | cons l ls ih =>
      obtain ⟨⟨hl, hne⟩, hrest⟩ := List.forall_mem_cons.mp hls
      cases ls with
      | nil => simpa using linesFrom_of_ne_nil hl.feed hne
      | cons l' ls =>
          rw [List.intercalate_cons_cons, List.append_assoc, List.singleton_append,
            hl.linesFrom_feed, ih hrest]

/-- Lines that are not empty are found again if they are written with line feeds between
them. -/
theorem lines_intercalate
    {ls : List String} (hls : ∀ l ∈ ls, IsLine l.toList ∧ l ≠ "") :
    lines (String.intercalate "\n" ls) = ls := by
  have hchars : ∀ l ∈ ls.map String.toList, IsLine l ∧ l ≠ [] := by simpa using hls
  have hfeed : "\n".toList = ['\n'] := rfl
  rw [lines, String.toList_intercalate, hfeed, linesFrom_intercalate hchars, List.map_map]
  simp

theorem toList_unlines_cons
    (l : String) (ls : List String) :
    (unlines (l :: ls)).toList = l.toList ++ '\n' :: (unlines ls).toList := by
  simp [unlines, String.toList_join]

theorem unlines_cons
    (l : String) (ls : List String) :
    unlines (l :: ls) = l ++ "\n" ++ unlines ls := by
  rw [← String.toList_inj, toList_unlines_cons]
  simp

theorem lines_unlines
    {ls : List String} (hls : ∀ l ∈ ls, IsLine l.toList) :
    lines (unlines ls) = ls := by
  induction ls with
  | nil => rfl
  | cons l ls ih =>
      obtain ⟨hl, hrest⟩ := List.forall_mem_cons.mp hls
      have htail : (linesFrom [] (unlines ls).toList).map String.ofList = ls := ih hrest
      rw [lines, toList_unlines_cons, hl.linesFrom_feed, List.map_cons, htail,
        String.ofList_toList]

end Text
end Stackline
