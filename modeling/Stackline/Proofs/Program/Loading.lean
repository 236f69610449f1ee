import Stackline.Proofs.Program.Source

/-!
# Loading piece by piece

The lines of a text are not the lines of its parts: a line feed in between may close an
open line, add an empty one, or take a carriage return with it into the ending of a line.
None of this is seen by a loader, which trims the lines and drops the empty ones.  So a
text is loaded piece by piece, wherever it is cut at a line feed, and what has been loaded
is loaded unchanged if it is written line by line.
-/

namespace Stackline
namespace Source

/-! ## Texts that are cut at a line feed -/

/-- What a loader makes of the lines of a text. -/
def codeLines (ls : List (List Char)) : List String :=
  ((ls.map String.ofList).map Text.trim).filter isCode

theorem load_eq_codeLines
    (text : String) :
    load text = codeLines (Text.linesFrom [] text.toList) :=
  rfl

theorem codeLines_append
    (ls more : List (List Char)) :
    codeLines (ls ++ more) = codeLines ls ++ codeLines more := by
  simp [codeLines]

/-- The open line before the cut is loaded alike with and without the line feed that
closes it. -/
theorem codeLines_dropReturn
    (started : List Char) :
    codeLines [(Text.dropReturn started).reverse] = codeLines (Text.linesFrom started []) := by
  by_cases hempty : started.isEmpty = true
  · rw [Text.linesFrom, if_pos hempty, List.isEmpty_iff.mp hempty]
    rfl
  · rw [Text.linesFrom, if_neg hempty]
    simp only [codeLines, List.map_cons, List.map_nil, Text.trim_dropReturn]

theorem codeLines_linesFrom_append
    (started cs rest : List Char) :
    codeLines (Text.linesFrom started (cs ++ '\n' :: rest)) =
      codeLines (Text.linesFrom started cs) ++ codeLines (Text.linesFrom [] rest) := by
  induction cs generalizing started with
  | nil =>
      calc
        codeLines (Text.linesFrom started ('\n' :: rest)) =
            codeLines ([(Text.dropReturn started).reverse] ++ Text.linesFrom [] rest) := by
          rw [Text.linesFrom, if_pos rfl, List.singleton_append]
        _ = codeLines (Text.linesFrom started []) ++ codeLines (Text.linesFrom [] rest) := by
          rw [codeLines_append, codeLines_dropReturn]
  | cons c cs ih =>
      rw [List.cons_append, Text.linesFrom, Text.linesFrom]
      split
      next =>
        rw [← List.singleton_append, codeLines_append, ih [], ← List.append_assoc,
          ← codeLines_append, List.singleton_append]
      next => exact ih (c :: started)

theorem load_append
    (a b : String) :
    load (a ++ "\n" ++ b) = load a ++ load b := by
  have hcut : (a ++ "\n" ++ b).toList = a.toList ++ '\n' :: b.toList := by simp
  rw [load_eq_codeLines, hcut, codeLines_linesFrom_append]
  rfl

/-- A line feed at the end changes nothing. -/
theorem load_append_feed
    (a : String) :
    load (a ++ "\n") = load a := by
  have hload : load (a ++ "\n" ++ "") = load a ++ load "" := load_append a ""
  rw [String.append_empty] at hload
  rw [hload]
  exact List.append_nil (load a)

/-! ## Lines that have been loaded -/

theorem canonical_of_mem_load
    {text line : String} (hline : line ∈ load text) :
    Canonical line := by
  obtain ⟨hmem, hcode⟩ := List.mem_filter.mp hline
  obtain ⟨whole, hwhole, rfl⟩ := List.mem_map.mp hmem
  obtain ⟨cs, hcs, rfl⟩ := List.mem_map.mp hwhole
  have htrimmed := Text.trimmed_trim (ne_empty_of_isCode hcode)
  have hsub : (Text.trim (String.ofList cs)).toList.Sublist cs := by
    rw [Text.trim, String.toList_ofList, String.toList_ofList]
    exact Text.sublist_trimWhile Text.isBlank cs
  refine ⟨hcode, htrimmed, htrimmed.isLine ?_⟩
  intro hfeed
  exact Text.not_mem_of_mem_linesFrom List.not_mem_nil hcs (hsub.subset hfeed)

theorem load_intercalate
    {ls : List String} (hls : ∀ l ∈ ls, Canonical l) :
    load (String.intercalate "\n" ls) = ls := by
  rw [← load_append_feed]
  exact load_fileText hls

/-- A text without a line feed gives its trimmed text, unless that holds no code. -/
theorem load_of_not_mem_feed
    {line : String} (hfeed : '\n' ∉ line.toList) :
    load line = [Text.trim line].filter isCode := by
  rw [load_eq_codeLines, Text.linesFrom_of_not_mem hfeed, ← codeLines_dropReturn]
  simp only [codeLines, List.map_cons, List.map_nil, Text.trim_dropReturn, List.reverse_reverse,
    String.ofList_toList]

/-- A text is loaded piece by piece, wherever it is cut at a line feed and whatever the
pieces end in.  A piece without a line feed gives its trimmed text, unless that holds no
code.  Loading the lines that have been loaded once more changes nothing. -/
theorem load_splits_at_feeds_and_repeats :
    (∀ a b : String, load (a ++ "\n" ++ b) = load a ++ load b) ∧
      (∀ line : String, '\n' ∉ line.toList → load line = [Text.trim line].filter isCode) ∧
      ∀ text : String, load (String.intercalate "\n" (load text)) = load text := by
  refine ⟨load_append, fun line => load_of_not_mem_feed, ?_⟩
  intro text
  apply load_intercalate
  intro l hl
  exact canonical_of_mem_load hl

/-- The first piece ends in a carriage return, and a comment follows in the second. -/
theorem load_splits_at_feeds_and_repeats_return :
    '\n' ∉ "\tHALT\r".toList ∧
      load ("\tHALT\r" ++ "\n" ++ " # halt\nADD") = ["HALT"] ++ load " # halt\nADD" := by
  obtain ⟨hpieces, hpiece, -⟩ := load_splits_at_feeds_and_repeats
  have hfeed : '\n' ∉ "\tHALT\r".toList := by decide
  have hcode : [Text.trim "\tHALT\r"].filter isCode = ["HALT"] := by decide
  refine ⟨hfeed, ?_⟩
  rw [hpieces, hpiece _ hfeed, hcode]

end Source
end Stackline
