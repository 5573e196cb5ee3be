import Stencil.Proofs.FirstFault
import Stencil.Proofs.Replacement

/-!
# The layout of a variable file

Of a variable file only the lines that count are read, and those without the blanks around them. So
comments, empty lines, indentation, the byte order mark and the way lines end are free.

* `significantLines`: what is read of a file.
* `Variables.sameReading_of_significantLines`: files of which the same is read have the same store,
  or are refused for the same line.
* `Text.map_trim_splitAt_withReturns`: a carriage return before a line feed is a blank of the line.
* `Variables.parse_layout`: **the layout of a variable file does not matter.**
-/

namespace Stencil

namespace Text

/-- The text with a carriage return before each line feed. -/
def withReturns (text : Text) : Text := replaceAll ['\n'] ['\r', '\n'] text

theorem withReturns_feed (rest : Text) :
    withReturns ('\n' :: rest) = '\r' :: '\n' :: withReturns rest := by
  have hfirst : withReturns (['\n'] ++ rest) = ['\r', '\n'] ++ withReturns rest :=
    replaceAll_of_isPrefix (List.cons_ne_nil '\n' [])
  exact hfirst

/-- A text without line feeds stays as it is, whatever follows. -/
theorem withReturns_append {piece : Text} (h : '\n' ∉ piece) (rest : Text) :
    withReturns (piece ++ rest) = piece ++ withReturns rest := by
  induction piece with
  | nil => rfl
  | cons c piece ih =>
    rw [List.mem_cons, not_or] at h
    have hnot : ¬ ['\n'] <+: c :: (piece ++ rest) := by
      rw [List.cons_prefix_cons]
      exact fun hprefix => h.1 hprefix.1
    have hlater := ih h.2
    rw [withReturns] at hlater ⊢
    rw [List.cons_append, replaceAll_of_not_isPrefix hnot, hlater, List.cons_append]

/-- **A carriage return before a line feed** is a blank of the line. -/
theorem map_trim_splitAt_withReturns (text : Text) :
    (splitAt '\n' text.withReturns).map trim = (splitAt '\n' text).map trim := by
  induction text using splitAt_induction '\n' with
  | last piece hpiece =>
    have hsame : withReturns piece = piece := by
      simpa [withReturns] using withReturns_append hpiece []
    rw [hsame]
  | next piece rest hpiece ih =>
    have hline : piece ++ '\r' :: '\n' :: withReturns rest =
        (piece ++ ['\r']) ++ '\n' :: withReturns rest := by simp
    have hreturn : '\n' ∉ piece ++ ['\r'] := by simpa using hpiece
    have htrim : trim (piece ++ ['\r']) = trim piece := trim_append_of_blank (by decide)
    rw [withReturns_append hpiece, withReturns_feed, hline, splitAt_append_cons,
      splitAt_append_cons, splitAt_of_not_mem hreturn, splitAt_of_not_mem hpiece, List.map_append,
      List.map_append, ih, List.map_singleton, List.map_singleton, htrim]

/-- A byte order mark is dropped whether or not there are carriage returns after it. -/
theorem dropMark_withReturns (text : Text) :
    dropMark (withReturns text) = withReturns (dropMark text) := by
  cases text with
  | nil => simp [withReturns, dropMark]
  | cons c rest =>
    by_cases hfeed : c = '\n'
    · subst hfeed
      rw [withReturns_feed, dropMark, dropMark, if_neg (by decide), if_neg (by decide),
        withReturns_feed]
    · have hrest : withReturns ([c] ++ rest) = [c] ++ withReturns rest :=
        withReturns_append (by simpa using Ne.symm hfeed) rest
      rw [List.singleton_append, List.singleton_append] at hrest
      rw [hrest, dropMark, dropMark]
      split
      · rfl
      · exact hrest.symm

end Text

variable {lines other : List Text} {content second : Text}

/-- **What is read of a variable file**: its trimmed lines without the empty ones and the
comments. -/
def significantLines (content : Text) : List Text :=
  ((fileLines content).map Text.trim).filter fun line => line ≠ [] ∧ line.head? ≠ some '#'

theorem map_snd_numberedLines (first : Nat) (lines : List Text) :
    (numberedLines first lines).map Prod.snd =
      (lines.map Text.trim).filter fun line => line ≠ [] ∧ line.head? ≠ some '#' := by
  induction lines generalizing first with
  | nil => rfl
  | cons raw lines ih =>
    rw [numberedLines, List.map_cons, List.filter_cons]
    simp only [countsAsDefinition_iff, decide_eq_true_eq]
    split
    · rw [List.map_cons, ih]
    · exact ih _

/-- The numbered lines are those of the file that are read. -/
theorem map_snd_definitionLines (content : Text) :
    (definitionLines content).map Prod.snd = significantLines content :=
  map_snd_numberedLines 1 (fileLines content)

/-- Blanks around the lines do not matter. -/
theorem numberedLines_congr (h : lines.map Text.trim = other.map Text.trim) (first : Nat) :
    numberedLines first lines = numberedLines first other := by
  induction lines generalizing other first with
  | nil =>
    rw [List.map_nil, eq_comm, List.map_eq_nil_iff] at h
    rw [h]
  | cons line lines ih =>
    cases other with
    | nil => cases h
    | cons second other =>
      obtain ⟨hline, hlater⟩ := List.cons.inj h
      rw [numberedLines, numberedLines, hline, ih hlater]

namespace Variables

/-- **Two readings with one outcome**: the same store, or the same line to blame, wherever it is. -/
inductive SameReading : Except LineFault Variables → Except LineFault Variables → Prop
  | accepted (store : Variables) : SameReading (.ok store) (.ok store)
  | refused (number other : Nat) (line : Text) (reason : DefinitionFault) :
      SameReading (.error ⟨number, line, reason⟩) (.error ⟨other, line, reason⟩)

/-- The numbers of the lines do not matter to what is read. -/
theorem sameReading_defineLines {lines other : List (Nat × Text)}
    (h : lines.map Prod.snd = other.map Prod.snd) (store : Variables) :
    SameReading (defineLines store lines) (defineLines store other) := by
  induction lines generalizing other store with
  | nil =>
    rw [List.map_nil, eq_comm, List.map_eq_nil_iff] at h
    rw [h]
    exact .accepted store
  | cons numbered lines ih =>
    cases other with
    | nil => cases h
    | cons second other =>
      obtain ⟨number, line⟩ := numbered
      obtain ⟨place, same⟩ := second
      rw [List.map_cons, List.map_cons, List.cons.injEq] at h
      obtain ⟨rfl, hlater⟩ := h
      rw [defineLines, defineLines]
      cases splitDefinition line with
      | ok definition => exact ih hlater _
      | error reason => exact .refused number place line reason

/-- **Files of which the same is read** have the same store, or are refused for the same line. -/
theorem sameReading_of_significantLines (h : significantLines content = significantLines second) :
    SameReading (parse content) (parse second) := by
  rw [← map_snd_definitionLines, ← map_snd_definitionLines] at h
  exact sameReading_defineLines h empty

/-- The lines that are read have the same numbers with carriage returns before the line feeds. -/
theorem definitionLines_withReturns (content : Text) :
    definitionLines content.withReturns = definitionLines content := by
  rw [definitionLines, Text.dropMark_withReturns]
  exact numberedLines_congr (Text.map_trim_splitAt_withReturns content.dropMark) 1

/-- **The layout of a variable file does not matter.** Two files with the same lines, but for the
blanks around them, empty lines, comments and a byte order mark, have the same store, or are refused
for the same line and the same reason. With carriage returns before the line feeds, the line has the
same number, too. -/
theorem parse_layout :
    (∀ content second, significantLines content = significantLines second →
      SameReading (parse content) (parse second)) ∧
    ∀ content : Text, parse content.withReturns = parse content := by
  refine ⟨fun content second => sameReading_of_significantLines, fun content => ?_⟩
  rw [parse, definitionLines_withReturns]
  rfl

/-- A bare file and one with a mark, a comment, an empty line and blanks are refused for the same
line, which is the second of the one and the fourth of the other. -/
theorem parse_layout_refused :
    let content : Text := ['A', '=', '1', '\n', '=', 'x', '\n', 'B']
    let second : Text := [byteOrderMark, '#', '\n', '\n', '\t', 'A', '=', '1', '\r', '\n', '=', 'x',
      ' ', '\n', 'B']
    significantLines content = significantLines second ∧
      SameReading (parse content) (parse second) ∧
      parse content.withReturns = .error ⟨2, ['=', 'x'], .emptyKey⟩ ∧
      parse second = .error ⟨4, ['=', 'x'], .emptyKey⟩ := by
  intro content second
  have hsame : significantLines content = significantLines second := by decide +kernel
  obtain ⟨hlayout, hreturns⟩ := parse_layout
  exact ⟨hsame, hlayout content second hsame, (hreturns content).trans (by decide +kernel),
    by decide +kernel⟩

end Variables

end Stencil
