import Mathlib.Tactic.SplitIfs
import Stencil.Menu

/-!
# The lines that a menu reads

A menu reads its input line by line. It passes over lines that say nothing to it, and the first
other line decides; without one, the end of the input does.

* `Menu.lines`: the lines of an input.
* `Menu.Names`, `Menu.Cancels`, `Menu.Broken`, `Menu.Idle`: what a line can be for a menu.
* `Session.result_run`: **the first line that decides is the choice.**
-/

namespace Stencil

namespace Menu

/-- The lines of the input, each with the byte that ends it. -/
def lines : Bytes → List Bytes
  | [] => []
  | b :: rest =>
    if b = lineFeed then [b] :: lines rest
    else
      match lines rest with
      | [] => [[b]]
      | line :: later => (b :: line) :: later

/-- The lines are the first line and those of the input after it. -/
theorem lines_eq_cons {input : Bytes} (h : input ≠ []) :
    lines input = firstLine input :: lines (afterLine input) := by
  induction input with
  | nil => exact absurd rfl h
  | cons b rest ih =>
    by_cases hb : b = lineFeed
    · have hafter : afterLine (b :: rest) = rest := by simp [afterLine, firstLine, hb]
      rw [hafter, lines, firstLine, if_pos hb, if_pos hb]
    · have hafter : afterLine (b :: rest) = afterLine rest := by simp [afterLine, firstLine, hb]
      rw [hafter, lines, firstLine, if_neg hb, if_neg hb]
      by_cases hrest : rest = []
      · subst hrest
        rfl
      · rw [ih hrest]

/-- The lines are all of the input. -/
theorem flatten_lines (input : Bytes) : (lines input).flatten = input := by
  induction hn : input.length using Nat.strongRecOn generalizing input with
  | ind n ih =>
    subst hn
    by_cases hinput : input = []
    · subst hinput
      rfl
    · rw [lines_eq_cons hinput, List.flatten_cons, ih _ (afterLine_length_lt hinput) _ rfl]
      exact firstLine_append_rest input

/-- No line is empty: it has at least the byte that ends it. -/
theorem ne_nil_of_mem_lines {input line : Bytes} (h : line ∈ lines input) : line ≠ [] := by
  induction input generalizing line with
  | nil => cases h
  | cons b rest ih =>
    unfold lines at h
    split at h
    · rcases List.mem_cons.1 h with rfl | h
      · exact List.cons_ne_nil _ _
      · exact ih h
    · split at h
      · rw [List.mem_singleton.1 h]
        exact List.cons_ne_nil _ _
      · next first later hlines =>
        rcases List.mem_cons.1 h with rfl | h
        · exact List.cons_ne_nil _ _
        · exact ih (hlines ▸ List.mem_cons_of_mem first h)

/-- What a line says, without the blanks around it, if it is text. -/
def wordOf? (line : Bytes) : Option Text := (Utf8.decode? line).map Text.trim

section Kinds

variable (options : List NamedJob) (line : Bytes)

/-- The line is not text. -/
def Broken : Prop := wordOf? line = none

/-- The line is the letter for cancelling. -/
def Cancels : Prop := ∃ word, wordOf? line = some word ∧ Catalog.isCancel word = true

/-- The line is the id of the option. -/
def Names (option : NamedJob) : Prop := option ∈ options ∧ wordOf? line = some option.id

/-- The line is text, but neither the letter for cancelling nor an id. -/
def Idle : Prop := ∃ word, wordOf? line = some word ∧ Catalog.isCancel word = false ∧
  ∀ option ∈ options, option.id ≠ word

end Kinds

/-- The line is one of the input, and all lines before it are idle. -/
def Reached (options : List NamedJob) (input line : Bytes) : Prop :=
  ∃ before rest, lines input = before ++ line :: rest ∧ ∀ earlier ∈ before, Idle options earlier

variable {options : List NamedJob} {input line : Bytes}

/-- The characters that end a line are blanks, so they do not matter for what it says. -/
theorem wordOf?_eq (line : Bytes) : wordOf? line = (lineText? line).map Text.trim := by
  unfold wordOf? lineText?
  cases Utf8.decode? line with
  | none => rfl
  | some text =>
    let ends := fun c : Char => c == '\r' || c == '\n'
    have hblank : ∀ c ∈ (text.reverse.takeWhile ends).reverse, isBlank c = true := by
      intro c hc
      have hend : ends c = true :=
        List.all_eq_true.1 List.all_takeWhile c (List.mem_reverse.1 hc)
      simp only [ends, Bool.or_eq_true, beq_iff_eq] at hend
      rcases hend with rfl | rfl <;> decide
    have hsplit : text = (text.reverse.dropWhile ends).reverse ++
        (text.reverse.takeWhile ends).reverse := by
      rw [← List.reverse_append, List.takeWhile_append_dropWhile, List.reverse_reverse]
    have htrim : text.trim = Text.trim (text.reverse.dropWhile ends).reverse := by
      conv => lhs; rw [hsplit]
      exact Text.trim_append_of_blank hblank
    exact congrArg some htrim

/-- **What a line decides**, by what it says. -/
theorem decision?_eq (hline : line ≠ []) : decision? options line =
    match wordOf? line with
    | none => some (.error .notText)
    | some word =>
      if Catalog.isCancel word then some (.ok .cancelled)
      else if options.any (·.id == word) then some (.ok (.option word))
      else none := by
  rw [decision?, if_neg (by simpa using hline), wordOf?_eq]
  cases lineText? line with
  | none => rfl
  | some text =>
    simp only [Option.map_some, answerTo]
    split_ifs <;> rfl

/-- An idle line decides nothing. -/
theorem decision?_of_idle (hline : line ≠ []) (h : Idle options line) :
    decision? options line = none := by
  obtain ⟨word, hword, hcancel, hids⟩ := h
  have hnone : options.any (·.id == word) = false := by
    rw [List.any_eq_false]
    exact fun option hoption => by simpa using hids option hoption
  simp [decision?_eq hline, hword, hcancel, hnone]

/-- A line that names an option decides for it, unless the id is the letter for cancelling. -/
theorem decision?_of_names {option : NamedJob} (hline : line ≠ []) (h : Names options line option)
    (hcancel : Catalog.isCancel option.id = false) :
    decision? options line = some (.ok (.option option.id)) := by
  obtain ⟨hoption, hword⟩ := h
  have hany : options.any (·.id == option.id) = true :=
    List.any_eq_true.2 ⟨option, hoption, by simp⟩
  simp [decision?_eq hline, hword, hcancel, hany]

theorem decision?_of_cancels (hline : line ≠ []) (h : Cancels line) :
    decision? options line = some (.ok .cancelled) := by
  obtain ⟨word, hword, hcancel⟩ := h
  simp [decision?_eq hline, hword, hcancel]

theorem decision?_of_broken (hline : line ≠ []) (h : Broken line) :
    decision? options line = some (.error .notText) := by
  rw [Broken] at h
  simp [decision?_eq hline, h]

end Menu

namespace Session

open Menu

variable {options : List NamedJob} {input line : Bytes}

/-- **The first line that decides is the choice.** Without one the menu is cancelled. -/
theorem result_run (options : List NamedJob) (afterUnknown : Bool) (input : Bytes) :
    (run options afterUnknown input).result =
      ((lines input).findSome? (decision? options)).getD (.ok .cancelled) := by
  induction hn : input.length using Nat.strongRecOn generalizing input afterUnknown with
  | ind n ih =>
    subst hn
    rw [run]
    split
    · next result hdecision =>
      by_cases hinput : input = []
      · -- the end of the input cancels
        subst hinput
        cases hdecision
        rfl
      · rw [lines_eq_cons hinput, List.findSome?_cons, hdecision]
        rfl
    · next hdecision =>
      have hinput : input ≠ [] := by
        rintro rfl
        cases hdecision
      show (run options true (afterLine input)).result = _
      rw [ih _ (afterLine_length_lt hinput) true (afterLine input) rfl, lines_eq_cons hinput,
        List.findSome?_cons, hdecision]

/-- Idle lines are passed over. -/
theorem findSome?_of_idle {before : List Bytes} (hlines : ∀ line ∈ before, line ∈ lines input)
    (hidle : ∀ line ∈ before, Idle options line) : before.findSome? (decision? options) = none := by
  rw [List.findSome?_eq_none_iff]
  intro line hline
  exact decision?_of_idle (ne_nil_of_mem_lines (hlines line hline)) (hidle line hline)

/-- The line that is reached decides, if it decides at all. -/
theorem result_of_reached (h : Reached options input line) {result : Except IoError Selection}
    (hdecision : decision? options line = some result) :
    (ofInput options input).result = result := by
  obtain ⟨before, rest, hlines, hidle⟩ := h
  have hbefore : before.findSome? (decision? options) = none :=
    findSome?_of_idle (fun line hline => hlines ▸ List.mem_append_left _ hline) hidle
  rw [ofInput, result_run, hlines, List.findSome?_append, hbefore, List.findSome?_cons, hdecision]
  rfl

/-- What is chosen is an option. -/
theorem exists_option_of_result {id : Text}
    (h : (ofInput options input).result = .ok (.option id)) : ∃ option ∈ options, option.id = id := by
  rw [ofInput, result_run] at h
  cases hfound : (lines input).findSome? (decision? options) with
  | none =>
    rw [hfound] at h
    cases h
  | some result =>
    rw [hfound] at h
    cases h
    obtain ⟨line, hline, hdecision⟩ := List.exists_of_findSome?_eq_some hfound
    rw [decision?_eq (ne_nil_of_mem_lines hline)] at hdecision
    split at hdecision
    · cases hdecision
    · next word hword =>
      split at hdecision
      · cases hdecision
      · split at hdecision
        · next hany =>
          cases hdecision
          simpa using List.any_eq_true.1 hany
        · cases hdecision

/-- Where all lines are idle, the end of the input cancels. -/
theorem result_of_idle (h : ∀ line ∈ lines input, Idle options line) :
    (ofInput options input).result = .ok .cancelled := by
  rw [ofInput, result_run, findSome?_of_idle (fun line hline => hline) h]
  rfl

end Session

theorem Menu.Reached.ne_nil {options : List NamedJob} {input line : Bytes}
    (h : Reached options input line) : line ≠ [] := by
  obtain ⟨before, rest, hlines, -⟩ := h
  exact ne_nil_of_mem_lines (hlines ▸ List.mem_append_right _ List.mem_cons_self)

end Stencil
