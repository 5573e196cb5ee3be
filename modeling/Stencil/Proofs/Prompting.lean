import Stencil.Proofs.Selecting

/-!
# The rounds of a menu

In each round the menu shows the options, asks for a line, and takes one line off the input. The
first line that decides ends the menu, and what comes after it is left; if there is none, a last
round meets the end of the input.

* `Menu.isSplit_lines`: the lines are the pieces of the input after each line feed.
* `Menu.decision?_eq_some_iff`: what a line decides.
* `Menu.request`, `Menu.screen_append_prompt`: what a round shows.
* `Session.run_of_decides`, `Session.run_of_idle`: a menu with its rounds, from its first line on.
* `Session.ofInput_rounds`: **how a menu ends, what it shows, and what it leaves of its input.**
-/

namespace Stencil

namespace Menu

variable {options : List NamedJob} {input line : Bytes} {result : Except IoError Selection}

/-- The pieces of the input are cut after each line feed. A last piece need not have one. -/
structure IsSplit (input : Bytes) (pieces : List Bytes) : Prop where
  flatten : pieces.flatten = input
  ne_nil : ∀ piece ∈ pieces, piece ≠ []
  whole : ∀ piece ∈ pieces, lineFeed ∉ piece.dropLast
  ended : ∀ piece ∈ pieces.dropLast, piece.getLast? = some lineFeed

/-- **The lines are the pieces of the input** after each line feed. -/
theorem isSplit_lines (input : Bytes) : IsSplit input (lines input) := by
  refine ⟨flatten_lines input, fun piece => ne_nil_of_mem_lines, ?_, ?_⟩
  · induction input with
    | nil => exact nofun
    | cons b rest ih =>
      unfold lines
      split
      · exact List.forall_mem_cons.2 ⟨by simp, ih⟩
      · next hb =>
        split
        · simp
        · next first later hlines =>
          rw [hlines] at ih
          obtain ⟨hfirst, hlater⟩ := List.forall_mem_cons.1 ih
          have hne : first ≠ [] := ne_nil_of_mem_lines (hlines ▸ List.mem_cons_self)
          refine List.forall_mem_cons.2 ⟨?_, hlater⟩
          rw [List.dropLast_cons_of_ne_nil hne, List.mem_cons, not_or]
          exact ⟨Ne.symm hb, hfirst⟩
  · induction input with
    | nil => exact nofun
    | cons b rest ih =>
      unfold lines
      split
      · next hb =>
        by_cases hlater : lines rest = []
        · rw [hlater]
          exact nofun
        · rw [List.dropLast_cons_of_ne_nil hlater]
          exact List.forall_mem_cons.2 ⟨by rw [hb]; rfl, ih⟩
      · split
        · exact nofun
        · next first later hlines =>
          rw [hlines] at ih
          have hne : first ≠ [] := ne_nil_of_mem_lines (hlines ▸ List.mem_cons_self)
          by_cases hlater : later = []
          · rw [hlater]
            exact nofun
          · rw [List.dropLast_cons_of_ne_nil hlater] at ih ⊢
            obtain ⟨hfirst, hrest⟩ := List.forall_mem_cons.1 ih
            refine List.forall_mem_cons.2 ⟨?_, hrest⟩
            rw [List.getLast?_cons_of_ne_nil hne]
            exact hfirst

/-- **What a line decides**: a line that is no text ends the menu with an error, the letter for
cancelling cancels, and any other line that is an id chooses it. -/
def Decides (options : List NamedJob) (line : Bytes) : Except IoError Selection → Prop
  | .error cause => Broken line ∧ cause = .notText
  | .ok .cancelled => Cancels line
  | .ok (.option id) => ¬ Cancels line ∧ ∃ option, Names options line option ∧ option.id = id

theorem decision?_eq_some_iff (hline : line ≠ []) :
    decision? options line = some result ↔ Decides options line result := by
  constructor
  · intro h
    rw [decision?_eq hline] at h
    split at h
    · next hword =>
      cases h
      exact ⟨hword, rfl⟩
    · next word hword =>
      split at h
      · next hcancel =>
        cases h
        exact ⟨word, hword, hcancel⟩
      · next hcancel =>
        split at h
        · next hany =>
          cases h
          obtain ⟨option, hoption, hid⟩ := List.any_eq_true.1 hany
          obtain rfl : option.id = word := beq_iff_eq.1 hid
          refine ⟨?_, option, ⟨hoption, hword⟩, rfl⟩
          rintro ⟨other, hother, hcancels⟩
          cases hword.symm.trans hother
          exact hcancel hcancels
        · cases h
  · intro h
    match result, h with
    | .error cause, ⟨hbroken, hcause⟩ =>
      rw [hcause]
      exact decision?_of_broken hline hbroken
    | .ok .cancelled, hcancels => exact decision?_of_cancels hline hcancels
    | .ok (.option id), ⟨hcancels, option, hnames, hid⟩ =>
      have hcancel : Catalog.isCancel option.id = false :=
        Bool.eq_false_iff.2 fun hcancel => hcancels ⟨option.id, hnames.2, hcancel⟩
      rw [← hid]
      exact decision?_of_names hline hnames hcancel

/-- A line decides, or it says nothing to the menu. -/
theorem idle_or_decides (options : List NamedJob) (hline : line ≠ []) :
    Idle options line ∨ ∃ result, Decides options line result := by
  cases hdecision : decision? options line with
  | some result => exact .inr ⟨result, (decision?_eq_some_iff hline).1 hdecision⟩
  | none =>
    rw [decision?_eq hline] at hdecision
    split at hdecision
    · cases hdecision
    · next word hword =>
      split at hdecision
      · cases hdecision
      · next hcancel =>
        split at hdecision
        · cases hdecision
        · next hany =>
          refine .inl ⟨word, hword, Bool.eq_false_iff.2 hcancel, fun option hoption hid => hany ?_⟩
          exact List.any_eq_true.2 ⟨option, hoption, beq_iff_eq.2 hid⟩

/-- What stands above the options after a line that decided nothing. -/
def notice : Text := "\nThat option isn't valid...\n\n"

/-- How a line is asked for: a question, a line with the id and the name of every option, in their
order, a line for cancelling, and the prompt. -/
def request (options : List NamedJob) : Text :=
  .concat [
    "\nWhat action would you like to take?\n",
    options.flatMap fun option => Text.concat ["\t[", option.id, "]. ", option.name, "\n"],
    "\t[C]. Cancel\n\n",
    "Make your choice: "]

/-- **What a round shows**: how a line is asked for, under a notice if the line before decided
nothing. -/
theorem screen_append_prompt (options : List NamedJob) (afterUnknown : Bool) :
    screen options afterUnknown ++ prompt =
      (if afterUnknown then notice else []) ++ request options := by
  have hcancel : "\t[".toList ++ (Catalog.cancelId ++ "]. Cancel\n\n".toList) =
      "\t[C]. Cancel\n\n".toList := by decide
  have hempty : "".toList = [] := rfl
  unfold screen request prompt notice
  rw [hempty, ← hcancel]
  -- the sentences as variables, lest they are taken apart
  generalize "\nThat option isn't valid...\n\n".toList = sentence
  generalize "\nWhat action would you like to take?\n".toList = question
  generalize "Make your choice: ".toList = asked
  simp only [Text.concat, List.flatten_cons, List.flatten_nil, List.append_assoc, List.append_nil]

end Menu

namespace Session

open Menu

variable {options : List NamedJob} {input line : Bytes} {before rest : List Bytes}
  {result : Except IoError Selection}

/-- What is shown in `count` rounds: the options and the prompt in each, and from the second one on
also that the line before decided nothing. -/
def rounds (count : Nat) (afterUnknown : Bool) : List Display :=
  match count with
  | 0 => []
  | count + 1 => .screen afterUnknown :: .prompt :: rounds count true

/-- A line that decides nothing leads to another round, on the rest of the input. -/
theorem run_of_no_decision (h : decision? options (firstLine input) = none) (afterUnknown : Bool) :
    run options afterUnknown input =
      ⟨(run options true (afterLine input)).result,
        .screen afterUnknown :: .prompt :: (run options true (afterLine input)).displays,
        (run options true (afterLine input)).unread⟩ := by
  rw [run]
  split
  · next found hfound =>
    rw [h] at hfound
    cases hfound
  · rfl

/-- The input is cut at its first line. -/
theorem cut_of_lines (h : lines input = line :: rest) :
    line ≠ [] ∧ firstLine input = line ∧ lines (afterLine input) = rest := by
  have hinput : input ≠ [] := by
    rintro rfl
    cases h
  have hmem : line ∈ lines input := by
    rw [h]
    exact List.mem_cons_self
  rw [lines_eq_cons hinput] at h
  exact ⟨ne_nil_of_mem_lines hmem, List.cons.inj h⟩

/-- **The first line that decides ends the menu.** There is one round for each line up to it, and
what comes after it is left. -/
theorem run_of_decides (hlines : lines input = before ++ line :: rest)
    (hidle : ∀ earlier ∈ before, Idle options earlier) (hdecides : Decides options line result)
    (afterUnknown : Bool) :
    run options afterUnknown input =
      ⟨result, rounds (before.length + 1) afterUnknown, rest.flatten⟩ := by
  induction before generalizing input afterUnknown with
  | nil =>
    obtain ⟨hline, hfirst, hrest⟩ := cut_of_lines hlines
    have hdecision : decision? options (firstLine input) = some result := by
      rw [hfirst]
      exact (decision?_eq_some_iff hline).2 hdecides
    rw [run_of_decision hdecision, ← hrest, flatten_lines]
    rfl
  | cons first before ih =>
    obtain ⟨hne, hfirst, hrest⟩ := cut_of_lines hlines
    obtain ⟨hidleFirst, hidleBefore⟩ := List.forall_mem_cons.1 hidle
    have hdecision : decision? options (firstLine input) = none := by
      rw [hfirst]
      exact decision?_of_idle hne hidleFirst
    rw [run_of_no_decision hdecision, ih hrest hidleBefore true]
    rfl

/-- **Without a line that decides, the end of the input cancels**, in a round of its own. -/
theorem run_of_idle (h : ∀ line ∈ lines input, Idle options line) (afterUnknown : Bool) :
    run options afterUnknown input =
      ⟨.ok .cancelled, rounds ((lines input).length + 1) afterUnknown, []⟩ := by
  generalize hlines : lines input = all at h ⊢
  induction all generalizing input afterUnknown with
  | nil =>
    have hinput : input = [] := by rw [← flatten_lines input, hlines, List.flatten_nil]
    subst hinput
    have hdecision : decision? options (firstLine []) = some (.ok .cancelled) := rfl
    exact run_of_decision hdecision afterUnknown
  | cons first all ih =>
    obtain ⟨hne, hfirst, hrest⟩ := cut_of_lines hlines
    obtain ⟨hidleFirst, hidleAll⟩ := List.forall_mem_cons.1 h
    have hdecision : decision? options (firstLine input) = none := by
      rw [hfirst]
      exact decision?_of_idle hne hidleFirst
    rw [run_of_no_decision hdecision, ih true hrest hidleAll]
    rfl

theorem count_prompt_rounds (count : Nat) (afterUnknown : Bool) :
    (rounds count afterUnknown).count .prompt = count := by
  induction count generalizing afterUnknown with
  | zero => rfl
  | succ count ih => simp [rounds, ih]

/-- The rounds as text. All but the first one begin with the notice. -/
theorem text_rounds (options : List NamedJob) (count : Nat) :
    (rounds (count + 1) false).flatMap (Display.text options) =
      request options ++ (List.replicate count (notice ++ request options)).flatten := by
  have hround : ∀ count afterUnknown, (rounds (count + 1) afterUnknown).flatMap (Display.text options) =
      (if afterUnknown then notice else []) ++ request options ++
        (rounds count true).flatMap (Display.text options) := by
    intro count afterUnknown
    rw [rounds, List.flatMap_cons, List.flatMap_cons, ← List.append_assoc, Display.text, Display.text,
      screen_append_prompt]
  have hlater : ∀ count, (rounds count true).flatMap (Display.text options) =
      (List.replicate count (notice ++ request options)).flatten := by
    intro count
    induction count with
    | zero => rfl
    | succ count ih => rw [hround, ih, if_pos rfl, List.replicate_succ, List.flatten_cons]
  rw [hround, hlater, if_neg Bool.false_ne_true, List.nil_append]

/-- **How a menu ends, what it shows, and what it leaves of its input.**

The lines of the input are its pieces after each line feed, and each of them decides or says
nothing. If there is a first line that decides, the menu ends with what it decides, after one round
for each line up to it, and all that comes after it is left. If there is none, the menu is cancelled
after one round more than there are lines, and nothing is left. Each round asks once, under the list
of the options, and from the second round on there is the notice above it. -/
theorem ofInput_rounds (options : List NamedJob) (input : Bytes) :
    IsSplit input (lines input) ∧
    (∀ line ∈ lines input, Idle options line ∨ ∃ result, Decides options line result) ∧
    (∀ before line rest result, lines input = before ++ line :: rest →
      (∀ earlier ∈ before, Idle options earlier) → Decides options line result →
        ofInput options input = ⟨result, rounds (before.length + 1) false, rest.flatten⟩) ∧
    ((∀ line ∈ lines input, Idle options line) →
      ofInput options input = ⟨.ok .cancelled, rounds ((lines input).length + 1) false, []⟩) ∧
    ∀ count, (rounds count false).count .prompt = count ∧
      (rounds (count + 1) false).flatMap (Display.text options) =
        request options ++ (List.replicate count (notice ++ request options)).flatten := by
  refine ⟨isSplit_lines input, fun line hline => ?_, fun before line rest result hlines hidle h => ?_,
    fun hidle => ?_, fun count => ⟨?_, ?_⟩⟩
  · exact idle_or_decides options (ne_nil_of_mem_lines hline)
  · exact run_of_decides hlines hidle h false
  · exact run_of_idle hidle false
  · exact count_prompt_rounds count false
  · exact text_rounds options count

/-- One option, a line that is not its id, and the end of the input. -/
example :
    let option : NamedJob := ⟨['1'], "Pages", .ofText ['t'], .ofText ['o'], .ofText ['v'], ['*']⟩
    (ofInput [option] (Utf8.encode "2\n")).shown [option] = Text.concat [
      "\nWhat action would you like to take?\n\t[1]. Pages\n\t[C]. Cancel\n\nMake your choice: ",
      "\nThat option isn't valid...\n\n",
      "\nWhat action would you like to take?\n\t[1]. Pages\n\t[C]. Cancel\n\nMake your choice: "] := by
  decide +kernel

end Session

end Stencil
