import Stencil.Catalog.Basic
import Stencil.Text.Utf8

/-!
# Menu

The options are shown and a line of input is asked for, again and again until a line decides: it
holds the id of an option, or the letter for cancelling. The end of the input cancels too.

* `answerTo_eq_chosen_iff`: a line chooses an option exactly if it is its id, blanks aside.
* `firstLine_append_rest`: taking a line off the input loses no byte.
* `Session.ofInput`: the menu on a given input.
-/

namespace Stencil

/-- What the menu ends with. -/
inductive Selection where
  | option (id : Text)
  | cancelled
  deriving DecidableEq, Repr

/-- What a line of input means for the menu. -/
inductive Answer where
  | chosen (id : Text)
  | cancel
  /-- The line decides nothing. -/
  | unknown (line : Text)
  deriving DecidableEq, Repr

namespace Menu

/-- What a line of input means, among the given options. -/
def answerTo (options : List NamedJob) (line : Text) : Answer :=
  if Catalog.isCancel line.trim then .cancel
  else if options.any (·.id == line.trim) then .chosen line.trim
  else .unknown line

/-- The options as shown, after a line that decided nothing or at the start. -/
def screen (options : List NamedJob) (afterUnknown : Bool) : Text :=
  .concat [
    if afterUnknown then "\nThat option isn't valid...\n\n" else "",
    "\nWhat action would you like to take?\n",
    options.flatMap fun option => Text.concat ["\t[", option.id, "]. ", option.name, "\n"],
    "\t[", Catalog.cancelId, "]. Cancel\n\n"]

/-- What is shown before each line of input. -/
def prompt : Text := "Make your choice: "

/-- The byte that ends a line. -/
def lineFeed : UInt8 := 10

/-- The first line of the input, with the byte that ends it. -/
def firstLine : Bytes → Bytes
  | [] => []
  | b :: rest => if b = lineFeed then [b] else b :: firstLine rest

/-- The input after its first line. -/
def afterLine (input : Bytes) : Bytes := input.drop (firstLine input).length

theorem firstLine_append_rest (input : Bytes) : firstLine input ++ afterLine input = input := by
  unfold afterLine
  induction input with
  | nil => rfl
  | cons b rest ih =>
    by_cases h : b = lineFeed
    · simp [firstLine, h]
    · simpa [firstLine, h] using ih

theorem afterLine_length_lt {input : Bytes} (h : input ≠ []) :
    (afterLine input).length < input.length := by
  cases input with
  | nil => exact absurd rfl h
  | cons b rest =>
    rw [afterLine, List.length_drop]
    have : 0 < (firstLine (b :: rest)).length := by
      unfold firstLine
      split <;> simp
    simp only [List.length_cons] at this ⊢
    omega

/-- The text of a line without the characters that end it. -/
def lineText? (line : Bytes) : Option Text :=
  (Utf8.decode? line).map fun text =>
    (text.reverse.dropWhile fun c => c == '\r' || c == '\n').reverse

/-- Whether a line of input ends the menu, and how. The empty line, without a byte that ends it,
stands for the end of the input. -/
def decision? (options : List NamedJob) (line : Bytes) : Option (Except IoError Selection) :=
  if line.isEmpty then some (.ok .cancelled)
  else
    match lineText? line with
    | none => some (.error .notText)
    | some text =>
      match answerTo options text with
      | .chosen id => some (.ok (.option id))
      | .cancel => some (.ok .cancelled)
      | .unknown _ => none

end Menu

/-- Something that the menu shows. -/
inductive Display where
  | screen (afterUnknown : Bool)
  | prompt
  deriving DecidableEq, Repr

/-- What the menu shows, as text. -/
def Display.text (options : List NamedJob) : Display → Text
  | .screen afterUnknown => Menu.screen options afterUnknown
  | .prompt => Menu.prompt

/-- A menu from its start to its end. -/
structure Session where
  result : Except IoError Selection
  displays : List Display
  /-- The input that is left. -/
  unread : Bytes

namespace Session

/-- The menu on the input, after a line that decided nothing or at the start. -/
def run (options : List NamedJob) (afterUnknown : Bool) (input : Bytes) : Session :=
  let shown := [.screen afterUnknown, .prompt]
  match h : Menu.decision? options (Menu.firstLine input) with
  | some result => ⟨result, shown, Menu.afterLine input⟩
  | none =>
    -- The end of the input decides, so there was a line.
    have _ : input ≠ [] := by
      rintro rfl
      simp [Menu.firstLine, Menu.decision?] at h
    let later := run options true (Menu.afterLine input)
    { later with displays := shown ++ later.displays }
  termination_by input.length
  decreasing_by exact Menu.afterLine_length_lt ‹_›

/-- The menu on the input. -/
def ofInput (options : List NamedJob) (input : Bytes) : Session := run options false input

/-- All that the menu shows, as text. -/
def shown (session : Session) (options : List NamedJob) : Text :=
  session.displays.flatMap (Display.text options)

end Session

theorem answerTo_eq_chosen_iff {options : List NamedJob} {line id : Text} :
    Menu.answerTo options line = .chosen id ↔
      id = line.trim ∧ Catalog.isCancel id = false ∧ ∃ option ∈ options, option.id = id := by
  unfold Menu.answerTo
  by_cases hc : Catalog.isCancel line.trim
  · simp only [hc, if_true, reduceCtorEq, false_iff, not_and]
    rintro rfl h
    rw [hc] at h
    cases h
  · by_cases ho : options.any (·.id == line.trim)
    · simp only [hc, ho, if_true, if_false, Bool.false_eq_true, Answer.chosen.injEq]
      constructor
      · rintro rfl
        exact ⟨rfl, by simpa using hc, by simpa using ho⟩
      · rintro ⟨rfl, -⟩
        rfl
    · simp only [hc, ho, if_false, Bool.false_eq_true, reduceCtorEq, false_iff, not_and]
      rintro rfl - ⟨option, hm, he⟩
      exact ho (List.any_eq_true.2 ⟨option, hm, by simp [he]⟩)

end Stencil
