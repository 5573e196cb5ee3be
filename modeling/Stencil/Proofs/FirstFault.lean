import Mathlib.Data.List.Basic
import Stencil.Proofs.Printing

/-!
# The line to blame

A variable file is read line by line up to the first line that is neither passed over nor a
definition. That line is reported with its number among all lines of the file. So nothing after it
matters.

* `DefinitionFault.HoldsOf`, `DefinitionFault.IsFirstOf`: what is wrong with a line, and the first
  thing that is.
* `splitDefinition_eq_error_iff`: **a line that is no definition is blamed for the first thing wrong
  with it.**
* `Malformed`: a line for which a file is refused.
* `Variables.parse_append`: a file that goes on after a whole line is read on from there.
* `Variables.parse_blames_first`: **a file is refused exactly for its first malformed line.**
-/

namespace Stencil

namespace DefinitionFault

/-- What is wrong with a trimmed line: it has no equals sign, it starts with one, or the first one
is its last character. -/
def HoldsOf : DefinitionFault → Text → Prop
  | .noEqualsSign, line => '=' ∉ line
  | .emptyKey, line => line.head? = some '='
  | .emptyValue, line => line.getLast? = some '=' ∧ '=' ∉ line.dropLast

instance : ∀ (reason : DefinitionFault) (line : Text), Decidable (reason.HoldsOf line)
  | .noEqualsSign, line => inferInstanceAs (Decidable ('=' ∉ line))
  | .emptyKey, line => inferInstanceAs (Decidable (line.head? = some '='))
  | .emptyValue, line => inferInstanceAs (Decidable (line.getLast? = some '=' ∧ '=' ∉ line.dropLast))

instance decidableForall {P : DefinitionFault → Prop} [DecidablePred P] :
    Decidable (∀ reason, P reason) :=
  decidable_of_iff (P .noEqualsSign ∧ P .emptyKey ∧ P .emptyValue)
    ⟨fun ⟨h₁, h₂, h₃⟩ reason => by cases reason <;> assumption, fun h => ⟨h _, h _, h _⟩⟩

instance decidableExists {P : DefinitionFault → Prop} [DecidablePred P] :
    Decidable (∃ reason, P reason) :=
  decidable_of_iff (P .noEqualsSign ∨ P .emptyKey ∨ P .emptyValue)
    ⟨fun h => h.elim (⟨_, ·⟩) fun h => h.elim (⟨_, ·⟩) (⟨_, ·⟩),
      fun ⟨reason, h⟩ => by cases reason <;> simp [h]⟩

/-- The order in which a line is blamed for what is wrong with it. -/
def rank : DefinitionFault → Nat
  | .noEqualsSign => 0
  | .emptyKey => 1
  | .emptyValue => 2

/-- **The first thing wrong with a line.** -/
structure IsFirstOf (reason : DefinitionFault) (line : Text) : Prop where
  holds : reason.HoldsOf line
  first : ∀ other : DefinitionFault, other.rank < reason.rank → ¬ other.HoldsOf line

instance (reason : DefinitionFault) (line : Text) : Decidable (reason.IsFirstOf line) :=
  decidable_of_iff (reason.HoldsOf line ∧
      ∀ other : DefinitionFault, other.rank < reason.rank → ¬ other.HoldsOf line)
    ⟨fun ⟨holds, first⟩ => ⟨holds, first⟩, fun h => ⟨h.holds, h.first⟩⟩

variable {reason other : DefinitionFault} {line : Text}

theorem rank_injective : Function.Injective rank := by
  intro reason other h
  cases reason <;> cases other <;> simp_all [rank]

/-- Only one thing is the first. -/
theorem IsFirstOf.unique (h : reason.IsFirstOf line) (h' : other.IsFirstOf line) :
    reason = other := by
  refine rank_injective (Nat.le_antisymm ?_ ?_)
  · exact Nat.le_of_not_lt fun hlt => h.first other hlt h'.holds
  · exact Nat.le_of_not_lt fun hlt => h'.first reason hlt h.holds

end DefinitionFault

open DefinitionFault

variable {line raw key value p q content : Text} {lines before after : List Text}
  {reason : DefinitionFault} {fault : LineFault}

theorem not_noEqualsSign (key value : Text) : ¬ HoldsOf .noEqualsSign (key ++ '=' :: value) :=
  fun hnone => hnone (by simp)

theorem not_emptyKey (hkey : key ≠ []) (hequals : '=' ∉ key) (value : Text) :
    ¬ HoldsOf .emptyKey (key ++ '=' :: value) := by
  intro hhead
  obtain ⟨c, rest, rfl⟩ := List.exists_cons_of_ne_nil hkey
  rw [HoldsOf, List.cons_append, List.head?_cons, Option.some.injEq] at hhead
  exact hequals (hhead ▸ List.mem_cons_self)

/-- The first equals sign has the value after it. -/
theorem not_emptyValue (key : Text) (hvalue : value ≠ []) :
    ¬ HoldsOf .emptyValue (key ++ '=' :: value) := by
  rintro ⟨-, hlast⟩
  rw [List.dropLast_append_of_ne_nil (by simp), List.dropLast_cons_of_ne_nil hvalue] at hlast
  exact hlast (by simp)

/-- Nothing is wrong with a line that is split. -/
theorem not_holdsOf_of_splitDefinition (h : splitDefinition line = .ok (key, value))
    (reason : DefinitionFault) : ¬ reason.HoldsOf line := by
  obtain ⟨hkey, hequals, hvalue, rfl⟩ := splitDefinition_eq_ok_iff.1 h
  cases reason with
  | noEqualsSign => exact not_noEqualsSign key value
  | emptyKey => exact not_emptyKey hkey hequals value
  | emptyValue => exact not_emptyValue key hvalue

/-- A line that is not split is blamed for the first thing wrong with it. -/
theorem isFirstOf_of_splitDefinition (h : splitDefinition line = .error reason) :
    reason.IsFirstOf line := by
  unfold splitDefinition at h
  split at h
  · next hcut =>
    cases h
    exact ⟨Text.cutAt?_eq_none_iff.1 hcut, fun other hlt => absurd hlt (Nat.not_lt_zero _)⟩
  · next key value hcut =>
    obtain ⟨hequals, rfl⟩ := Text.cutAt?_eq_some_iff.1 hcut
    split at h
    · next hkey =>
      cases h
      rw [List.isEmpty_iff.1 hkey]
      refine ⟨rfl, fun other hlt => ?_⟩
      cases other with
      | noEqualsSign => exact not_noEqualsSign [] value
      | emptyKey | emptyValue => exact absurd hlt (by decide)
    · next hkey =>
      split at h
      · next hvalue =>
        cases h
        rw [List.isEmpty_iff.1 hvalue]
        refine ⟨⟨by simp, by simpa using hequals⟩, fun other hlt => ?_⟩
        cases other with
        | noEqualsSign => exact not_noEqualsSign key []
        | emptyKey => exact not_emptyKey (by simpa using hkey) hequals []
        | emptyValue => exact absurd hlt (by decide)
      · cases h

/-- **A line is blamed for the first thing wrong with it**, and for nothing else. -/
theorem splitDefinition_eq_error_iff : splitDefinition line = .error reason ↔
    reason.IsFirstOf line := by
  refine ⟨isFirstOf_of_splitDefinition, fun hfirst => ?_⟩
  cases hsplit : splitDefinition line with
  | ok definition => exact absurd hfirst.holds (not_holdsOf_of_splitDefinition hsplit reason)
  | error other => rw [(isFirstOf_of_splitDefinition hsplit).unique hfirst]

/-- **A malformed line**: without the blanks around it, it is not empty and no comment, and
something is wrong with it. -/
structure Malformed (raw : Text) : Prop where
  not_blank : raw.trim ≠ []
  no_comment : raw.trim.head? ≠ some '#'
  fault : ∃ reason : DefinitionFault, reason.HoldsOf raw.trim

instance (raw : Text) : Decidable (Malformed raw) :=
  decidable_of_iff (raw.trim ≠ [] ∧ raw.trim.head? ≠ some '#' ∧
      ∃ reason : DefinitionFault, reason.HoldsOf raw.trim)
    ⟨fun ⟨not_blank, no_comment, fault⟩ => ⟨not_blank, no_comment, fault⟩,
      fun h => ⟨h.not_blank, h.no_comment, h.fault⟩⟩

/-- A malformed line is one that counts and is not split. -/
theorem malformed_iff : Malformed raw ↔
    countsAsDefinition raw.trim = true ∧ ∃ reason, splitDefinition raw.trim = .error reason := by
  rw [countsAsDefinition_iff]
  constructor
  · rintro ⟨hblank, hcomment, reason, hholds⟩
    refine ⟨⟨hblank, hcomment⟩, ?_⟩
    cases hsplit : splitDefinition raw.trim with
    | ok definition => exact absurd hholds (not_holdsOf_of_splitDefinition hsplit reason)
    | error other => exact ⟨other, rfl⟩
  · rintro ⟨⟨hblank, hcomment⟩, reason, hsplit⟩
    exact ⟨hblank, hcomment, reason, (splitDefinition_eq_error_iff.1 hsplit).holds⟩

/-- The lines of a variable file. A byte order mark at its start belongs to none of them. -/
def fileLines (content : Text) : List Text := splitAt '\n' content.dropMark

/-- The numbers go on after the first lines. -/
theorem numberedLines_append (first : Nat) (before after : List Text) :
    numberedLines first (before ++ after) =
      numberedLines first before ++ numberedLines (first + before.length) after := by
  induction before generalizing first with
  | nil => rfl
  | cons raw before ih =>
    have hnumber : first + (raw :: before).length = first + 1 + before.length := by
      rw [List.length_cons]
      omega
    rw [List.cons_append, numberedLines, numberedLines, hnumber]
    split
    · rw [ih, List.cons_append]
    · exact ih (first + 1)

/-- The byte order mark is dropped before what ends with the line feed. -/
theorem exists_dropMark_eq (text : Text) :
    ∃ start, ∀ q : Text, Text.dropMark (text ++ '\n' :: q) = start ++ '\n' :: q := by
  cases text with
  | nil =>
    refine ⟨[], fun q => ?_⟩
    rw [List.nil_append, Text.dropMark, if_neg (by decide)]
  | cons c text =>
    by_cases hmark : c = byteOrderMark
    · exact ⟨text, fun q => if_pos hmark⟩
    · exact ⟨c :: text, fun q => if_neg hmark⟩

namespace Variables

/-- The lines after the first ones are read into the store that these leave. -/
theorem defineLines_append (store : Variables) (before after : List (Nat × Text)) :
    defineLines store (before ++ after) =
      (defineLines store before).bind fun result => defineLines result after := by
  induction before generalizing store with
  | nil => rfl
  | cons numbered before ih =>
    obtain ⟨number, line⟩ := numbered
    rw [List.cons_append, defineLines, defineLines]
    cases splitDefinition line with
    | ok definition => exact ih _
    | error reason => rfl

/-- A file is read line by line, from the number one on. -/
theorem parse_eq_defineLines (content : Text) :
    parse content = defineLines empty (numberedLines 1 (fileLines content)) := rfl

/-- **A file that goes on after a whole line is read on from there.** -/
theorem parse_append (hfeed : p.getLast? = some '\n') (q : Text) :
    parse (p ++ q) = (parse p).bind fun store =>
      defineLines store (numberedLines (fileLines p).length (splitAt '\n' q)) := by
  obtain ⟨text, rfl⟩ := List.getLast?_eq_some_iff.1 hfeed
  obtain ⟨start, hstart⟩ := exists_dropMark_eq text
  have hlines : ∀ q, fileLines (text ++ '\n' :: q) =
      splitAt '\n' start ++ splitAt '\n' q := by
    intro q
    rw [fileLines, hstart, splitAt_append_cons]
  -- the last line of the first part is empty, and nothing is read from it
  have hempty : ∀ number, numberedLines number (splitAt '\n' []) = [] := fun _ => rfl
  have hlength : (fileLines (text ++ ['\n'])).length = 1 + (splitAt '\n' start).length := by
    rw [hlines, List.length_append, Nat.add_comm]
    rfl
  rw [List.append_assoc, List.singleton_append, parse_eq_defineLines, parse_eq_defineLines, hlength,
    hlines, hlines, numberedLines_append, numberedLines_append, hempty, List.append_nil,
    defineLines_append]

/-- Lines that are not malformed are read. -/
theorem defineLines_of_not_malformed (h : ∀ raw ∈ lines, ¬ Malformed raw) (store : Variables)
    (first : Nat) : ∃ result, defineLines store (numberedLines first lines) = .ok result := by
  induction lines generalizing store first with
  | nil => exact ⟨store, rfl⟩
  | cons raw lines ih =>
    have hlater := ih fun line hline => h line (List.mem_cons_of_mem raw hline)
    rw [numberedLines]
    split
    · next hcounts =>
      rw [defineLines]
      cases hsplit : splitDefinition raw.trim with
      | ok definition => exact hlater _ _
      | error reason =>
        exact absurd (malformed_iff.2 ⟨hcounts, reason, hsplit⟩) (h raw List.mem_cons_self)
    · exact hlater _ _

/-- **The first malformed line is blamed** with its number, its trimmed text and the first thing
wrong with it. -/
theorem defineLines_of_malformed (hbefore : ∀ line ∈ before, ¬ Malformed line)
    (hraw : Malformed raw) (hfirst : reason.IsFirstOf raw.trim) (store : Variables) (first : Nat) :
    defineLines store (numberedLines first (before ++ raw :: after)) =
      .error ⟨first + before.length, raw.trim, reason⟩ := by
  obtain ⟨result, hresult⟩ := defineLines_of_not_malformed hbefore store first
  have hcounts := (malformed_iff.1 hraw).1
  rw [numberedLines_append, defineLines_append, hresult, numberedLines, if_pos hcounts]
  simp only [Except.bind, defineLines, splitDefinition_eq_error_iff.2 hfirst]

end Variables

/-- Among lines that are not all well formed there is a first malformed one. -/
theorem exists_first_malformed (h : ∃ raw ∈ lines, Malformed raw) :
    ∃ before raw after, lines = before ++ raw :: after ∧ (∀ line ∈ before, ¬ Malformed line) ∧
      Malformed raw := by
  induction lines with
  | nil => simp at h
  | cons line lines ih =>
    by_cases hline : Malformed line
    · exact ⟨[], line, lines, rfl, by simp, hline⟩
    · obtain ⟨raw, hmem, hraw⟩ := h
      rcases List.mem_cons.1 hmem with rfl | hmem
      · exact absurd hraw hline
      · obtain ⟨before, raw, after, rfl, hbefore, hraw⟩ := ih ⟨raw, hmem, hraw⟩
        exact ⟨line :: before, raw, after, rfl, List.forall_mem_cons.2 ⟨hline, hbefore⟩, hraw⟩

namespace Variables

/-- What a file is refused for: its first malformed line. -/
theorem parse_of_malformed (hlines : fileLines content = before ++ raw :: after)
    (hbefore : ∀ line ∈ before, ¬ Malformed line) (hraw : Malformed raw)
    (hfirst : reason.IsFirstOf raw.trim) :
    parse content = .error ⟨before.length + 1, raw.trim, reason⟩ := by
  rw [parse_eq_defineLines, hlines, Nat.add_comm before.length]
  exact defineLines_of_malformed hbefore hraw hfirst empty 1

/-- A file that is refused has a first malformed line, and is refused for that. -/
theorem exists_malformed_of_parse (h : parse content = .error fault) :
    ∃ before raw after, fileLines content = before ++ raw :: after ∧
      (∀ line ∈ before, ¬ Malformed line) ∧ Malformed raw ∧
      fault.line = before.length + 1 ∧ fault.content = raw.trim ∧
      fault.reason.IsFirstOf raw.trim := by
  have hmalformed : ∃ raw ∈ fileLines content, Malformed raw := by
    by_contra hnone
    push Not at hnone
    obtain ⟨result, hresult⟩ := defineLines_of_not_malformed hnone empty 1
    rw [← parse_eq_defineLines, h] at hresult
    cases hresult
  obtain ⟨before, raw, after, hlines, hbefore, hraw⟩ := exists_first_malformed hmalformed
  obtain ⟨-, reason, hsplit⟩ := malformed_iff.1 hraw
  have hfirst := splitDefinition_eq_error_iff.1 hsplit
  rw [parse_of_malformed hlines hbefore hraw hfirst] at h
  cases h
  exact ⟨before, raw, after, hlines, hbefore, hraw, rfl, rfl, hfirst⟩

/-- **A variable file is refused exactly for its first malformed line.** The fault has the number of
that line among all lines of the file, its trimmed text, and the first thing wrong with it. What
follows the line does not matter. -/
theorem parse_blames_first :
    (∀ content, (∃ fault, parse content = .error fault) ↔
      ∃ raw ∈ fileLines content, Malformed raw) ∧
    (∀ content fault, parse content = .error fault ↔
      ∃ before raw after, fileLines content = before ++ raw :: after ∧
        (∀ line ∈ before, ¬ Malformed line) ∧ Malformed raw ∧
        fault.line = before.length + 1 ∧ fault.content = raw.trim ∧
        fault.reason.IsFirstOf raw.trim) ∧
    ∀ (p q : Text) fault, p.getLast? = some '\n' → parse p = .error fault →
      parse (p ++ q) = .error fault := by
  refine ⟨fun content => ⟨?_, fun h => ?_⟩, fun content fault => ⟨exists_malformed_of_parse, ?_⟩,
    fun p q fault hfeed h => ?_⟩
  · rintro ⟨fault, h⟩
    obtain ⟨before, raw, after, hlines, -, hraw, -⟩ := exists_malformed_of_parse h
    exact ⟨raw, by simp [hlines], hraw⟩
  · obtain ⟨before, raw, after, hlines, hbefore, hraw⟩ := exists_first_malformed h
    obtain ⟨-, reason, hsplit⟩ := malformed_iff.1 hraw
    exact ⟨_, parse_of_malformed hlines hbefore hraw (splitDefinition_eq_error_iff.1 hsplit)⟩
  · obtain ⟨number, text, reason⟩ := fault
    rintro ⟨before, raw, after, hlines, hbefore, hraw, rfl, rfl, hfirst⟩
    exact parse_of_malformed hlines hbefore hraw hfirst
  · rw [parse_append hfeed, h]
    rfl

/-- A comment and a blank line count, too. The third line is an equals sign and a carriage return,
with two things wrong. The line after it, which is also malformed, does not matter. -/
theorem parse_blames_first_equals :
    let p : Text := [byteOrderMark, '#', '\n', '\r', '\n', ' ', '=', '\r', '\n']
    let fault : LineFault := ⟨3, ['='], .emptyKey⟩
    HoldsOf .emptyValue ['='] ∧ Malformed [' ', '=', '\r'] ∧ p.getLast? = some '\n' ∧
      parse p = .error fault ∧ parse (p ++ ['B']) = .error fault := by
  intro p fault
  have hlines : fileLines p = [['#'], ['\r']] ++ [' ', '=', '\r'] :: [[]] := by decide +kernel
  have hbefore : ∀ line ∈ [['#'], ['\r']], ¬ Malformed line := by decide
  have hraw : Malformed [' ', '=', '\r'] := by decide
  have hfirst : IsFirstOf .emptyKey ['='] := by decide
  have hfeed : p.getLast? = some '\n' := by decide
  obtain ⟨-, hblames, hprefix⟩ := parse_blames_first
  have hparse : parse p = .error fault :=
    (hblames p fault).2 ⟨_, _, _, hlines, hbefore, hraw, by decide, by decide, hfirst⟩
  exact ⟨by decide, hraw, hfeed, hparse, hprefix p ['B'] fault hfeed hparse⟩

end Variables

end Stencil
