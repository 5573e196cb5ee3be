import Stencil.Variables.Definition

/-!
# Variable files that are printed

A store is printed as a variable file, a line for each key. What is printed is read as it was, and
every store that is read from a file can be printed.

* `Variables.print`: the file with a line for each entry.
* `IsDefinition`: a key and a value that are read as they were from one line.
* `Variables.Printable`: entries that are read as they were from a file.
* `Variables.parse_print`: **what is printed is read as it was.**
* `Variables.printable_of_parse`: **what is read can be printed.**
-/

namespace Stencil

/-- The line that defines the key. -/
def definitionLine (key value : Text) : Text := key ++ '=' :: value

/-- A key and a value that are read as they were from one line. -/
structure IsDefinition (key value : Text) : Prop where
  key_ne_nil : key ≠ []
  key_no_equals : '=' ∉ key
  key_no_feed : '\n' ∉ key
  /-- The line neither starts with a blank nor is a comment. -/
  key_start : ∀ c ∈ key.head?, isBlank c = false ∧ c ≠ '#'
  value_ne_nil : value ≠ []
  value_no_feed : '\n' ∉ value
  /-- The line does not end with a blank. -/
  value_end : ∀ c ∈ value.getLast?, isBlank c = false

variable {key value line : Text}

/-- A key and a value can be tested. -/
theorem isDefinition_iff : IsDefinition key value ↔
    (key ≠ [] ∧ '=' ∉ key ∧ '\n' ∉ key ∧ (key.head?.all fun c => !isBlank c && c != '#') = true) ∧
      value ≠ [] ∧ '\n' ∉ value ∧ (value.getLast?.all fun c => !isBlank c) = true := by
  constructor
  · intro h
    refine ⟨⟨h.key_ne_nil, h.key_no_equals, h.key_no_feed, ?_⟩, h.value_ne_nil, h.value_no_feed, ?_⟩
    · rw [Option.all_eq_true_iff_get]
      intro hsome
      have hstart := h.key_start _ (Option.get_mem hsome)
      simp [hstart]
    · rw [Option.all_eq_true_iff_get]
      intro hsome
      have hend := h.value_end _ (Option.get_mem hsome)
      simp [hend]
  · rintro ⟨⟨hkey, hequals, hfeed, hstart⟩, hvalue, hvalueFeed, hend⟩
    refine ⟨hkey, hequals, hfeed, fun c hc => ?_, hvalue, hvalueFeed, fun c hc => ?_⟩
    · rw [Option.mem_def.1 hc] at hstart
      simpa using hstart
    · rw [Option.mem_def.1 hc] at hend
      simpa using hend

instance : Decidable (IsDefinition key value) := decidable_of_iff' _ isDefinition_iff

theorem head?_definitionLine (hkey : key ≠ []) : (definitionLine key value).head? = key.head? := by
  rw [definitionLine, List.head?_append, List.head?_eq_some_head hkey]
  rfl

theorem getLast?_definitionLine (hvalue : value ≠ []) :
    (definitionLine key value).getLast? = value.getLast? := by
  rw [definitionLine, List.getLast?_append, List.getLast?_cons,
    List.getLast?_eq_some_getLast hvalue]
  rfl

namespace IsDefinition

variable (h : IsDefinition key value)
include h

/-- The line has nothing around it that is taken away. -/
theorem trim_line : (definitionLine key value).trim = definitionLine key value := by
  apply Text.trim_eq_self
  · intro c hc
    rw [head?_definitionLine h.key_ne_nil] at hc
    exact (h.key_start c hc).1
  · intro c hc
    rw [getLast?_definitionLine h.value_ne_nil] at hc
    exact h.value_end c hc

/-- The line is not passed over. -/
theorem countsAsDefinition_line : countsAsDefinition (definitionLine key value) = true := by
  have hne : definitionLine key value ≠ [] := by simp [definitionLine]
  have hcomment : (definitionLine key value).head? ≠ some '#' := by
    intro hhash
    rw [head?_definitionLine h.key_ne_nil] at hhash
    exact (h.key_start '#' hhash).2 rfl
  exact countsAsDefinition_iff.2 ⟨hne, hcomment⟩

theorem splitDefinition_line : splitDefinition (definitionLine key value) = .ok (key, value) :=
  splitDefinition_eq_ok_iff.2 ⟨h.key_ne_nil, h.key_no_equals, h.value_ne_nil, rfl⟩

theorem no_feed_line : '\n' ∉ definitionLine key value := by
  rw [definitionLine, List.mem_append, List.mem_cons, not_or, not_or]
  exact ⟨h.key_no_feed, by decide, h.value_no_feed⟩

end IsDefinition

/-- A trimmed line that is split without a fault is a definition, if it counts as one and is one
line. -/
theorem isDefinition_of_splitDefinition (htrim : line.trim = line)
    (hcounts : countsAsDefinition line = true) (hfeed : '\n' ∉ line)
    (hsplit : splitDefinition line = .ok (key, value)) : IsDefinition key value := by
  obtain ⟨hkey, hequals, hvalue, rfl⟩ := splitDefinition_eq_ok_iff.1 hsplit
  change (definitionLine key value).trim = definitionLine key value at htrim
  have hhead : (definitionLine key value).head? = key.head? := head?_definitionLine hkey
  have hlast : (definitionLine key value).getLast? = value.getLast? := getLast?_definitionLine hvalue
  have hhash : key.head? ≠ some '#' := by
    rw [← hhead]
    intro hcomment
    exact (countsAsDefinition_iff.1 hcounts).2 hcomment
  rw [List.mem_append, List.mem_cons, not_or, not_or] at hfeed
  refine ⟨hkey, hequals, hfeed.1, fun c hc => ⟨?_, ?_⟩, hvalue, hfeed.2.2, fun c hc => ?_⟩
  · rw [← hhead, ← htrim] at hc
    exact Text.head?_trim hc
  · rintro rfl
    exact hhash hc
  · rw [← hlast, ← htrim] at hc
    exact Text.getLast?_trim hc

namespace Variables

/-- The lines of a variable file for the entries, each with the character that ends it. -/
def printLines : List (Text × Text) → Text
  | [] => []
  | (key, value) :: entries => definitionLine key value ++ '\n' :: printLines entries

/-- The variable file for the entries: a byte order mark, and a line for each of them. -/
def print (entries : List (Text × Text)) : Text := byteOrderMark :: printLines entries

/-- Entries that are read as they were from a file: definitions with different keys. -/
structure Printable (entries : List (Text × Text)) : Prop where
  nodup : (entries.map Prod.fst).Nodup
  each : ∀ key value, (key, value) ∈ entries → IsDefinition key value

variable {store result : Variables} {entries : List (Text × Text)} {content : Text}

/-- A key that is new to a store is added at its end. -/
theorem define_of_not_mem (hnew : key ∉ store.keys) (value : Text) :
    store.define key value = ⟨store.entries ++ [(key, value)]⟩ :=
  congrArg Variables.mk (putKey_of_not_mem value hnew)

/-- Definitions of different keys that a store does not have are its last entries. -/
theorem foldl_define_of_nodup (hnodup : (store.keys ++ entries.map Prod.fst).Nodup) :
    entries.foldl (fun store (key, value) => store.define key value) store =
      ⟨store.entries ++ entries⟩ := by
  induction entries generalizing store with
  | nil =>
    rw [List.append_nil]
    rfl
  | cons entry entries ih =>
    obtain ⟨key, value⟩ := entry
    have hnew : key ∉ store.keys := by
      rw [List.map_cons, List.nodup_append] at hnodup
      intro hmem
      exact hnodup.2.2 key hmem key List.mem_cons_self rfl
    have hnext : ((store.define key value).keys ++ entries.map Prod.fst).Nodup := by
      rw [keys_define, if_neg hnew, List.append_assoc]
      exact hnodup
    have hlater := ih hnext
    rw [List.foldl_cons]
    dsimp only
    rw [hlater, define_of_not_mem hnew, List.append_assoc, List.singleton_append]

/-- **Printed lines are read into a store**, one after the other. -/
theorem defineLines_printLines
    (heach : ∀ key value, (key, value) ∈ entries → IsDefinition key value) (store : Variables)
    (first : Nat) :
    defineLines store (numberedLines first (splitAt '\n' (printLines entries))) =
      .ok (entries.foldl (fun store (key, value) => store.define key value) store) := by
  induction entries generalizing store first with
  | nil =>
    -- after the last line feed there is an empty line
    rfl
  | cons entry entries ih =>
    obtain ⟨key, value⟩ := entry
    have hdefinition := heach key value List.mem_cons_self
    have hlater := ih (fun key value hmem => heach key value (List.mem_cons_of_mem _ hmem))
      (store.define key value) (first + 1)
    rw [printLines, splitAt_append_cons, splitAt_of_not_mem hdefinition.no_feed_line,
      List.singleton_append, numberedLines, hdefinition.trim_line,
      if_pos hdefinition.countsAsDefinition_line, defineLines, hdefinition.splitDefinition_line]
    exact hlater

/-- **Printed definitions are made one after the other**, also those of a key that was defined. -/
theorem parse_print_ofList
    (heach : ∀ key value, (key, value) ∈ entries → IsDefinition key value) :
    parse (print entries) = .ok (ofList entries) := by
  have hmark : (print entries).dropMark = printLines entries := by
    rw [print, Text.dropMark, if_pos rfl]
  rw [parse, definitionLines, hmark, defineLines_printLines heach empty 1]
  rfl

/-- **What is printed is read as it was.** -/
theorem parse_print (h : Printable entries) : parse (print entries) = .ok ⟨entries⟩ := by
  have hnodup : (empty.keys ++ entries.map Prod.fst).Nodup := h.nodup
  rw [parse_print_ofList h.each, ofList, foldl_define_of_nodup hnodup]
  rfl

/-- A line that counts is trimmed, and it comes from a line of the file. -/
theorem of_mem_numberedLines {first number : Nat} {lines : List Text}
    (h : (number, line) ∈ numberedLines first lines) :
    line.trim = line ∧ countsAsDefinition line = true ∧ ∃ raw ∈ lines, line = raw.trim := by
  induction lines generalizing first with
  | nil => cases h
  | cons raw lines ih =>
    have hlater : ∀ {first}, (number, line) ∈ numberedLines first lines →
        line.trim = line ∧ countsAsDefinition line = true ∧
          ∃ other ∈ raw :: lines, line = other.trim := by
      intro first hmem
      obtain ⟨htrim, hcounts, other, hother, heq⟩ := ih hmem
      exact ⟨htrim, hcounts, other, List.mem_cons_of_mem raw hother, heq⟩
    unfold numberedLines at h
    split at h
    · next hcounts =>
      rcases List.mem_cons.1 h with heq | hmem
      · cases heq
        exact ⟨Text.trim_trim raw, hcounts, raw, List.mem_cons_self, rfl⟩
      · exact hlater hmem
    · exact hlater h

/-- A line that counts has no line feed in it. -/
theorem no_feed_of_mem_definitionLines {number : Nat} (h : (number, line) ∈ definitionLines content) :
    '\n' ∉ line := by
  obtain ⟨-, -, raw, hraw, rfl⟩ := of_mem_numberedLines h
  intro hfeed
  exact not_mem_of_mem_splitAt hraw (Text.mem_of_mem_trim hfeed)

/-- One more definition leaves a printable store printable. -/
theorem Printable.define (h : Printable store.entries) (hdefinition : IsDefinition key value) :
    Printable (store.define key value).entries where
  nodup := by
    have hkeys := keys_define store key value
    change (store.define key value).keys.Nodup
    rw [hkeys]
    split
    · exact h.nodup
    · next hnew =>
      rw [List.nodup_append]
      refine ⟨h.nodup, by simp, ?_⟩
      rintro old hold other hother rfl
      exact hnew (List.mem_singleton.1 hother ▸ hold)
  each := by
    intro other text hmem
    rcases mem_of_mem_putKey hmem with hput | hold
    · cases hput
      exact hdefinition
    · exact h.each other text hold

/-- Lines that are definitions keep a store printable. -/
theorem printable_of_defineLines {lines : List (Nat × Text)} (h : Printable store.entries)
    (hlines : ∀ number line, (number, line) ∈ lines →
      line.trim = line ∧ countsAsDefinition line = true ∧ '\n' ∉ line)
    (hdefine : defineLines store lines = .ok result) : Printable result.entries := by
  induction lines generalizing store with
  | nil =>
    cases hdefine
    exact h
  | cons numbered lines ih =>
    obtain ⟨number, line⟩ := numbered
    unfold defineLines at hdefine
    split at hdefine
    · next key value hsplit =>
      obtain ⟨htrim, hcounts, hfeed⟩ := hlines number line List.mem_cons_self
      have hdefinition := isDefinition_of_splitDefinition htrim hcounts hfeed hsplit
      exact ih (h.define hdefinition)
        (fun number line hmem => hlines number line (List.mem_cons_of_mem _ hmem)) hdefine
    · cases hdefine

/-- **What is read can be printed.** -/
theorem printable_of_parse (h : parse content = .ok store) : Printable store.entries := by
  have hempty : Printable empty.entries := ⟨List.nodup_nil, nofun⟩
  refine printable_of_defineLines hempty (fun number line hmem => ?_) h
  obtain ⟨htrim, hcounts, -⟩ := of_mem_numberedLines hmem
  exact ⟨htrim, hcounts, no_feed_of_mem_definitionLines hmem⟩

/-- **Printing and reading are inverse.** Entries are read as they were printed, if their keys are
different and each can stand on a line with its value; and every store that is read from a file has
such entries, so it is printed and read again without a change. -/
theorem parse_print_inverse :
    (∀ entries : List (Text × Text), (entries.map Prod.fst).Nodup →
      (∀ key value, (key, value) ∈ entries → IsDefinition key value) →
        parse (print entries) = .ok ⟨entries⟩) ∧
    ∀ content store, parse content = .ok store →
      (store.entries.map Prod.fst).Nodup ∧
      (∀ key value, (key, value) ∈ store.entries → IsDefinition key value) ∧
      parse (print store.entries) = .ok store := by
  refine ⟨fun entries hnodup heach => parse_print ⟨hnodup, heach⟩, fun content store h => ?_⟩
  have hprintable := printable_of_parse h
  exact ⟨hprintable.nodup, hprintable.each, parse_print hprintable⟩

/-- A mark, an equals sign and a carriage return inside a line are kept; a comment, blanks around a
line and a value that was replaced are not. -/
theorem parse_print_inverse_marks :
    let entries : List (Text × Text) :=
      [([byteOrderMark, 'a'], ['b', '=', '\r', 'c']), (['d', ' '], ['#'])]
    let content : Text :=
      ['#', '\n', ' ', 'a', '=', '1', '\r', '\n', '\n', 'b', '=', '2', '\n', 'a', '=', '3']
    let store : Variables := ⟨[(['a'], ['3']), (['b'], ['2'])]⟩
    (entries.map Prod.fst).Nodup ∧
      (∀ key value, (key, value) ∈ entries → IsDefinition key value) ∧
      parse (print entries) = .ok ⟨entries⟩ ∧
      parse content = .ok store ∧ parse (print store.entries) = .ok store := by
  intro entries content store
  have hnodup : (entries.map Prod.fst).Nodup := by decide
  have heach : ∀ key value, (key, value) ∈ entries → IsDefinition key value := by
    intro key value hmem
    simp only [entries, List.mem_cons, Prod.mk.injEq, List.not_mem_nil, or_false] at hmem
    rcases hmem with ⟨rfl, rfl⟩ | ⟨rfl, rfl⟩
    · exact ⟨by decide, by decide, by decide, by rintro c ⟨⟩; decide, by decide, by decide,
        by rintro c ⟨⟩; decide⟩
    · exact ⟨by decide, by decide, by decide, by rintro c ⟨⟩; decide, by decide, by decide,
        by rintro c ⟨⟩; decide⟩
  have hparse : parse content = .ok store := rfl
  obtain ⟨hprinted, hread⟩ := parse_print_inverse
  exact ⟨hnodup, heach, hprinted entries hnodup heach, hparse, (hread content store hparse).2.2⟩

end Variables

end Stencil
