import Stencil.Proofs.Nesting
import Stencil.Proofs.Parents
import Stencil.Proofs.Printing
import Stencil.Proofs.References

/-!
# Rendering line by line

A character that is in no delimiter and in no key is in no placeholder. So it is a border: no
replacement reaches over it, whatever the delimiters have in common and whatever the values hold.
The line feed is one for all variables that are read from a file.

* `Text.spares_of_not_mem`: no occurrence of a text touches a character that is not in it.
* `Delimiters.render_append_border`: the parts before and after a border are rendered apart.
* `Delimiters.render_eq_intercalate`: so are all the pieces between the borders.
* `Delimiters.not_mem_render`: they stay the pieces, if no value has the border in it.
* `Delimiters.render_local`: **rendering a file is rendering its lines.**
-/

namespace Stencil

namespace Text

variable {old new text : Text} {c : Char}

/-- No occurrence of a text touches a character that is not in it. -/
theorem spares_of_not_mem (h : c ∉ old) (before : Text) : Spares old before [c] := by
  intro x y after hxy
  rw [List.append_assoc, List.append_assoc] at hxy
  -- an occurrence that starts before the character ends before it
  have hleft : ∀ s, before = x ++ s → s ++ ([c] ++ after) = old ++ y → x ++ old <+: before := by
    rintro s rfl hs
    have hstart : StartsIn (¬ · ≠ c) ([c] ++ after) := ⟨c, rfl, not_not_intro rfl⟩
    obtain ⟨r, rfl, -⟩ := exists_of_append_eq hs.symm (fun a ha => ne_of_mem_of_not_mem ha h) hstart
    exact ⟨r, List.append_assoc x old r⟩
  rcases List.append_eq_append_iff.1 hxy with ⟨s, rfl, hs⟩ | ⟨s, hbefore, hs⟩
  · cases s with
    | nil => exact .inl (hleft [] (by simp) hs)
    | cons a s =>
      rw [List.singleton_append, List.cons_append, List.cons.injEq] at hs
      obtain ⟨rfl, -⟩ := hs
      exact .inr ⟨s, by simp⟩
  · exact .inl (hleft s hbefore hs.symm)

/-- A replacement brings in no character that is not in what it puts in. -/
theorem not_mem_replaceAll (hold : old ≠ []) (hnew : c ∉ new) (htext : c ∉ text) :
    c ∉ replaceAll old new text := by
  have hcount := count_replaceAll_le hold hnew text
  rw [List.count_eq_zero_of_not_mem htext] at hcount
  exact List.count_eq_zero.1 (Nat.le_zero.1 hcount)

/-- The same for a table of replacements, made one after the other. -/
theorem not_mem_replaceInTurn {table : List (Text × Text)}
    (h : ∀ entry ∈ table, entry.1 ≠ [] ∧ c ∉ entry.2) (htext : c ∉ text) :
    c ∉ replaceInTurn table text := by
  induction table generalizing text with
  | nil => exact htext
  | cons entry table ih =>
    obtain ⟨hold, hnew⟩ := h entry List.mem_cons_self
    rw [replaceInTurn_cons]
    exact ih (fun entry he => h entry (List.mem_cons_of_mem _ he))
      (not_mem_replaceAll hold hnew htext)

end Text

namespace Html

/-- A line feed in a value in HTML is one of the value. -/
theorem no_feed_escape {value : Text} (h : '\n' ∉ value) : '\n' ∉ escape value := by
  intro hfeed
  obtain ⟨c, hc, hmem⟩ := List.mem_flatMap.1 hfeed
  rcases mem_escapeChar hmem with ⟨rfl, -⟩ | hamp | hletter | hend
  · exact h hc
  · exact absurd hamp (by decide)
  · exact absurd hletter (by decide)
  · exact absurd hend (by decide)

end Html

namespace Delimiters

open Text

variable {d : Delimiters} {store : Variables} {c : Char}

/-- A character that is in no delimiter and not in the key is not in the placeholder. -/
theorem not_mem_wrap {key : Text} (hmarks : c ∉ d.marks) (hkey : c ∉ key) (form : Form) :
    c ∉ (d.pair form).wrap key := by
  rw [mem_marks_iff, not_exists] at hmarks
  obtain ⟨hopening, hclosing⟩ := not_or.1 (hmarks form)
  rw [Pair.wrap, List.mem_append, List.mem_append, not_or, not_or]
  exact ⟨⟨hopening, hkey⟩, hclosing⟩

section Border

variable (hmarks : c ∉ d.marks) (hkeys : ∀ key ∈ store.keys, c ∉ key)
include hmarks hkeys

/-- **The parts before and after a border are rendered apart.** -/
theorem render_append_border (before after : Text) :
    d.render store (before ++ [c] ++ after) =
      d.render store before ++ [c] ++ d.render store after := by
  simp only [render_eq_replaceInTurn]
  refine replaceInTurn_of_spares (fun _ => True) (fun entry hentry before _ => ?_) trivial
  obtain ⟨key, form, hkey, hold⟩ := exists_key_of_mem_table hentry
  have hwrap := not_mem_wrap hmarks (hkeys key hkey) form
  rw [hold]
  exact ⟨wrap_ne_nil form key, spares_of_not_mem hwrap before, trivial⟩

/-- **The pieces between the borders are rendered apart.** -/
theorem render_eq_intercalate (template : Text) :
    d.render store template = [c].intercalate ((splitAt c template).map (d.render store)) := by
  induction template using splitAt_induction c with
  | last piece hpiece => simp [splitAt_of_not_mem hpiece]
  | next piece rest hpiece ih =>
    have hcut := render_append_border hmarks hkeys piece rest
    rw [List.append_assoc, List.singleton_append] at hcut
    obtain ⟨line, lines, hrest⟩ := List.exists_cons_of_ne_nil (splitAt_ne_nil c rest)
    rw [hcut, ih, splitAt_append_cons, splitAt_of_not_mem hpiece, hrest]
    simp

end Border

/-- Rendering brings in no character that no value has, neither as it is nor in HTML. -/
theorem not_mem_render {text : Text}
    (hvalues : ∀ entry ∈ store.entries, ∀ form : Form, c ∉ form.written entry.2)
    (htext : c ∉ text) : c ∉ d.render store text := by
  rw [render_eq_replaceInTurn]
  refine not_mem_replaceInTurn (fun entry hentry => ?_) htext
  obtain ⟨key, value, form, hmem, rfl⟩ := mem_table_iff.1 hentry
  exact ⟨wrap_ne_nil form key, hvalues (key, value) hmem form⟩

/-- **Rendering is local.** What stands before and after a character that is in no delimiter and in
no key is rendered apart, whatever the values are. So if no delimiter has a line feed in it, a
template is rendered line by line with variables that were read from a file, and its lines become
the lines of the rendered text. -/
theorem render_local (d : Delimiters) :
    (∀ (store : Variables) c, c ∉ d.marks → (∀ key ∈ store.keys, c ∉ key) →
      ∀ a b, d.render store (a ++ [c] ++ b) = d.render store a ++ [c] ++ d.render store b) ∧
    ∀ content store, '\n' ∉ d.marks → Variables.parse content = .ok store → ∀ template,
      d.render store template =
        ['\n'].intercalate ((splitAt '\n' template).map (d.render store)) ∧
      splitAt '\n' (d.render store template) = (splitAt '\n' template).map (d.render store) := by
  refine ⟨fun store c hmarks hkeys => render_append_border hmarks hkeys,
    fun content store hmarks hparse template => ?_⟩
  have hprintable := Variables.printable_of_parse hparse
  have hkeys : ∀ key ∈ store.keys, '\n' ∉ key := by
    intro key hkey
    obtain ⟨⟨_, value⟩, hmem, rfl⟩ := List.mem_map.1 hkey
    exact (hprintable.each _ value hmem).key_no_feed
  have hvalues : ∀ entry ∈ store.entries, ∀ form : Form, '\n' ∉ form.written entry.2 := by
    intro entry hmem form
    have hvalue := (hprintable.each entry.1 entry.2 hmem).value_no_feed
    cases form with
    | plain => exact hvalue
    | encoded => exact Html.no_feed_escape hvalue
  have hlines := render_eq_intercalate hmarks hkeys template
  refine ⟨hlines, ?_⟩
  rw [hlines]
  refine splitAt_intercalate (by simp [splitAt_ne_nil]) fun line hline => ?_
  obtain ⟨piece, hpiece, rfl⟩ := List.mem_map.1 hline
  exact not_mem_render hvalues (not_mem_of_mem_splitAt hpiece)

-- A key with a line feed in it is found over the end of a line.
example :
    standard.render ⟨[(['A', '\n', 'B'], ['1'])]⟩ (['{', '{', 'A'] ++ ['\n'] ++ ['B', '}', '}']) =
      ['1'] := by
  decide +kernel

/-- A value with a line feed of its own leaves an opening and a name before the border, and after
the border stands the closing. Read from a file, one line becomes the placeholder that the other
was. -/
theorem render_local_halves :
    let value : Text := ['}', '}', '\n', '{', '{', 'A']
    let store : Variables := ⟨[(['A'], value)]⟩
    let content : Text := ['A', '=', '1', '\n', 'B', '=', '{', '{', 'A', '}', '}']
    let other : Variables := ⟨[(['A'], ['1']), (['B'], standard.plain.wrap ['A'])]⟩
    let template : Text := standard.plain.wrap ['B'] ++ ['\n'] ++ standard.plain.wrap ['A']
    '\n' ∉ standard.marks ∧ (∀ key ∈ store.keys, '\n' ∉ key) ∧
      standard.render store (standard.plain.wrap ['A'] ++ ['\n'] ++ ['}', '}']) =
        value ++ ['\n'] ++ ['}', '}'] ∧
      Variables.parse content = .ok other ∧
      splitAt '\n' (standard.render other template) = [standard.plain.wrap ['A'], ['1']] := by
  intro value store content other template
  have hmarks : '\n' ∉ standard.marks := by decide
  have hkeys : ∀ key ∈ store.keys, '\n' ∉ key := by decide
  have hparse : Variables.parse content = .ok other := by decide +kernel
  have hlocal := render_local standard
  exact ⟨hmarks, hkeys, (hlocal.1 store '\n' hmarks hkeys _ _).trans (by decide +kernel), hparse,
    (hlocal.2 content other hmarks hparse template).2.trans (by decide +kernel)⟩

end Delimiters

end Stencil
