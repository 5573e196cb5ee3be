import Stencil.Proofs.Search
import Stencil.Proofs.Substitution

/-!
# Placeholders inside placeholders

Delimiters are only asked to be proper and not the same pair twice, so the placeholder of a key in
one form can hold the one in the other form. The encoded placeholders are put in first. So an
encoded placeholder always becomes the value in HTML, and a plain one that holds it is lost.

* `Text.replaceAll_eq_nil_iff`: when nothing is left of a text.
* `Text.count_replaceAll_lt`: a replacement uses up the characters that it does not put in again.
* `Delimiters.render_placeholder_iff`: **a plain placeholder becomes its value exactly if the
  encoded one of the same key does not stand in it**, but for placeholders that are written alike
  and for the empty value.
* `Delimiters.not_render_placeholder`: so not every placeholder becomes its value.
-/

namespace Stencil

namespace Text

variable {old new text : Text} {c : Char}

/-- **Nothing is left of a text** exactly if nothing is put in and the text is made of what is taken
out. -/
theorem replaceAll_eq_nil_iff (hold : old ≠ []) :
    replaceAll old new text = [] ↔
      text = [] ∨ new = [] ∧ ∃ n, text = (List.replicate n old).flatten := by
  induction text using replaceAll_induction hold with
  | nil => simp
  | found rest ih =>
    rw [replaceAll_of_isPrefix hold, List.append_eq_nil_iff, ih]
    constructor
    · rintro ⟨hnew, rfl | ⟨-, n, rfl⟩⟩
      · exact .inr ⟨hnew, 1, by simp⟩
      · exact .inr ⟨hnew, n + 1, by simp [List.replicate_succ]⟩
    · rintro (hnil | ⟨hnew, n, hrest⟩)
      · exact absurd (List.append_eq_nil_iff.1 hnil).1 hold
      · refine ⟨hnew, .inr ⟨hnew, n - 1, ?_⟩⟩
        cases n with
        | zero => simp [hold] at hrest
        | succ n => simpa [List.replicate_succ] using hrest
  | passed c rest hnot ih =>
    rw [replaceAll_of_not_isPrefix hnot]
    simp only [List.cons_ne_nil, false_or, false_iff]
    rintro ⟨-, n, hrest⟩
    cases n with
    | zero => simp at hrest
    | succ n =>
      rw [List.replicate_succ, List.flatten_cons] at hrest
      exact hnot ⟨_, hrest.symm⟩

/-- A replacement makes no more of a character that it does not put in. -/
theorem count_replaceAll_le (hold : old ≠ []) (hnew : c ∉ new) (text : Text) :
    (replaceAll old new text).count c ≤ text.count c := by
  induction text using replaceAll_induction hold with
  | nil => simp
  | found rest ih =>
    rw [replaceAll_of_isPrefix hold, List.count_append, List.count_append,
      List.count_eq_zero_of_not_mem hnew]
    omega
  | passed d rest hnot ih =>
    rw [replaceAll_of_not_isPrefix hnot, List.count_cons, List.count_cons]
    omega

/-- **A replacement uses up a character** of what is taken out, unless it is put in again. -/
theorem count_replaceAll_lt (hnew : c ∉ new) (hmem : c ∈ old) (hin : old <:+: text) :
    (replaceAll old new text).count c < text.count c := by
  have hold : old ≠ [] := List.ne_nil_of_mem hmem
  induction text using replaceAll_induction hold with
  | nil => exact absurd (List.infix_nil.1 hin) hold
  | found rest ih =>
    have hrest := count_replaceAll_le hold hnew rest
    have hpos : 0 < old.count c := List.count_pos_iff.2 hmem
    rw [replaceAll_of_isPrefix hold, List.count_append, List.count_append,
      List.count_eq_zero_of_not_mem hnew]
    omega
  | passed d rest hnot ih =>
    have hrest := ih ((List.infix_cons_iff.1 hin).resolve_left hnot)
    rw [replaceAll_of_not_isPrefix hnot, List.count_cons, List.count_cons]
    omega

end Text

/-- No character is left out in HTML. -/
theorem Html.length_le_escape (value : Text) : value.length ≤ (escape value).length := by
  induction value with
  | nil => exact Nat.le_refl 0
  | cons c value ih =>
    have hc : 0 < (escape [c]).length := List.length_pos_iff.2 (escape_ne_nil (List.cons_ne_nil c []))
    have hsplit : escape (c :: value) = escape [c] ++ escape value := escape_append [c] value
    rw [hsplit, List.length_append, List.length_cons]
    omega

namespace Delimiters

open Text

variable {d : Delimiters} {key value text : Text}

/-- A text without characters of delimiters has no placeholder. -/
theorem not_wrap_infix_of_unmarked (h : ∀ c ∈ text, c ∉ d.marks) (form : Form) (name : Text) :
    ¬ (d.pair form).wrap name <:+: text := by
  intro hin
  obtain ⟨c, hc⟩ := List.exists_mem_of_ne_nil _ (d.proper form).1
  have hmark : c ∈ d.marks := d.mem_marks_iff.2 ⟨form, .inl hc⟩
  exact h c (hin.subset (by simp [Pair.wrap, hc])) hmark

/-- What the encoded placeholders leave of a plain one is the value only if the two placeholders are
written alike, or if nothing is put in. -/
theorem replaceAll_encoded_eq_iff (hvalue : ∀ c ∈ value, c ∉ d.marks) :
    replaceAll (d.encoded.wrap key) (Html.escape value) (d.plain.wrap key) = value ↔
      (Html.escape value = value ∧ d.plain.wrap key = d.encoded.wrap key) ∨
        (value = [] ∧ ∃ n, d.plain.wrap key = (List.replicate n (d.encoded.wrap key)).flatten) := by
  have hold : d.encoded.wrap key ≠ [] := wrap_ne_nil (d := d) .encoded key
  constructor
  · intro hresult
    -- the first character is one of delimiters, so it was taken out
    obtain ⟨o, opening, hopening⟩ := List.exists_cons_of_ne_nil (d.plain_proper).1
    have ho : o ∈ d.marks := d.mem_marks_iff.2 ⟨.plain, .inl (by simp [pair, hopening])⟩
    have hwrap : d.plain.wrap key = o :: (opening ++ key ++ d.plain.closing) := by
      rw [Pair.wrap, hopening, List.cons_append, List.cons_append]
    have hfirst : d.encoded.wrap key <+: d.plain.wrap key := by
      by_contra hnot
      rw [hwrap] at hnot hresult
      rw [replaceAll_of_not_isPrefix hnot] at hresult
      exact hvalue o (hresult ▸ List.mem_cons_self) ho
    obtain ⟨rest, hrest⟩ := hfirst
    rw [← hrest, replaceAll_of_isPrefix hold] at hresult
    -- the value in HTML is as long as the value, so nothing follows it
    have hlength := congrArg List.length hresult
    have hescape := Html.length_le_escape value
    rw [List.length_append] at hlength
    have hnil : replaceAll (d.encoded.wrap key) (Html.escape value) rest = [] :=
      List.length_eq_zero_iff.1 (by omega)
    rw [hnil, List.append_nil] at hresult
    rcases (replaceAll_eq_nil_iff hold).1 hnil with rfl | ⟨hempty, n, rfl⟩
    · exact .inl ⟨hresult, by rw [← hrest, List.append_nil]⟩
    · refine .inr ⟨hresult ▸ hempty, n + 1, ?_⟩
      rw [← hrest, List.replicate_succ, List.flatten_cons]
  · rintro (⟨hescape, halike⟩ | ⟨rfl, hmade⟩)
    · rw [halike, replaceAll_self hold, hescape]
    · exact (replaceAll_eq_nil_iff hold).2 (.inr ⟨rfl, hmade⟩)

/-- **An encoded placeholder becomes the value in HTML, whatever the delimiters are. A plain one
becomes the value exactly if the encoded one of the same key does not stand in it**, unless the two
are written alike and the value is the same in HTML, or nothing but encoded placeholders stands in
it and the value is empty. -/
theorem render_placeholder_iff
    (hvalue : ∀ c ∈ value ++ Html.escape value, c ∉ d.marks) :
    d.render ⟨[(key, value)]⟩ (d.encoded.wrap key) = Html.escape value ∧
      (d.render ⟨[(key, value)]⟩ (d.plain.wrap key) = value ↔
        (d.encoded.wrap key <:+: d.plain.wrap key →
          (Html.escape value = value ∧ d.plain.wrap key = d.encoded.wrap key) ∨
            (value = [] ∧
              ∃ n, d.plain.wrap key = (List.replicate n (d.encoded.wrap key)).flatten))) := by
  have hplain : ∀ c ∈ value, c ∉ d.marks := fun c hc => hvalue c (List.mem_append_left _ hc)
  have hhtml : ∀ c ∈ Html.escape value, c ∉ d.marks :=
    fun c hc => hvalue c (List.mem_append_right _ hc)
  have hencoded : d.encoded.wrap key ≠ [] := wrap_ne_nil (d := d) .encoded key
  have hrender : ∀ template, d.render ⟨[(key, value)]⟩ template =
      replaceAll (d.plain.wrap key) value
        (replaceAll (d.encoded.wrap key) (Html.escape value) template) := fun _ => rfl
  rw [hrender, hrender]
  constructor
  · rw [replaceAll_self hencoded]
    exact replaceAll_of_not_isInfix (not_wrap_infix_of_unmarked hhtml .plain key)
  · by_cases hin : d.encoded.wrap key <:+: d.plain.wrap key
    · -- a mark of the plain placeholder is used up, so it is not found any more
      obtain ⟨c, hc⟩ := List.exists_mem_of_ne_nil _ d.encoded_proper.1
      have hmark : c ∈ d.marks := d.mem_marks_iff.2 ⟨.encoded, .inl hc⟩
      have hless := count_replaceAll_lt (fun hmem => hhtml c hmem hmark)
        (by simp [Pair.wrap, hc] : c ∈ d.encoded.wrap key) hin
      have hgone : ¬ d.plain.wrap key <:+:
          replaceAll (d.encoded.wrap key) (Html.escape value) (d.plain.wrap key) := by
        intro hthere
        have := hthere.sublist.count_le c
        omega
      rw [replaceAll_of_not_isInfix hgone, replaceAll_encoded_eq_iff hplain]
      exact ⟨fun h _ => h, fun h => h hin⟩
    · have hold : d.plain.wrap key ≠ [] := wrap_ne_nil (d := d) .plain key
      rw [replaceAll_of_not_isInfix hin, replaceAll_self hold]
      exact ⟨fun _ h => absurd h hin, fun _ => rfl⟩

/-- With three braces around two, a plain placeholder keeps a brace on each side of the value; with
the standard delimiters both placeholders become what they should. -/
theorem render_placeholder_iff_braces :
    (∀ c ∈ ['x'] ++ Html.escape ['x'], c ∉ nested.marks) ∧
      (∀ c ∈ ['x'] ++ Html.escape ['x'], c ∉ standard.marks) ∧
      nested.render ⟨[(['A'], ['x'])]⟩ (nested.plain.wrap ['A']) ≠ ['x'] ∧
      standard.render ⟨[(['A'], ['x'])]⟩ (standard.plain.wrap ['A']) = ['x'] := by
  have hnested : ∀ c ∈ ['x'] ++ Html.escape ['x'], c ∉ nested.marks := by decide
  have hstandard : ∀ c ∈ ['x'] ++ Html.escape ['x'], c ∉ standard.marks := by decide
  refine ⟨hnested, hstandard, fun hplain => ?_, ?_⟩
  · have hcases := (render_placeholder_iff hnested).2.1 hplain
    exact absurd (hcases (by decide)) (by simp [nested, Pair.wrap])
  · exact (render_placeholder_iff hstandard).2.2 fun hin => absurd hin (by decide)

/-- **Not every placeholder becomes its value**, though the name is proper and the value has nothing
of the delimiters. -/
theorem not_render_placeholder :
    ¬ ∀ (d : Delimiters) (key value : Text), isName key = true →
      (∀ c ∈ value ++ Html.escape value, c ∉ d.marks) →
        d.render ⟨[(key, value)]⟩ (d.plain.wrap key) = value ∧
          d.render ⟨[(key, value)]⟩ (d.encoded.wrap key) = Html.escape value := by
  intro h
  have hplain := (h nested ['A'] ['x'] rfl (by decide)).1
  exact absurd hplain (by decide +kernel)

end Delimiters

end Stencil
