import Stencil.Proofs.Forwarding
import Stencil.Proofs.Nesting

/-!
# Clean texts

A text is clean if the search finds no placeholder in it. The search reads names off the text, and
rendering looks for the placeholders of keys; these lemmas say that the two agree, whatever the
delimiters are.

* `Text.length_lt_replaceAll`: a text grows where something longer is put in.
* `Delimiters.render_of_clean`: nothing is put into a clean text.
* `Delimiters.exists_length_lt_render`: a text that is not clean grows with some variables.
* `Delimiters.unresolved_eq_nil_iff_fixed`: **the clean texts are the fixed points of rendering.**
-/

namespace Stencil

namespace Text

variable {old new text : Text}

/-- No text is shorter after something at least as long was put in. -/
theorem length_le_replaceAll (hold : old ≠ []) (h : old.length ≤ new.length) (text : Text) :
    text.length ≤ (replaceAll old new text).length := by
  induction text using replaceAll_induction hold with
  | nil => simp
  | found rest ih =>
    rw [replaceAll_of_isPrefix hold, List.length_append, List.length_append]
    omega
  | passed c rest hnot ih =>
    rw [replaceAll_of_not_isPrefix hnot, List.length_cons, List.length_cons]
    omega

/-- **A text grows where something longer is put in.** -/
theorem length_lt_replaceAll (hold : old ≠ []) (h : old.length < new.length)
    (hin : old <:+: text) : text.length < (replaceAll old new text).length := by
  induction text using replaceAll_induction hold with
  | nil => exact absurd (List.infix_nil.1 hin) hold
  | found rest ih =>
    have hrest := length_le_replaceAll hold h.le rest
    rw [replaceAll_of_isPrefix hold, List.length_append, List.length_append]
    omega
  | passed c rest hnot ih =>
    have hrest := ih ((List.infix_cons_iff.1 hin).resolve_left hnot)
    rw [replaceAll_of_not_isPrefix hnot, List.length_cons, List.length_cons]
    omega

end Text

namespace Delimiters

open Text

variable {d : Delimiters} {store : Variables} {key value name text : Text} {form : Form}

/-- **Nothing is put into a clean text.** -/
theorem render_of_clean (names : ∀ key ∈ store.keys, isName key = true)
    (clean : d.unresolved text = []) : d.render store text = text := by
  have hnone := unresolved_eq_nil_iff.1 clean
  have hlacks : d.Lacks store.keys text := fun form key hkey => hnone form key (names key hkey)
  rw [render_eq_replaceInTurn]
  exact replaceInTurn_of_not_infix (lacks_iff.1 hlacks)

/-- A text grows with a value that is longer than the placeholders of its key, if one of them stands
in it. -/
theorem length_lt_substitute (hvalue : ∀ form, ((d.pair form).wrap key).length < value.length)
    (hin : (d.pair form).wrap key <:+: text) :
    text.length < (d.substitute key value text).length := by
  have hhtml := (hvalue .encoded).trans_le (Html.length_le_escape value)
  have hplain : ∀ text : Text, text.length ≤
      (replaceAll ((d.pair .plain).wrap key) value text).length :=
    length_le_replaceAll (wrap_ne_nil .plain key) (hvalue .plain).le
  rw [substitute_eq]
  by_cases hencoded : (d.pair .encoded).wrap key <:+: text
  · have hgrown := length_lt_replaceAll (wrap_ne_nil .encoded key) hhtml hencoded
    exact hgrown.trans_le (hplain _)
  · rw [replaceAll_of_not_isInfix hencoded]
    cases form with
    | plain => exact length_lt_replaceAll (wrap_ne_nil .plain key) (hvalue .plain) hin
    | encoded => exact absurd hin hencoded

/-- A text with a placeholder grows with some value for its name. -/
theorem exists_length_lt_render (hin : (d.pair form).wrap name <:+: text) :
    ∃ value, text.length < (d.render ⟨[(name, value)]⟩ text).length := by
  let longest := max (d.plain.wrap name).length (d.encoded.wrap name).length
  refine ⟨List.replicate (longest + 1) 'x', length_lt_substitute (fun form => ?_) hin⟩
  have hlongest : ((d.pair form).wrap name).length ≤ longest := by
    cases form with
    | plain => exact le_max_left _ _
    | encoded => exact le_max_right _ _
  rw [List.length_replicate]
  omega

/-- **The clean texts are the fixed points of rendering**, whatever the delimiters are: a text in
which no placeholder is found is rendered to itself with all variables that have names for keys, and
no other text is. So a rendered text that is clean is not changed by rendering it again. -/
theorem unresolved_eq_nil_iff_fixed (d : Delimiters) :
    (∀ text, d.unresolved text = [] ↔
      ∀ store : Variables, (∀ key ∈ store.keys, isName key = true) →
        d.render store text = text) ∧
    ∀ (store : Variables) template, (∀ key ∈ store.keys, isName key = true) →
      d.unresolved (d.render store template) = [] →
        d.render store (d.render store template) = d.render store template := by
  refine ⟨fun text => ⟨fun clean store names => render_of_clean names clean, fun hfixed => ?_⟩,
    fun store template names clean => render_of_clean names clean⟩
  rw [unresolved_eq_nil_iff]
  intro form name hname hin
  obtain ⟨value, hgrown⟩ := exists_length_lt_render hin
  have hsame := hfixed ⟨[(name, value)]⟩ fun key hkey => by
    rwa [List.mem_singleton.1 hkey]
  rw [hsame] at hgrown
  exact absurd hgrown (Nat.lt_irrefl _)

-- A key that is no name is put into a clean text.
example :
    let template := standard.plain.wrap ['a', ' ', 'b']
    standard.unresolved template = [] ∧
      standard.render ⟨[(['a', ' ', 'b'], ['1'])]⟩ template = ['1'] := by
  decide +kernel

/-- The opening and the closing are made of a letter that names can have. Three of that letter leave
no name between the two, four are a placeholder. -/
theorem unresolved_eq_nil_iff_fixed_letters :
    let d : Delimiters := ⟨⟨['x'], ['x', 'x']⟩, ⟨['$', '['], [']', '$']⟩, by decide, by decide,
      by decide⟩
    let store : Variables := ⟨[(['x'], ['$', '[', 'x']), (['y'], [])]⟩
    let text : Text := ['x', 'x', 'x']
    let template : Text := ['x', 'x', 'x', 'x']
    (∀ key ∈ store.keys, isName key = true) ∧
      d.unresolved text = [] ∧ d.render store text = text ∧
      d.unresolved template ≠ [] ∧ d.render store template = ['$', '[', 'x'] ∧
      d.unresolved (d.render store template) = [] ∧
      d.render store (d.render store template) = d.render store template := by
  intro d store text template
  have names : ∀ key ∈ store.keys, isName key = true := by decide
  have hclean : d.unresolved text = [] := by decide +kernel
  have hrendered : d.render store template = ['$', '[', 'x'] := by decide +kernel
  have hagain : d.unresolved (d.render store template) = [] := by decide +kernel
  have hfixed := unresolved_eq_nil_iff_fixed d
  refine ⟨names, hclean, (hfixed.1 text).1 hclean store names, fun htemplate => ?_, hrendered,
    hagain, hfixed.2 store template names hagain⟩
  have hsame := (hfixed.1 template).1 htemplate store names
  rw [hrendered] at hsame
  exact absurd hsame (by decide)

end Delimiters

end Stencil
