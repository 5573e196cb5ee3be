import Stencil.Proofs.References
import Stencil.Proofs.Undefined

/-!
# Markup in rendered texts

A value is written in HTML without the characters of markup. What is put in is searched again,
though, for the plain placeholders of the same key and for all placeholders of the keys after it. So
a value can bring in a plain placeholder, and with it a value as it is.

* `Html.escape_inert`: a value in HTML has no markup.
* `Text.inert_replaceAll_iff`: when replacing a text keeps out markup.
* `Delimiters.not_inert_render`: encoded placeholders alone do not keep out markup.
* `Delimiters.inert_render_iff`: **exactly the plain placeholders let markup in**, where they are
  found as their turn comes.
-/

namespace Stencil

namespace Html

/-- Whether a character begins or ends a tag or the value of an attribute. -/
def isMarkup (c : Char) : Bool := c == '<' || c == '>' || c == '"' || c == '\''

theorem isMarkup_iff {c : Char} : isMarkup c = true ↔ c = '<' ∨ c = '>' ∨ c = '"' ∨ c = '\'' := by
  simp [isMarkup, or_assoc]

end Html

/-- The text has no character of markup. -/
def Text.Inert (text : Text) : Prop := ∀ c ∈ text, Html.isMarkup c = false

instance (text : Text) : Decidable text.Inert := List.decidableBAll _ text

namespace Text

variable {old new text a b : Text}

theorem inert_nil : Inert [] := nofun

theorem inert_append_iff : Inert (a ++ b) ↔ Inert a ∧ Inert b := List.forall_mem_append

/-- **Replacing a text keeps out markup** exactly if what is put in has none, or nothing is put
in. -/
theorem inert_replaceAll_iff (hne : old ≠ []) (hold : old.Inert) :
    (replaceAll old new text).Inert ↔ text.Inert ∧ (old <:+: text → new.Inert) := by
  induction hn : text.length using Nat.strongRecOn generalizing text with
  | ind n ih =>
    subst hn
    cases text with
    | nil => simp [inert_nil, hne]
    | cons c rest =>
      by_cases hprefix : old <+: c :: rest
      · -- an occurrence at the start: it is replaced, and what follows is shorter
        obtain ⟨tail, htail⟩ := hprefix
        have hin : old <:+: old ++ tail := List.infix_append_of_infix_left List.infix_rfl
        have hshorter : tail.length < (old ++ tail).length := by
          have hlength := List.length_pos_iff.2 hne
          rw [List.length_append]
          omega
        rw [← htail] at ih ⊢
        rw [replaceAll_of_isPrefix hne, inert_append_iff, inert_append_iff, ih _ hshorter rfl]
        constructor
        · rintro ⟨hnew, htail, -⟩
          exact ⟨⟨hold, htail⟩, fun _ => hnew⟩
        · rintro ⟨⟨-, htail⟩, hnew⟩
          exact ⟨hnew hin, htail, fun _ => hnew hin⟩
      · have hin : old <:+: c :: rest ↔ old <:+: rest := by
          rw [List.infix_cons_iff, or_iff_right hprefix]
        have hcons : ∀ text : Text, Inert (c :: text) ↔ Html.isMarkup c = false ∧ Inert text :=
          fun _ => List.forall_mem_cons
        rw [replaceAll_of_not_isPrefix hprefix, hcons, hcons, hin,
          ih rest.length (by simp) rfl, and_assoc]

end Text

namespace Html

/-- A character that needs no writing is no markup. -/
theorem not_isMarkup_of_not_needsEscape {c : Char} (h : needsEscape c = false) :
    isMarkup c = false := by
  rw [Bool.eq_false_iff, Ne, isMarkup_iff]
  rintro (rfl | rfl | rfl | rfl) <;> exact absurd h (by decide)

/-- **A value in HTML has no markup.** -/
theorem escape_inert (value : Text) : (escape value).Inert := by
  intro c hc
  rcases mem_escape hc with rfl | hneeds
  · decide
  · exact not_isMarkup_of_not_needsEscape hneeds

end Html

theorem isName_inert {name : Text} (h : isName name = true) : name.Inert := by
  intro c hc
  have hchar : isNameChar c = true := (isName_iff.1 h).2 c hc
  rw [Bool.eq_false_iff, Ne, Html.isMarkup_iff]
  rintro (rfl | rfl | rfl | rfl) <;> exact absurd hchar (by decide)

namespace Delimiters

variable {d : Delimiters} {store : Variables} {key value template text result : Text}
  {entries : List (Text × Text)}

/-- The delimiters are no markup. -/
def Inert (d : Delimiters) : Prop :=
  ∀ form, (d.pair form).opening.Inert ∧ (d.pair form).closing.Inert

theorem standard_inert : standard.Inert := by
  intro form
  cases form <;> decide

theorem Inert.wrap (hd : d.Inert) (form : Form) (h : isName key = true) :
    ((d.pair form).wrap key).Inert := by
  rw [Pair.wrap, Text.inert_append_iff, Text.inert_append_iff]
  exact ⟨⟨(hd form).1, isName_inert h⟩, (hd form).2⟩

variable (d) in
/-- What the template has become when the plain placeholders of the key are looked for: those of the
entries before it are replaced, and its own encoded ones. -/
def beforePlain (first : List (Text × Text)) (key value template : Text) : Text :=
  Text.replaceAll (d.encoded.wrap key) (Html.escape value) (d.renderEntries first template)

/-- Putting in the value of a key keeps out markup exactly if its plain placeholder is not there, or
the value has none. -/
theorem Inert.substitute_iff (hd : d.Inert) (hkey : isName key = true) :
    (d.substitute key value text).Inert ↔
      text.Inert ∧ (d.plain.wrap key <:+: d.beforePlain [] key value text → value.Inert) := by
  have hplain : (d.plain.wrap key).Inert := hd.wrap .plain hkey
  have hencoded : (d.encoded.wrap key).Inert := hd.wrap .encoded hkey
  have hvalue : d.encoded.wrap key <:+: text → (Html.escape value).Inert :=
    fun _ => Html.escape_inert value
  have hne : d.plain.wrap key ≠ [] := wrap_ne_nil .plain key
  have hne' : d.encoded.wrap key ≠ [] := wrap_ne_nil .encoded key
  rw [substitute, Text.inert_replaceAll_iff hne hplain, Text.inert_replaceAll_iff hne' hencoded,
    and_iff_left hvalue]
  rfl

/-- **Putting in all values** keeps out markup exactly if it does so entry after entry. -/
theorem Inert.renderEntries_iff (hd : d.Inert) (hnames : ∀ entry ∈ entries, isName entry.1 = true) :
    (d.renderEntries entries template).Inert ↔ template.Inert ∧
      ∀ first key value rest, entries = first ++ (key, value) :: rest →
        d.plain.wrap key <:+: d.beforePlain first key value template → value.Inert := by
  induction entries generalizing template with
  | nil => simp [renderEntries]
  | cons entry entries ih =>
    obtain ⟨key, value⟩ := entry
    have hkey : isName key = true := hnames _ List.mem_cons_self
    have hlater := fun entry hentry => hnames entry (List.mem_cons_of_mem _ hentry)
    have hstep : d.renderEntries ((key, value) :: entries) template =
        d.renderEntries entries (d.substitute key value template) := rfl
    rw [hstep, ih hlater, hd.substitute_iff hkey, and_assoc]
    refine and_congr_right fun _ => ⟨?_, fun h => ⟨?_, ?_⟩⟩
    · -- an entry is the first one, or one of those after it
      rintro ⟨hfirst, hrest⟩ first other otherValue rest hsplit hin
      cases first with
      | nil =>
        cases hsplit
        exact hfirst hin
      | cons entry first =>
        cases hsplit
        exact hrest first other otherValue rest rfl hin
    · exact h [] key value entries rfl
    · intro first other otherValue rest hsplit
      exact h ((key, value) :: first) other otherValue rest (congrArg _ hsplit)

/-- What becomes of a template without markup and without plain placeholders of keys has no
markup. -/
theorem Substituted.inert (h : d.Substituted store text result) (htext : text.Inert)
    (hplain : ∀ key ∈ store.keys, ¬ d.plain.wrap key <:+: text) : result.Inert := by
  induction h with
  | copied hlacks => exact htext
  | @replaced form key value before after result hbefore hopen hvalue later ih =>
    have hkey : key ∈ store.keys := Variables.mem_keys_iff.2 ⟨value, hvalue⟩
    rw [Text.inert_append_iff, Text.inert_append_iff] at htext
    cases form with
    | plain => exact absurd (List.infix_append _ _ _) (hplain key hkey)
    | encoded =>
      have hafter : ∀ key ∈ store.keys, ¬ d.plain.wrap key <:+: after := fun key hkey hin =>
        hplain key hkey (hin.trans (List.suffix_append _ after).isInfix)
      rw [Text.inert_append_iff, Text.inert_append_iff]
      exact ⟨⟨htext.1.1, Html.escape_inert value⟩, ih htext.2 hafter⟩

/-- **Encoded placeholders alone do not keep out markup.** A value can hold the plain placeholder of
a key after its own. -/
theorem not_inert_render :
    ¬ ∀ (store : Variables) (template : Text), (∀ key ∈ store.keys, isName key = true) →
      template.Inert → (∀ key ∈ store.keys, ¬ standard.plain.wrap key <:+: template) →
        (standard.render store template).Inert := by
  intro h
  have hinert := h ⟨[(['A'], standard.plain.wrap ['B']), (['B'], ['<'])]⟩
    (standard.encoded.wrap ['A']) (by decide) (by decide) (by decide)
  exact absurd hinert (by decide +kernel)

/-- **Exactly the plain placeholders let markup in.** A template without markup is rendered to a
text without markup if and only if no plain placeholder is found, as its turn comes, whose value has
some. Where the values cannot make a placeholder, a template without plain placeholders of keys is
rendered to a text without markup. -/
theorem inert_render_iff (hnames : ∀ key ∈ store.keys, isName key = true)
    (htemplate : template.Inert) :
    ((standard.render store template).Inert ↔
      ∀ first key value rest, store.entries = first ++ (key, value) :: rest →
        standard.plain.wrap key <:+: standard.beforePlain first key value template → value.Inert) ∧
    (standard.Tame store → standard.StandsFree store.keys template →
      (∀ key ∈ store.keys, ¬ standard.plain.wrap key <:+: template) →
        (standard.render store template).Inert) := by
  have hentries : ∀ entry ∈ store.entries, isName entry.1 = true :=
    fun entry hentry => hnames entry.1 (List.mem_map_of_mem hentry)
  refine ⟨?_, fun tame free hplain => ?_⟩
  · rw [render, standard_inert.renderEntries_iff hentries, and_iff_right htemplate]
  · exact (standard_wellSeparated.substituted_render tame free).inert htemplate hplain

/-- A value with markup, in an encoded placeholder. -/
theorem inert_render_iff_encoded :
    let store : Variables := ⟨[(['A'], ['x', '<']), (['B'], ['1'])]⟩
    let template := standard.encoded.wrap ['A'] ++ standard.plain.wrap ['C']
    (∀ key ∈ store.keys, isName key = true) ∧ template.Inert ∧
      (standard.render store template).Inert := by
  intro store template
  have hnames : ∀ key ∈ store.keys, isName key = true := by decide
  have htemplate : template.Inert := by decide
  exact ⟨hnames, htemplate,
    (inert_render_iff hnames htemplate).2 (by decide) (by decide) (by decide)⟩

end Delimiters

end Stencil
