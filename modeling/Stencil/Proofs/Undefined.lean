import Mathlib.Data.List.Sort
import Stencil.Proofs.Search
import Stencil.Proofs.Substitution

/-!
# Placeholders without a key

What becomes of the placeholders of a template whose names are no keys of the store.

* `render_append_undefined`: such a placeholder cuts a template in two parts that are rendered
  apart, **whatever the values are**.
* `Substituted.infix_iff`: no other placeholders are in what a template becomes.
* `render_render`: so rendering what was rendered changes nothing.
* `unresolved_render`: **the report names exactly them**.
-/

namespace Stencil.Delimiters

open Text

variable {d : Delimiters} {store : Variables} {key name text result before after template : Text}
  {form other : Form}

/-- **A placeholder without a key is never lost or altered.** It stays where it is, and what stands
before and after it is rendered as if it stood alone. So it is in the rendered text if it was in the
template. -/
theorem render_append_undefined (sep : d.WellSeparated)
    (unmarked : ∀ key ∈ store.keys, d.Unmarked key) (form : Form) (hname : isName name = true)
    (hkey : name ∉ store.keys) :
    (∀ a b, d.render store (a ++ (d.pair form).wrap name ++ b) =
      d.render store a ++ (d.pair form).wrap name ++ d.render store b) ∧
    ∀ template, (d.pair form).wrap name <:+: template →
      (d.pair form).wrap name <:+: d.render store template := by
  have hword := sep.unmarked_of_isName hname
  have hsplit : ∀ a b, d.render store (a ++ (d.pair form).wrap name ++ b) =
      d.render store a ++ (d.pair form).wrap name ++ d.render store b := by
    intro a b
    simp only [render_eq_replaceInTurn]
    refine replaceInTurn_of_spares (fun _ => True) (fun entry hentry before _ => ?_) trivial
    obtain ⟨key, other, hmem, hold⟩ := exists_key_of_mem_table hentry
    rw [hold]
    refine ⟨wrap_ne_nil other key, sep.spares_wrap hword (unmarked key hmem) fun heq => ?_, trivial⟩
    obtain ⟨-, rfl⟩ := sep.wrap_inj (x := []) (y := []) (unmarked key hmem) hword
      (by simpa using heq)
    exact hkey hmem
  refine ⟨hsplit, ?_⟩
  rintro _ ⟨a, b, rfl⟩
  rw [hsplit]
  exact ⟨d.render store a, d.render store b, rfl⟩

/-- A value that is itself a placeholder, beside a placeholder without a key. -/
theorem render_append_undefined_standard :
    let store : Variables := ⟨[(['A'], standard.plain.wrap ['B']), (['B'], [])]⟩
    (standard.WellSeparated ∧ (∀ key ∈ store.keys, standard.Unmarked key) ∧
      isName ['C'] = true ∧ ['C'] ∉ store.keys) ∧
    (∀ a b, standard.render store (a ++ standard.encoded.wrap ['C'] ++ b) =
      standard.render store a ++ standard.encoded.wrap ['C'] ++ standard.render store b) ∧
    ∀ template, standard.encoded.wrap ['C'] <:+: template →
      standard.encoded.wrap ['C'] <:+: standard.render store template :=
  ⟨by decide,
    render_append_undefined standard_wellSeparated (by decide) .encoded (by decide) (by decide)⟩

/-- A placeholder in a text with another one is before it, after it, or that one. -/
theorem WellSeparated.wrap_infix_iff (sep : d.WellSeparated) (hkey : d.Unmarked key)
    (hname : d.Unmarked name) :
    (d.pair other).wrap name <:+: before ++ (d.pair form).wrap key ++ after ↔
      (d.pair other).wrap name <:+: before ∨ (d.pair other).wrap name <:+: after ∨
        (d.pair other).wrap name = (d.pair form).wrap key := by
  by_cases heq : (d.pair other).wrap name = (d.pair form).wrap key
  · simp only [heq, or_true, iff_true]
    exact ⟨before, after, rfl⟩
  · simp only [heq, or_false]
    exact infix_iff_of_spares (sep.spares_wrap hkey hname heq)

/-- **The placeholders in what a template becomes** are those of the template without a key. -/
theorem Substituted.infix_iff (sep : d.WellSeparated) (tame : d.Tame store)
    (h : d.Substituted store text result) (hname : isName name = true) :
    (d.pair other).wrap name <:+: result ↔
      (d.pair other).wrap name <:+: text ∧ name ∉ store.keys := by
  have hword := sep.unmarked_of_isName hname
  induction h with
  | copied hlacks =>
    exact ⟨fun hin => ⟨hin, fun hkey => hlacks other name hkey hin⟩, fun hin => hin.1⟩
  | @replaced form key value before after result hbefore hopen hvalue _ ih =>
    have hmem := Variables.mem_keys_iff.2 ⟨value, hvalue⟩
    have hkey := sep.unmarked_of_mem_keys tame hmem
    have hafter : (d.pair other).wrap name <:+: result ↔
        (d.pair other).wrap name <:+: after ∧ name ∉ store.keys := ih
    rw [infix_iff_of_spares (sep.spares_value hname (tame.unmarked_written hvalue) hopen), hafter,
      sep.wrap_infix_iff hkey hword]
    constructor
    · rintro (hin | ⟨hin, hundefined⟩)
      · exact ⟨.inl hin, fun hkey => hbefore other name hkey hin⟩
      · exact ⟨.inr (.inl hin), hundefined⟩
    · rintro ⟨hin | hin | heq, hundefined⟩
      · exact .inl hin
      · exact .inr ⟨hin, hundefined⟩
      · obtain ⟨-, rfl⟩ := sep.wrap_inj (x := []) (y := []) hword hkey (by simpa using heq)
        exact absurd hmem hundefined

/-- What a template becomes has no placeholder of a key. -/
theorem Substituted.lacks (sep : d.WellSeparated) (tame : d.Tame store)
    (h : d.Substituted store text result) : d.Lacks store.keys result := by
  intro form key hkey hin
  have hundefined := ((h.infix_iff sep tame (tame.name key hkey)).1 hin).2
  exact hundefined hkey

/-- What a template becomes is what it is rendered to. -/
theorem WellSeparated.substituted_render (sep : d.WellSeparated) (tame : d.Tame store)
    (free : d.StandsFree store.keys template) :
    d.Substituted store template (d.render store template) := by
  obtain ⟨result, h⟩ := sep.exists_substituted tame free
  have hresult : d.render store template = result := by
    rw [render_eq_replaceInTurn, sep.replaceInTurn_eq tame h]
  rwa [hresult]

/-- **Rendering is idempotent**: a rendered text is rendered to itself with the same variables. -/
theorem render_render (sep : d.WellSeparated) (tame : d.Tame store)
    (free : d.StandsFree store.keys template) :
    d.render store (d.render store template) = d.render store template := by
  have hlacks : d.Lacks store.keys (d.render store template) :=
    (sep.substituted_render tame free).lacks sep tame
  rw [render_eq_replaceInTurn store (d.render store template)]
  apply replaceInTurn_of_not_infix
  exact lacks_iff.1 hlacks

/-- A value that needs writing in HTML, beside a placeholder without a key. -/
theorem render_render_standard :
    let store : Variables := ⟨[(['A'], ['x', '<']), (['B'], ['1'])]⟩
    let template := standard.encoded.wrap ['A'] ++ standard.plain.wrap ['C'] ++
      standard.plain.wrap ['B']
    (standard.WellSeparated ∧ standard.Tame store ∧ standard.StandsFree store.keys template) ∧
      standard.render store (standard.render store template) = standard.render store template :=
  ⟨by decide, render_render standard_wellSeparated (by decide) (by decide)⟩

-- A placeholder that completes what stands before it is one more to be replaced the next time.
example :
    let store : Variables := ⟨[(['A'], ['A'])]⟩
    let template : Text := "{{{{A}}}}"
    standard.render store (standard.render store template) ≠ standard.render store template := by
  decide +kernel

/-- **The report names exactly the placeholders without a key.** -/
theorem unresolved_render (sep : d.WellSeparated) (tame : d.Tame store)
    (free : d.StandsFree store.keys template) :
    d.unresolved (d.render store template) =
      Text.setOf (((d.tokens .plain template ++ d.tokens .encoded template).filter
        fun token => token.name ∉ store.keys).map Token.full) := by
  obtain ⟨result, h⟩ := sep.exists_substituted tame free
  have hresult : d.render store template = result := by
    rw [render_eq_replaceInTurn, sep.replaceInTurn_eq tame h]
  have hnames : ∀ form name, name ∈ (d.pair form).names result ↔
      name ∈ (d.pair form).names template ∧ name ∉ store.keys := by
    intro form name
    rw [Pair.mem_names_iff (sep.separated form), Pair.mem_names_iff (sep.separated form), and_assoc]
    exact and_congr_right fun hname => h.infix_iff sep tame hname
  rw [hresult]
  have hsorted : (d.unresolved result).Pairwise (· < ·) := Text.setOf_pairwise _
  refine hsorted.eq_of_mem_iff (Text.setOf_pairwise _) fun z => ?_
  rw [mem_unresolved_iff, Text.mem_setOf_iff]
  simp only [hnames, List.mem_map, List.mem_filter, List.mem_append, tokens, Pair.tokens,
    decide_eq_true_eq]
  constructor
  · rintro ⟨form, name, ⟨hmem, hkey⟩, rfl⟩
    refine ⟨⟨(d.pair form).wrap name, name⟩, ⟨?_, hkey⟩, rfl⟩
    cases form
    · exact .inl ⟨name, hmem, rfl⟩
    · exact .inr ⟨name, hmem, rfl⟩
  · rintro ⟨_, ⟨⟨name, hmem, rfl⟩ | ⟨name, hmem, rfl⟩, hkey⟩, rfl⟩
    · exact ⟨.plain, name, ⟨hmem, hkey⟩, rfl⟩
    · exact ⟨.encoded, name, ⟨hmem, hkey⟩, rfl⟩

/-- Of three placeholders the one without a key is left, in one form. -/
theorem unresolved_render_standard :
    let store : Variables := ⟨[(['A'], ['x', '<']), (['B'], ['1'])]⟩
    let template := standard.encoded.wrap ['A'] ++ standard.plain.wrap ['C'] ++
      standard.plain.wrap ['B']
    (standard.WellSeparated ∧ standard.Tame store ∧ standard.StandsFree store.keys template) ∧
      standard.unresolved (standard.render store template) = [standard.plain.wrap ['C']] :=
  ⟨by decide,
    (unresolved_render standard_wellSeparated (by decide) (by decide)).trans (by decide +kernel)⟩

end Stencil.Delimiters
