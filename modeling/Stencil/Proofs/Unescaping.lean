import Mathlib.Data.List.Nodup
import Stencil.Proofs.Injection
import Stencil.Proofs.Nesting

/-!
# Values that are read back from HTML

References end with the only semicolon in them, so none of them begins another one, and reading them
from the left takes each as it was written. A value that holds what looks like a reference is
written with its ampersand as a reference, so it is told apart.

* `Html.unescape`: reading the references, once from the left.
* `Html.eq_of_reference_prefix`: no reference begins another one.
* `Html.unescape_escape`: **what is written is read back.**
* `Html.exists_reference_of_amp`: every ampersand begins a reference.
* `Html.escape_eq_self_iff`: only values that need nothing stay as they are.
* `Html.escape_lossless`: **writing values in HTML is safe and loses nothing.**
-/

namespace Stencil

open Text

/-- Different numbers have different digits. -/
theorem Text.number_injective : Function.Injective Text.number := by
  intro m n h
  have hread := congrArg (Nat.ofDigitChars 10 · 0) h
  simpa [Text.number, Nat.ofDigitChars_toDigits] using hread

namespace Html

variable {c : Char} {entry other : Text × Text} {value rest before after : Text}

/-- The text with its references read, once from the left. -/
def unescape (text : Text) : Text := replaceEach references text

/-- **No reference begins another one.** -/
theorem eq_of_reference_prefix (h : entry ∈ references) (hother : other ∈ references)
    (hbegins : other.1 <+: entry.1 ++ rest) : other.1 = entry.1 := by
  obtain ⟨body, hentry, hbody⟩ := exists_body_of_mem_references h
  obtain ⟨letters, hothers, hletters⟩ := exists_body_of_mem_references hother
  obtain ⟨tail, htail⟩ := hbegins
  have hrun : ∀ {run : Text}, (∀ c ∈ run, inReference c = true) → ∀ c ∈ '&' :: run, c ≠ ';' := by
    rintro run hin c hc rfl
    rcases List.mem_cons.1 hc with hamp | hc
    · exact absurd hamp (by decide)
    · exact absurd (hin _ hc) (by decide)
  have hend : ∀ text : Text, StartsIn (¬ · ≠ ';') (';' :: text) :=
    fun text => ⟨';', rfl, not_not_intro rfl⟩
  rw [hentry, hothers, List.append_assoc, List.append_assoc, List.singleton_append,
    List.singleton_append] at htail
  obtain ⟨hsame, -⟩ := append_inj_of_class htail (hrun hletters) (hrun hbody) (hend _) (hend _)
  rw [hentry, hothers, hsame]

/-- Different numbers have different references. -/
theorem decimalReference_injective : Function.Injective fun number => (decimalReference number).1 := by
  intro m n h
  have hdigits : Text.number m ++ [';'] = Text.number n ++ [';'] := by
    simpa [decimalReference, Text.concat] using h
  exact Text.number_injective (List.append_cancel_right hdigits)

/-- Of the characters of markup, only the apostrophe is written by its number. -/
theorem eq_apostrophe_of_mem_markupReferences {number : Nat}
    (h : (decimalReference number).1 ∈ markupReferences.map Prod.fst) : number = 39 := by
  have hsecond : (decimalReference number).1[1]? = some '#' := rfl
  have hapostrophe : ∀ text ∈ markupReferences.map Prod.fst, text[1]? = some '#' →
      text = (decimalReference 39).1 := by decide
  exact decimalReference_injective (hapostrophe _ h hsecond)

/-- The references are different. -/
theorem references_nodup : (references.map Prod.fst).Nodup := by
  have hmarkup : (markupReferences.map Prod.fst).Nodup := by decide
  have hdecimal : (((List.range' 0xA0 96).map decimalReference).map Prod.fst).Nodup := by
    rw [List.map_map]
    exact List.Nodup.map decimalReference_injective List.nodup_range'
  unfold references
  rw [List.map_append]
  refine List.nodup_append.2 ⟨hmarkup, hdecimal, ?_⟩
  rintro text hnamed _ hnumbered rfl
  rw [List.map_map] at hnumbered
  obtain ⟨number, hnumber, rfl⟩ := List.mem_map.1 hnumbered
  have hlow := (List.mem_range'_1.1 hnumber).1
  have hapostrophe := eq_apostrophe_of_mem_markupReferences hnamed
  omega

/-- **A reference is found** where it stands, whatever follows. -/
theorem entryAt?_reference (h : entry ∈ references) (rest : Text) :
    entryAt? references (entry.1 ++ rest) = some entry := by
  cases hat : entryAt? references (entry.1 ++ rest) with
  | none => exact absurd (List.prefix_append _ _) (entryAt?_eq_none_iff.1 hat entry h)
  | some found =>
    have hmem := List.mem_of_find?_eq_some hat
    obtain ⟨tail, htail⟩ := entryAt?_eq_some hat
    have hfirst := eq_of_reference_prefix h hmem ⟨tail, htail.symm⟩
    have hfound := lookup_eq_some_of_mem references_nodup hmem
    rw [hfirst, lookup_eq_some_of_mem references_nodup h, Option.some.injEq] at hfound
    rw [Option.some.injEq]
    exact Prod.ext hfirst hfound.symm

/-- A reference that is read gives what it stands for. -/
theorem unescape_reference (h : entry ∈ references) (rest : Text) :
    unescape (entry.1 ++ rest) = entry.2 ++ unescape rest := by
  obtain ⟨body, hentry, -⟩ := exists_body_of_mem_references h
  refine replaceEach_of_entryAt? ?_ (entryAt?_reference h rest)
  rw [hentry]
  exact List.cons_ne_nil _ _

/-- A character other than the ampersand is read as it is. -/
theorem unescape_cons (h : c ≠ '&') (rest : Text) : unescape (c :: rest) = c :: unescape rest := by
  have hnone : entryAt? references (c :: rest) = none := by
    rw [entryAt?_eq_none_iff]
    intro entry hentry hbegins
    obtain ⟨body, hbody, -⟩ := exists_body_of_mem_references hentry
    rw [hbody, List.cons_append, List.cons_prefix_cons] at hbegins
    exact h hbegins.1.symm
  unfold unescape
  rw [replaceEach, hnone]

/-- What is written for a character is read back. -/
theorem unescape_escapeChar (c : Char) (rest : Text) :
    unescape (escapeChar c ++ rest) = c :: unescape rest := by
  rcases escapeChar_cases c with ⟨hneeds, hwritten⟩ | ⟨-, hreference⟩
  · have hamp : c ≠ '&' := by
      rintro rfl
      exact absurd hneeds (by decide)
    rw [hwritten]
    exact unescape_cons hamp rest
  · exact unescape_reference hreference rest

/-- **What is written in HTML is read back.** -/
theorem unescape_escape (value : Text) : unescape (escape value) = value := by
  induction value with
  | nil => exact replaceEach_nil
  | cons c value ih =>
    have hread := unescape_escapeChar c (escape value)
    rw [ih] at hread
    exact hread

/-- An ampersand in what is written for a character is the first of a reference. -/
theorem exists_reference_of_mem_escapeChar (h : escapeChar c = before ++ '&' :: after) :
    ∃ entry ∈ references, entry.1 = '&' :: after := by
  rcases escapeChar_cases c with ⟨hneeds, hwritten⟩ | ⟨-, hreference⟩
  · have hmem : '&' ∈ escapeChar c := by
      rw [h]
      simp
    rw [hwritten, List.mem_singleton] at hmem
    rw [← hmem] at hneeds
    exact absurd hneeds (by decide)
  · refine ⟨_, hreference, ?_⟩
    obtain ⟨body, hbody, hletters⟩ := exists_body_of_mem_references hreference
    change escapeChar c = _ at hbody
    cases before with
    | nil => exact h
    | cons first before =>
      -- no ampersand is in the body or after it
      rw [hbody, List.cons_append, List.cons_append, List.cons.injEq] at h
      have hmem : '&' ∈ body ++ [';'] := by
        rw [h.2]
        simp
      rcases List.mem_append.1 hmem with hletter | hend
      · exact absurd (hletters _ hletter) (by decide)
      · exact absurd hend (by decide)

/-- **Every ampersand in a value in HTML begins a reference.** -/
theorem exists_reference_of_amp (h : escape value = before ++ '&' :: after) :
    ∃ entry ∈ references, entry.1 <+: '&' :: after := by
  induction value generalizing before with
  | nil => simp [escape] at h
  | cons c value ih =>
    have hsplit : escapeChar c ++ escape value = before ++ '&' :: after := h
    rcases List.append_eq_append_iff.1 hsplit with ⟨later, -, hvalue⟩ | ⟨inner, hchar, hafter⟩
    · exact ih hvalue
    · cases inner with
      | nil =>
        have hlater : escape value = [] ++ '&' :: after := hafter.symm
        exact ih hlater
      | cons x inner =>
        rw [List.cons_append, List.cons.injEq] at hafter
        obtain ⟨rfl, rfl⟩ := hafter
        obtain ⟨entry, hentry, hfirst⟩ := exists_reference_of_mem_escapeChar hchar
        refine ⟨entry, hentry, ?_⟩
        rw [hfirst]
        exact List.prefix_append ('&' :: inner) (escape value)

/-- A value with a character that needs writing becomes longer. -/
theorem length_lt_escape (hc : c ∈ value) (hneeds : needsEscape c = true) :
    value.length < (escape value).length := by
  obtain ⟨first, second, rfl⟩ := List.append_of_mem hc
  have hreference : 2 ≤ (escapeChar c).length := by
    rcases escapeChar_cases c with ⟨hnot, -⟩ | ⟨-, hmem⟩
    · rw [hneeds] at hnot
      cases hnot
    · obtain ⟨body, hbody, -⟩ := exists_body_of_mem_references hmem
      change escapeChar c = _ at hbody
      rw [hbody]
      simp
  have hfirst := length_le_escape first
  have hsecond := length_le_escape second
  have hsplit : escape (first ++ c :: second) = escape first ++ (escapeChar c ++ escape second) :=
    escape_append first (c :: second)
  rw [hsplit]
  simp only [List.length_append, List.length_cons]
  omega

/-- **Only values that need nothing stay as they are.** -/
theorem escape_eq_self_iff : escape value = value ↔ ∀ c ∈ value, needsEscape c = false := by
  constructor
  · intro hsame c hc
    rw [Bool.eq_false_iff]
    intro hneeds
    have hlonger := length_lt_escape hc hneeds
    rw [hsame] at hlonger
    exact absurd hlonger (Nat.lt_irrefl _)
  · exact escape_eq_self

/-- **Writing values in HTML is safe and loses nothing.** What is written has no character of markup
and none of the upper half of Latin-1, and its ampersands begin references. Reading these gives the
value, so different values stay different; values that stand together are written one by one. A
value stays as it is exactly if it has no character that needs writing; then it can be handed on. -/
theorem escape_lossless (value : Text) :
    (escape value).Inert ∧
    (∀ c ∈ escape value, ¬ (0xA0 ≤ c.toNat ∧ c.toNat ≤ 0xFF)) ∧
    (∀ before after, escape value = before ++ '&' :: after →
      ∃ entry ∈ references, entry.1 <+: '&' :: after) ∧
    unescape (escape value) = value ∧
    (∀ other, escape other = escape value → other = value) ∧
    (∀ other, escape (value ++ other) = escape value ++ escape other) ∧
    (escape value = value ↔ ∀ c ∈ value, needsEscape c = false) ∧
    (if value.any needsEscape then value.flatMap escapeChar else value) = escape value := by
  refine ⟨escape_inert value, fun c hc hlatin => ?_, fun before after => exists_reference_of_amp,
    unescape_escape value, fun other hsame => ?_, escape_append value, escape_eq_self_iff, ?_⟩
  · rcases mem_escape hc with rfl | hneeds
    · exact absurd hlatin (by decide)
    · simp [needsEscape, hlatin] at hneeds
  · rw [← unescape_escape other, hsame, unescape_escape]
  · split
    · rfl
    · next hnone =>
      rw [Bool.not_eq_true, List.any_eq_false] at hnone
      exact (escape_eq_self fun c hc => Bool.eq_false_iff.2 (hnone c hc)).symm

/-- A value that looks like a reference, beside two characters that are written as references. -/
theorem escape_lossless_nested :
    let value : Text := ['&', 'l', 't', ';', '\u00E9', '"']
    let written : Text := "&amp;lt;&#233;&quot;"
    escape value = written ∧
      (∃ entry ∈ references, entry.1 <+: "&#233;&quot;".toList) ∧
      unescape written = value ∧ (∀ other, escape other = written → other = value) ∧
      written ≠ value := by
  intro value written
  have hwritten : escape value = written := by decide +kernel
  obtain ⟨-, -, hamp, hread, hinjective, -, hsame, -⟩ := escape_lossless value
  rw [hwritten] at hamp hread hinjective hsame
  refine ⟨hwritten, hamp "&amp;lt;" "#233;&quot;" (by decide), hread, hinjective, fun heq => ?_⟩
  exact absurd (hsame.1 heq '&' (by decide)) (by decide)

end Html

end Stencil
