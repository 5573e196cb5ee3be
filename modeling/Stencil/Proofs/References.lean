import Mathlib.Tactic.SplitIfs
import Stencil.Html.Escape
import Stencil.Placeholder.Name

/-!
# References in HTML

A reference stands for one character: it begins with an ampersand and ends with a semicolon.

* `Html.references`: the references, each with what it stands for.
* `Html.exists_body_of_mem_references`: how a reference is made.
* `Html.escapeChar_cases`: **a character that needs it is written as its reference**, and any other
  as it is.
* `Html.mem_escape`: so a value in HTML has no other character that needs it than the ampersand.
-/

namespace Stencil.Html

variable {c x : Char} {entry : Text × Text}

/-- The references of the characters of markup. -/
def markupReferences : List (Text × Text) :=
  [("&amp;", ['&']), ("&lt;", ['<']), ("&gt;", ['>']), ("&quot;", ['"']), ("&#39;", ['\''])]

/-- The decimal reference of a character, by its number. -/
def decimalReference (number : Nat) : Text × Text :=
  (Text.concat ["&#", Text.number number, ";"], [Char.ofNat number])

/-- **The references**, each with what it stands for: those of the characters of markup, and the
decimal ones of the upper half of Latin-1, which begins with the no-break space. -/
def references : List (Text × Text) :=
  markupReferences ++ (List.range' 0xA0 96).map decimalReference

/-- The characters between the ampersand and the semicolon of a reference. -/
def inReference (c : Char) : Bool := c.isAlphanum || c == '#'

/-- Digits stand in references. -/
theorem inReference_of_mem_number {number : Nat} (h : c ∈ Text.number number) :
    inReference c = true := by
  have hdigit : c.isDigit = true := Nat.isDigit_of_mem_toDigits (by decide) (by decide) h
  simp [inReference, Char.isAlphanum, hdigit]

/-- **A reference** begins with an ampersand, ends with a semicolon, and has neither in between. -/
theorem exists_body_of_mem_references (h : entry ∈ references) :
    ∃ body, entry.1 = '&' :: body ++ [';'] ∧ ∀ c ∈ body, inReference c = true := by
  unfold references at h
  rcases List.mem_append.1 h with hmarkup | hdecimal
  · simp only [markupReferences, List.mem_cons, List.not_mem_nil, or_false] at hmarkup
    rcases hmarkup with rfl | rfl | rfl | rfl | rfl
    · exact ⟨"amp", by decide, List.all_eq_true.1 (by decide)⟩
    · exact ⟨"lt", by decide, List.all_eq_true.1 (by decide)⟩
    · exact ⟨"gt", by decide, List.all_eq_true.1 (by decide)⟩
    · exact ⟨"quot", by decide, List.all_eq_true.1 (by decide)⟩
    · exact ⟨"#39", by decide, List.all_eq_true.1 (by decide)⟩
  · obtain ⟨number, -, rfl⟩ := List.mem_map.1 hdecimal
    refine ⟨'#' :: Text.number number, rfl, fun x hx => ?_⟩
    rcases List.mem_cons.1 hx with rfl | hdigit
    · rfl
    · exact inReference_of_mem_number hdigit

/-- **A character that needs it is written as its reference**, and any other as it is. -/
theorem escapeChar_cases (c : Char) :
    (needsEscape c = false ∧ escapeChar c = [c]) ∨
      (needsEscape c = true ∧ (escapeChar c, [c]) ∈ references) := by
  cases hneeds : needsEscape c with
  | false => exact .inl ⟨rfl, escapeChar_of_not_needsEscape hneeds⟩
  | true =>
    refine .inr ⟨rfl, ?_⟩
    unfold escapeChar references
    split_ifs with hamp hlt hgt hquot hapos hlatin
    · subst hamp
      exact List.mem_append_left _ (by simp [markupReferences])
    · subst hlt
      exact List.mem_append_left _ (by simp [markupReferences])
    · subst hgt
      exact List.mem_append_left _ (by simp [markupReferences])
    · subst hquot
      exact List.mem_append_left _ (by simp [markupReferences])
    · subst hapos
      exact List.mem_append_left _ (by simp [markupReferences])
    · have hnumber : c.toNat ∈ List.range' 0xA0 96 := by
        rw [List.mem_range'_1]
        omega
      have hdecimal : decimalReference c.toNat =
          (Text.concat ["&#", Text.number c.toNat, ";"], [c]) := by
        rw [decimalReference, Char.ofNat_toNat]
      exact List.mem_append_right _ (List.mem_map.2 ⟨c.toNat, hnumber, hdecimal⟩)
    · -- no character that needs it is left over
      simp [needsEscape, hamp, hlt, hgt, hquot, hapos] at hneeds
      exact absurd hneeds hlatin

/-- What is written for a character is the character, if it needs nothing, or has only the
characters of references. -/
theorem mem_escapeChar (h : x ∈ escapeChar c) :
    (x = c ∧ needsEscape c = false) ∨ x = '&' ∨ inReference x = true ∨ x = ';' := by
  rcases escapeChar_cases c with ⟨hneeds, hwritten⟩ | ⟨-, hreference⟩
  · rw [hwritten, List.mem_singleton] at h
    exact .inl ⟨h, hneeds⟩
  · obtain ⟨body, hbody, hletters⟩ := exists_body_of_mem_references hreference
    change escapeChar c = _ at hbody
    rw [hbody, List.cons_append, List.mem_cons, List.mem_append, List.mem_singleton] at h
    rcases h with hamp | hletter | hend
    · exact .inr (.inl hamp)
    · exact .inr (.inr (.inl (hletters x hletter)))
    · exact .inr (.inr (.inr hend))

/-- Letters, digits and the number sign are written as they are. -/
theorem not_needsEscape_of_inReference (h : inReference c = true) : needsEscape c = false := by
  rw [Bool.eq_false_iff]
  intro hneeds
  simp only [needsEscape, Bool.or_eq_true, beq_iff_eq, Bool.and_eq_true, decide_eq_true_eq] at hneeds
  rcases hneeds with ((((rfl | rfl) | rfl) | rfl) | rfl) | hlatin
  · exact absurd h (by decide)
  · exact absurd h (by decide)
  · exact absurd h (by decide)
  · exact absurd h (by decide)
  · exact absurd h (by decide)
  · rw [inReference, Bool.or_eq_true, isAlphanum_iff, beq_iff_eq] at h
    rcases h with hword | rfl
    · omega
    · exact absurd hlatin (by decide)

/-- **A value in HTML has no character that needs writing**, but for the ampersands of
references. -/
theorem mem_escape {value : Text} (h : c ∈ escape value) : c = '&' ∨ needsEscape c = false := by
  obtain ⟨source, -, hmem⟩ := List.mem_flatMap.1 h
  rcases mem_escapeChar hmem with ⟨rfl, hneeds⟩ | hamp | hletter | rfl
  · exact .inr hneeds
  · exact .inl hamp
  · exact .inr (not_needsEscape_of_inReference hletter)
  · exact .inr (by decide)

end Stencil.Html
