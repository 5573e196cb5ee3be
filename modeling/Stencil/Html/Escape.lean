import Stencil.Text.Basic

/-!
# Values in HTML

A value is made safe for markup: the characters with a meaning there, and those of the upper half
of Latin-1, are written as references.

* `escape_append`: a value is written character by character.
* `escape_eq_self`: a value without such characters stays as it is.
-/

namespace Stencil.Html

/-- Whether a character is written as a reference. -/
def needsEscape (c : Char) : Bool :=
  c == '&' || c == '<' || c == '>' || c == '"' || c == '\'' ||
    (0xA0 ≤ c.toNat && c.toNat ≤ 0xFF)

/-- A character as it is written in HTML. -/
def escapeChar (c : Char) : Text :=
  if c = '&' then "&amp;"
  else if c = '<' then "&lt;"
  else if c = '>' then "&gt;"
  else if c = '"' then "&quot;"
  else if c = '\'' then "&#39;"
  else if 0xA0 ≤ c.toNat ∧ c.toNat ≤ 0xFF then .concat ["&#", .number c.toNat, ";"]
  else [c]

/-- A value as it is written in HTML. -/
def escape (value : Text) : Text := value.flatMap escapeChar

theorem escape_append (a b : Text) : escape (a ++ b) = escape a ++ escape b :=
  List.flatMap_append

theorem escapeChar_of_not_needsEscape {c : Char} (h : needsEscape c = false) :
    escapeChar c = [c] := by
  simp only [needsEscape, Bool.or_eq_false_iff, beq_eq_false_iff_ne, Bool.and_eq_false_iff,
    decide_eq_false_iff_not] at h
  obtain ⟨⟨⟨⟨⟨h1, h2⟩, h3⟩, h4⟩, h5⟩, h6⟩ := h
  simp only [escapeChar, h1, h2, h3, h4, h5, if_false]
  rw [if_neg (by omega)]

theorem escape_eq_self {value : Text} (h : ∀ c ∈ value, needsEscape c = false) :
    escape value = value := by
  induction value with
  | nil => rfl
  | cons c value ih =>
    rw [escape, List.flatMap_cons, escapeChar_of_not_needsEscape (h c (by simp))]
    exact congrArg (c :: ·) (ih fun x hx => h x (by simp [hx]))

end Stencil.Html
