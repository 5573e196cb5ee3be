import Stencil.Text.Basic

/-!
# Names of placeholders

A name is a run of ASCII letters, digits and hyphens that is not empty.

* `isName_iff`: a name has at least one character, and no other characters than these.
* `isAlphanum_iff`: the letters and digits by their numbers.
-/

namespace Stencil

/-- The characters of a name: ASCII letters, digits and the hyphen. -/
def isNameChar (c : Char) : Bool := c.isAlphanum || c == '-'

/-- Whether the text is the name of a placeholder. -/
def isName (text : Text) : Bool := !text.isEmpty && text.all isNameChar

theorem isName_iff {text : Text} :
    isName text = true ↔ text ≠ [] ∧ ∀ c ∈ text, isNameChar c = true := by
  cases text <;> simp [isName]

/-- The letters and digits of ASCII, by their numbers. -/
theorem isAlphanum_iff {c : Char} : c.isAlphanum = true ↔
    (0x41 ≤ c.toNat ∧ c.toNat ≤ 0x5A) ∨ (0x61 ≤ c.toNat ∧ c.toNat ≤ 0x7A) ∨
      (0x30 ≤ c.toNat ∧ c.toNat ≤ 0x39) := by
  have hranges : c.isAlphanum = (decide (65 ≤ c.val ∧ c.val ≤ 90) ||
      (decide (97 ≤ c.val) && decide (c.val ≤ 122)) ||
      (decide (48 ≤ c.val) && decide (c.val ≤ 57))) := rfl
  rw [hranges]
  simp only [Bool.or_eq_true, Bool.and_eq_true, decide_eq_true_eq, UInt32.le_iff_toNat_le, or_assoc]
  exact Iff.rfl

end Stencil
