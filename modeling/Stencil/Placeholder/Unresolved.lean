import Stencil.Placeholder.Token
import Stencil.Text.Order

/-!
# Unresolved placeholders

What is left of the placeholders in a finished text.

* `Text.setOf_pairwise`: a set of texts is in increasing order.
* `mem_unresolved_iff`: a placeholder is reported exactly if it is read in one of the two forms.
-/

namespace Stencil

/-- The texts as a set: in increasing order, each once. -/
def Text.setOf (texts : List Text) : List Text := texts.foldl (fun set x => insertText x set) []

namespace Delimiters

/-- The placeholders of both forms in the text, in increasing order, each once. -/
def unresolved (delimiters : Delimiters) (text : Text) : List Text :=
  Text.setOf (((delimiters.tokens .plain text) ++ (delimiters.tokens .encoded text)).map Token.full)

end Delimiters

theorem Text.mem_setOf_iff {z : Text} {texts : List Text} : z ∈ Text.setOf texts ↔ z ∈ texts := by
  suffices ∀ set, z ∈ texts.foldl (fun set x => insertText x set) set ↔ z ∈ set ∨ z ∈ texts by
    simpa [Text.setOf] using this []
  induction texts with
  | nil => simp
  | cons x texts ih =>
    intro set
    rw [List.foldl_cons, ih, mem_insertText_iff, List.mem_cons, or_assoc, or_left_comm]

/-- A set of texts is in increasing order. -/
theorem Text.setOf_pairwise (texts : List Text) : (Text.setOf texts).Pairwise (· < ·) := by
  suffices ∀ set : List Text, set.Pairwise (Text.before · · = true) →
      (texts.foldl (fun set x => insertText x set) set).Pairwise (Text.before · · = true) by
    simpa [Text.before, Text.setOf] using this [] List.Pairwise.nil
  induction texts with
  | nil => exact fun set h => h
  | cons x texts ih =>
    intro set h
    exact ih _ (pairwise_insertBy_text id h)

theorem mem_unresolved_iff {delimiters : Delimiters} {text z : Text} :
    z ∈ delimiters.unresolved text ↔
      ∃ form, ∃ name ∈ (delimiters.pair form).names text, z = (delimiters.pair form).wrap name := by
  simp only [Delimiters.unresolved, Text.mem_setOf_iff, List.map_append, List.mem_append,
    Delimiters.tokens, Pair.tokens, List.map_map, List.mem_map, Function.comp]
  constructor
  · rintro (⟨name, h, rfl⟩ | ⟨name, h, rfl⟩)
    · exact ⟨.plain, name, h, rfl⟩
    · exact ⟨.encoded, name, h, rfl⟩
  · rintro ⟨form, name, h, rfl⟩
    cases form
    · exact .inl ⟨name, h, rfl⟩
    · exact .inr ⟨name, h, rfl⟩

end Stencil
