import Stencil.Text.Basic

/-!
# Replacing a text in a text

Occurrences are taken from the left and do not overlap, and what is put in is not searched again.

* `replaceAll_of_not_isInfix`: a text without an occurrence stays as it is.
-/

namespace Stencil

/-- The text with every occurrence of `old` replaced by `new`; `old` is not empty. -/
def Text.replaceAll (old new : Text) : Text → Text
  | [] => []
  | c :: rest =>
    if old.isPrefixOf (c :: rest) then
      new ++ Text.replaceAll old new (rest.drop (old.length - 1))
    else c :: Text.replaceAll old new rest
  termination_by text => text.length
  decreasing_by all_goals simp; try omega

@[simp] theorem Text.replaceAll_nil (old new : Text) : Text.replaceAll old new [] = [] := by
  rw [Text.replaceAll]

theorem Text.replaceAll_of_not_isInfix {old new text : Text} (h : ¬ old <:+: text) :
    Text.replaceAll old new text = text := by
  induction text with
  | nil => simp
  | cons c rest ih =>
    have hp : old.isPrefixOf (c :: rest) = false := by
      rw [Bool.eq_false_iff]
      exact fun hp => h (List.isPrefixOf_iff_prefix.1 hp).isInfix
    rw [Text.replaceAll, hp]
    simp [ih fun hi => h (hi.trans (List.suffix_cons c rest).isInfix)]

end Stencil
