import Stencil.Placeholder.Delimiters
import Stencil.Placeholder.Name

/-!
# Placeholders in a text

The placeholders of one form are read off a text from the left. Each starts at the first place
where one can start, its name is as long as possible, and the next one starts after its end.

* `closedName?_eq_some`: a name is read only where it is one and the closing text follows it.
* `Pair.nameAt?_eq_some`: a placeholder is read only where it stands.
-/

namespace Stencil

/-- A placeholder as it stands in a text. -/
structure Token where
  /-- The whole placeholder. -/
  full : Text
  /-- The name in it. -/
  name : Text
  deriving DecidableEq, Repr

/-- The longest name that the text starts with and that `closing` follows. -/
def closedName? (closing : Text) : Text → Option Text
  | [] => none
  | c :: rest =>
    if isNameChar c then
      match closedName? closing rest with
      | some name => some (c :: name)
      | none => if closing.isPrefixOf rest then some [c] else none
    else none

theorem closedName?_eq_some {closing text name : Text} (h : closedName? closing text = some name) :
    isName name = true ∧ name ++ closing <+: text := by
  induction text generalizing name with
  | nil => simp [closedName?] at h
  | cons c rest ih =>
    unfold closedName? at h
    split at h
    · next hc =>
      split at h
      · next tail htail =>
        obtain ⟨hn, hp⟩ := ih htail
        cases h
        refine ⟨isName_iff.2 ⟨by simp, fun x hx => ?_⟩, by simpa using hp⟩
        rcases List.mem_cons.1 hx with rfl | hx
        · exact hc
        · exact (isName_iff.1 hn).2 x hx
      · split at h
        · next hp =>
          cases h
          exact ⟨by simp [isName, hc], by simpa using List.isPrefixOf_iff_prefix.1 hp⟩
        · cases h
    · cases h

namespace Pair

/-- The name of the placeholder that the text starts with. -/
def nameAt? (pair : Pair) (text : Text) : Option Text :=
  (Text.after? pair.opening text).bind (closedName? pair.closing)

theorem nameAt?_eq_some {pair : Pair} {text name : Text} (h : pair.nameAt? text = some name) :
    isName name = true ∧ pair.wrap name <+: text := by
  obtain ⟨rest, hrest, hname⟩ := Option.bind_eq_some_iff.1 h
  obtain ⟨hn, hp⟩ := closedName?_eq_some hname
  rw [Text.after?_eq_some_iff.1 hrest, wrap, List.append_assoc]
  exact ⟨hn, (List.prefix_append_right_inj _).2 hp⟩

/-- The names of the placeholders in the text, from left to right. -/
def names (pair : Pair) : Text → List Text
  | [] => []
  | c :: rest =>
    match pair.nameAt? (c :: rest) with
    | some name => name :: pair.names (rest.drop ((pair.wrap name).length - 1))
    | none => pair.names rest
  termination_by text => text.length
  decreasing_by all_goals simp; try omega

/-- The placeholders in the text, from left to right. -/
def tokens (pair : Pair) (text : Text) : List Token :=
  (pair.names text).map fun name => ⟨pair.wrap name, name⟩

end Pair

/-- The placeholders of one form in the text, from left to right. -/
def Delimiters.tokens (delimiters : Delimiters) (form : Form) (text : Text) : List Token :=
  (delimiters.pair form).tokens text

end Stencil
