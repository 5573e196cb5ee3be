import Stencil.Split

/-!
# Text

Text is a list of characters, so that it is taken apart and reasoned about as a list.

* `Text.concat`: the parts of a message, one after the other.
* `Text.after?`: what follows a given beginning.
* `cutAt?_eq_some_iff`, `cutAt?_eq_none_iff`: a text is cut in two at the first occurrence of a
  character, if there is one.
-/

namespace Stencil

/-- Text, character by character. -/
abbrev Text := List Char

instance : Coe String Text := ⟨String.toList⟩

/-- The parts of a message, written one after the other. -/
def Text.concat (parts : List Text) : Text := parts.flatten

/-- A number in decimal digits. -/
def Text.number (n : Nat) : Text := Nat.toDigits 10 n

/-- What follows `beginning` in the text, if the text starts with it. -/
def Text.after? : (beginning text : Text) → Option Text
  | [], text => some text
  | _ :: _, [] => none
  | b :: beginning, c :: text => if b = c then Text.after? beginning text else none

/-- A text is what it starts with and what follows. -/
theorem Text.after?_eq_some_iff {beginning text rest : Text} :
    Text.after? beginning text = some rest ↔ text = beginning ++ rest := by
  induction beginning generalizing text with
  | nil => simp [Text.after?, eq_comm]
  | cons b beginning ih =>
    cases text with
    | nil => simp [Text.after?]
    | cons c text =>
      by_cases h : b = c
      · simp [Text.after?, h, ih]
      · simp [Text.after?, h, Ne.symm h]

/-- The text before the first occurrence of `separator`, and the text after it. -/
def Text.cutAt? (separator : Char) : Text → Option (Text × Text)
  | [] => none
  | c :: rest =>
    if c = separator then some ([], rest)
    else (Text.cutAt? separator rest).map fun (before, after) => (c :: before, after)

theorem Text.cutAt?_eq_some_iff {separator : Char} {text before after : Text} :
    Text.cutAt? separator text = some (before, after) ↔
      separator ∉ before ∧ text = before ++ separator :: after := by
  induction text generalizing before with
  | nil => simp [Text.cutAt?]
  | cons c rest ih =>
    unfold Text.cutAt?
    by_cases h : c = separator
    · subst h
      cases before with
      | nil => simp [eq_comm]
      | cons b before =>
        constructor
        · intro h
          simp at h
        · rintro ⟨hm, he⟩
          exact absurd (by simp [(List.cons.inj he).1]) hm
    · cases before with
      | nil => simp [h]
      | cons b before =>
        simp only [h, if_false, Option.map_eq_some_iff, Prod.exists, List.cons_append,
          List.cons.injEq, Prod.mk.injEq, List.mem_cons, not_or]
        constructor
        · rintro ⟨x, y, hxy, ⟨rfl, rfl⟩, rfl⟩
          obtain ⟨hm, rfl⟩ := ih.1 hxy
          exact ⟨⟨Ne.symm h, hm⟩, rfl, rfl⟩
        · rintro ⟨⟨hb, hm⟩, rfl, hr⟩
          exact ⟨before, after, ih.2 ⟨hm, hr⟩, ⟨rfl, rfl⟩, rfl⟩

theorem Text.cutAt?_eq_none_iff {separator : Char} {text : Text} :
    Text.cutAt? separator text = none ↔ separator ∉ text := by
  induction text with
  | nil => simp [Text.cutAt?]
  | cons c rest ih =>
    by_cases h : c = separator
    · simp [Text.cutAt?, h]
    · simp [Text.cutAt?, h, Ne.symm h, ih]

end Stencil
