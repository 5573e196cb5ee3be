import Stencil.Text.Basic

/-!
# Delimiters

A placeholder is a name between an opening and a closing text. There are two forms of it, each with
its own pair: the plain form stands for a value, the encoded form for the value in HTML.

* `Delimiters.ofPairs_eq_ok`: two pairs that are proper and differ are accepted as they are.
* `Delimiters.ofPairs_isOk_iff`: no other pairs are accepted.
* `Engine.Builds`: whether there are matchers for delimiters, which is up to the engine.
* `Engine.fault?_eq`, `Engine.fault?_eq_none_iff`: what is reported if there are none.
-/

namespace Stencil

/-- The two forms of a placeholder. -/
inductive Form where
  | plain
  | encoded
  deriving DecidableEq, Repr

/-- The word for a form in messages. -/
def Form.label : Form → Text
  | .plain => "plain"
  | .encoded => "encoded"

/-- What stands before and after the name in a placeholder. -/
structure Pair where
  opening : Text
  closing : Text
  deriving DecidableEq, Repr

namespace Pair

/-- The placeholder with the given name. -/
def wrap (pair : Pair) (name : Text) : Text := pair.opening ++ name ++ pair.closing

/-- A pair is proper if neither of its texts is empty. -/
def Proper (pair : Pair) : Prop := pair.opening ≠ [] ∧ pair.closing ≠ []

instance (pair : Pair) : Decidable pair.Proper := by unfold Proper; infer_instance

end Pair

/-- A proper pair for each form, and not the same one. There are no other delimiters than those that
`Delimiters.ofPairs` accepts, and the standard ones: no part of them is empty. -/
structure Delimiters where
  plain : Pair
  encoded : Pair
  plain_proper : plain.Proper
  encoded_proper : encoded.Proper
  distinct : plain ≠ encoded
  deriving DecidableEq

/-- Why two pairs are no delimiters. -/
inductive DelimiterFault where
  | emptyPart (form : Form)
  | identical (pair : Pair)
  /-- No matcher can be built for the pair, for the reason that the engine gives. -/
  | noMatcher (pair : Pair) (reason : Text)
  deriving DecidableEq, Repr

def DelimiterFault.message : DelimiterFault → Text
  | .emptyPart form => .concat [form.label, " prefix and postfix must not be empty"]
  | .identical pair =>
    .concat ["plain and encoded delimiters are identical ('", pair.opening, "' ... '",
      pair.closing, "')"]
  | .noMatcher pair reason =>
    .concat ["cannot build matcher for '", pair.opening, "' ... '", pair.closing, "': ", reason]

namespace Delimiters

/-- The two pairs as delimiters. An improper pair is reported before identical ones. -/
def ofPairs (plain encoded : Pair) : Except DelimiterFault Delimiters :=
  if plain_proper : plain.Proper then
    if encoded_proper : encoded.Proper then
      if distinct : plain ≠ encoded then
        .ok { plain, encoded, plain_proper, encoded_proper, distinct }
      else .error (.identical plain)
    else .error (.emptyPart .encoded)
  else .error (.emptyPart .plain)

/-- The pair of a form. -/
def pair (delimiters : Delimiters) : Form → Pair
  | .plain => delimiters.plain
  | .encoded => delimiters.encoded

/-- Two braces, and two braces with two bars for the encoded form. -/
def standard : Delimiters where
  plain := ⟨['{', '{'], ['}', '}']⟩
  encoded := ⟨['{', '{', '|', '|'], ['|', '|', '}', '}']⟩
  plain_proper := by decide
  encoded_proper := by decide
  distinct := by decide

theorem ofPairs_eq_ok (d : Delimiters) : ofPairs d.plain d.encoded = .ok d := by
  simp [ofPairs, d.plain_proper, d.encoded_proper, d.distinct]

/-- Delimiters are made of the pairs as they are. -/
theorem pairs_of_ofPairs {plain encoded : Pair} {d : Delimiters}
    (h : ofPairs plain encoded = .ok d) : d.plain = plain ∧ d.encoded = encoded := by
  unfold ofPairs at h
  split at h
  · split at h
    · split at h
      · cases h
        exact ⟨rfl, rfl⟩
      · cases h
    · cases h
  · cases h

theorem proper (d : Delimiters) (form : Form) : (d.pair form).Proper := by
  cases form with
  | plain => exact d.plain_proper
  | encoded => exact d.encoded_proper

theorem ofPairs_isOk_iff {plain encoded : Pair} :
    (∃ d, ofPairs plain encoded = .ok d) ↔ plain.Proper ∧ encoded.Proper ∧ plain ≠ encoded := by
  unfold ofPairs
  by_cases hp : plain.Proper <;> by_cases he : encoded.Proper <;>
    by_cases hd : plain = encoded <;> simp [hp, he, hd]

end Delimiters

/-- What builds the matchers by which placeholders are found in a text. It may build none for texts
that are too long for it. -/
structure Engine where
  /-- Why no matcher is built for the pair, in the words of the engine. -/
  refusal? : Pair → Option Text

namespace Engine

variable {engine : Engine} {delimiters : Delimiters}

/-- The engine that builds every matcher. -/
def unbounded : Engine := ⟨fun _ => none⟩

/-- The engine builds the matchers of both forms. -/
def Builds (engine : Engine) (delimiters : Delimiters) : Prop :=
  ∀ form, engine.refusal? (delimiters.pair form) = none

/-- Why the matchers for the delimiters cannot be built. That of the plain form is built first. -/
def fault? (engine : Engine) (delimiters : Delimiters) : Option DelimiterFault :=
  [delimiters.plain, delimiters.encoded].findSome? fun pair =>
    (engine.refusal? pair).map (.noMatcher pair)

/-- **The first refusal is the fault.** -/
theorem fault?_eq : engine.fault? delimiters =
    match engine.refusal? delimiters.plain, engine.refusal? delimiters.encoded with
    | some reason, _ => some (.noMatcher delimiters.plain reason)
    | none, some reason => some (.noMatcher delimiters.encoded reason)
    | none, none => none := by
  unfold fault?
  cases hplain : engine.refusal? delimiters.plain <;>
    cases hencoded : engine.refusal? delimiters.encoded <;> simp [hplain, hencoded]

/-- **Nothing is at fault** exactly if the matchers are built. -/
theorem fault?_eq_none_iff : engine.fault? delimiters = none ↔ engine.Builds delimiters := by
  constructor
  · intro h form
    simp only [fault?, List.findSome?_eq_none_iff, List.forall_mem_cons, Option.map_eq_none_iff] at h
    cases form with
    | plain => exact h.1
    | encoded => exact h.2.1
  · intro h
    have hplain : engine.refusal? delimiters.plain = none := h .plain
    have hencoded : engine.refusal? delimiters.encoded = none := h .encoded
    rw [fault?_eq, hplain, hencoded]

end Engine

end Stencil
