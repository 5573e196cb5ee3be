import Stencil.Text.Basic

/-!
# References

In markup a character can be written as a reference: an ampersand, a name or a number, a semicolon.

* `expand?_eq_self`: a text without ampersands stands for itself.
* `expand?_reference`: a reference stands for its character.
-/

namespace Stencil.Markup

/-- The value of a digit in a base up to sixteen. -/
def digit? (base : Nat) (c : Char) : Option Nat :=
  let value? : Option Nat :=
    if '0' ≤ c ∧ c ≤ '9' then some (c.toNat - '0'.toNat)
    else if 'a' ≤ c ∧ c ≤ 'f' then some (c.toNat - 'a'.toNat + 10)
    else if 'A' ≤ c ∧ c ≤ 'F' then some (c.toNat - 'A'.toNat + 10)
    else none
  value?.filter (· < base)

/-- The number that the digits write, of which there is at least one. -/
def digits? (base : Nat) : Text → Option Nat
  | [] => none
  | digits => digits.foldlM (fun n c => return n * base + (← digit? base c)) 0

/-- The character with the number, unless it is zero or no character. -/
def charOf? (n : Nat) : Option Char :=
  if n ≠ 0 ∧ n.isValidChar then some (Char.ofNat n) else none

/-- The character that a reference stands for, by what is between ampersand and semicolon. -/
def referred? : Text → Option Char
  | '#' :: 'x' :: digits => (digits? 16 digits).bind charOf?
  | '#' :: digits => (digits? 10 digits).bind charOf?
  | ['l', 't'] => some '<'
  | ['g', 't'] => some '>'
  | ['a', 'm', 'p'] => some '&'
  | ['q', 'u', 'o', 't'] => some '"'
  | ['a', 'p', 'o', 's'] => some '\''
  | _ => none

/-- Whether the body of a reference goes on with the character. -/
def inReference (c : Char) : Bool := c != ';' && c != '&'

/-- The text with its references replaced by their characters, if all of them are references. -/
def expand? : Text → Option Text
  | [] => some []
  | c :: rest =>
    if c = '&' then
      let body := rest.takeWhile inReference
      if (rest.drop body.length).head? = some ';' then do
        return (← referred? body) :: (← expand? (rest.drop (body.length + 1)))
      else none
    else return c :: (← expand? rest)
  termination_by text => text.length
  decreasing_by all_goals simp; try omega

theorem expand?_eq_self {text : Text} (h : '&' ∉ text) : expand? text = some text := by
  induction text with
  | nil => simp [expand?]
  | cons c rest ih =>
    simp only [List.mem_cons, not_or] at h
    rw [expand?, if_neg (Ne.symm h.1), ih h.2]
    rfl

theorem expand?_reference {body rest : Text} (h : ∀ c ∈ body, inReference c = true) :
    expand? ('&' :: body ++ ';' :: rest) =
      (referred? body).bind fun c => (expand? rest).map (c :: ·) := by
  have hbody : (body ++ ';' :: rest).takeWhile inReference = body := by
    rw [List.takeWhile_append_of_pos h, List.takeWhile_cons_of_neg (by decide), List.append_nil]
  have hrest : (body ++ ';' :: rest).drop (body.length + 1) = rest := by
    rw [← List.drop_drop, List.drop_left]; rfl
  rw [List.cons_append, expand?, if_pos rfl]
  simp only [hbody, hrest, List.drop_left, List.head?_cons, if_true]
  cases referred? body with
  | none => rfl
  | some c => cases expand? rest <;> rfl

end Stencil.Markup
