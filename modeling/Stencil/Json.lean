import Stencil.Text.Basic

/-!
# JSON

Lists and objects are written with each member on a line of its own, two blanks further in than the
brackets around them.

* `quoted_plain`: a text without special characters is written as it is, in quotes.
-/

namespace Stencil.Json

/-- A value in JSON, as far as reports need it. -/
inductive Value where
  | number (n : Nat)
  | text (text : Text)
  | list (items : List Value)
  | object (members : List (Text × Value))
  deriving Repr

/-- A digit in base sixteen, in lower case. -/
def hexDigit (n : Nat) : Char := if n < 10 then Char.ofNat (48 + n) else Char.ofNat (87 + n)

/-- A character as it is written in quotes. -/
def quotedChar (c : Char) : Text :=
  if c = '"' then "\\\""
  else if c = '\\' then "\\\\"
  else if c = '\n' then "\\n"
  else if c = '\r' then "\\r"
  else if c = '\t' then "\\t"
  else if c = '\x08' then "\\b"
  else if c = '\x0c' then "\\f"
  else if c.toNat < 0x20 then
    .concat ["\\u00", [hexDigit (c.toNat / 16), hexDigit (c.toNat % 16)]]
  else [c]

/-- A text in quotes. -/
def quoted (text : Text) : Text := .concat ["\"", text.flatMap quotedChar, "\""]

/-- The members between two brackets, at the given depth of brackets. -/
def bracketed (opening closing : Text) (depth : Nat) (members : List Text) : Text :=
  if members.isEmpty then opening ++ closing
  else
    let line (depth : Nat) : Text := '\n' :: List.replicate (2 * depth) ' '
    .concat [opening, line (depth + 1),
      (Text.concat [",", line (depth + 1)]).intercalate members, line depth, closing]

mutual

/-- A value as text, at the given depth of brackets. -/
def Value.write (depth : Nat) : Value → Text
  | .number n => .number n
  | .text text => quoted text
  | .list items => bracketed "[" "]" depth (writeItems (depth + 1) items)
  | .object members => bracketed "\x7b" "\x7d" depth (writeMembers (depth + 1) members)

/-- The items of a list as texts. -/
def writeItems (depth : Nat) : List Value → List Text
  | [] => []
  | item :: items => item.write depth :: writeItems depth items

/-- The members of an object as texts. -/
def writeMembers (depth : Nat) : List (Text × Value) → List Text
  | [] => []
  | (name, value) :: members =>
    .concat [quoted name, ": ", value.write depth] :: writeMembers depth members

end

theorem quoted_plain {text : Text} (h : ∀ c ∈ text, quotedChar c = [c]) :
    quoted text = '"' :: text ++ ['"'] := by
  have hmap : text.flatMap quotedChar = text := by
    induction text with
    | nil => rfl
    | cons c text ih =>
      rw [List.flatMap_cons, h c (by simp), ih fun x hx => h x (by simp [hx])]
      rfl
  simp [quoted, hmap, Text.concat]

end Stencil.Json
