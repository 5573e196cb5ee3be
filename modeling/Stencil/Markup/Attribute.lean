import Stencil.Text.Basic

/-!
# Attributes

What follows the name in a tag is a row of items: attributes, each with a value in quotes, and
whatever else stands there. After an item that is no attribute the row can be read on.

* `step_rest_length_le`: an item takes up a part of the row.
* `step_written`: an attribute in quotes is read as it stands.
* `items_of_blank`: blanks are no item.
-/

namespace Stencil.Markup

/-- The characters that separate the parts of a tag. -/
def isSpace (c : Char) : Bool := c == ' ' || c == '\t' || c == '\r' || c == '\n'

/-- A name and the value as it is written, with its references. -/
structure Attribute where
  name : Text
  value : Text
  deriving DecidableEq, Repr

namespace Attribute

/-- Whether the name of an attribute goes on with the character. -/
def inName (c : Char) : Bool := c != '=' && !isSpace c

/-- The text from its first separator on. -/
def fromSpace (text : Text) : Text := text.dropWhile fun c => !isSpace c

/-- An item of a row as it is read. -/
structure Step where
  /-- The attribute, if the item is one. -/
  found : Option Attribute
  /-- The names of the attributes so far, also of those without a value. -/
  names : List Text
  rest : Text
  deriving DecidableEq, Repr

/-- Reads the value of an attribute with the given name. A value that does not start with a quote
ends at the next separator, one whose second quote is missing at the end of the row. -/
def valueStep (name : Text) (names : List Text) : Text → Step
  | [] => ⟨none, names, []⟩
  | quote :: body =>
    if quote = '"' ∨ quote = '\'' then
      match Text.cutAt? quote body with
      | some (value, rest) => ⟨some ⟨name, value⟩, names, rest⟩
      | none => ⟨none, names, []⟩
    else ⟨none, names, fromSpace (quote :: body)⟩

/-- Reads the item that starts with the character `first`, which belongs to its name whatever it
is. If names have to be `unique`, an item with a name that was met before is no attribute. -/
def step (unique : Bool) (names : List Text) (first : Char) (rest : Text) : Step :=
  let tail := rest.takeWhile inName
  let name := first :: tail
  match (rest.drop tail.length).dropWhile isSpace with
  | '=' :: after =>
    if unique && names.contains name then ⟨none, names, fromSpace ('=' :: after)⟩
    else valueStep name (name :: names) (after.dropWhile isSpace)
  | after => ⟨none, names, after⟩

theorem dropWhile_length_le (p : Char → Bool) (text : Text) :
    (text.dropWhile p).length ≤ text.length :=
  (List.dropWhile_sublist p (l := text)).length_le

theorem valueStep_rest_length_le (name : Text) (names : List Text) (text : Text) :
    (valueStep name names text).rest.length ≤ text.length := by
  cases text with
  | nil => simp [valueStep]
  | cons quote body =>
    simp only [valueStep]
    split
    · split
      · next hcut =>
        obtain ⟨-, rfl⟩ := Text.cutAt?_eq_some_iff.1 hcut
        simp only [List.length_cons, List.length_append]
        omega
      · simp
    · exact dropWhile_length_le _ _

theorem step_rest_length_le (unique : Bool) (names : List Text) (first : Char) (rest : Text) :
    (step unique names first rest).rest.length ≤ rest.length := by
  have hdrop := dropWhile_length_le isSpace (rest.drop (rest.takeWhile inName).length)
  rw [List.length_drop] at hdrop
  unfold step
  simp only
  split
  · next after hafter =>
    rw [hafter, List.length_cons] at hdrop
    split
    · have := dropWhile_length_le (fun c => !isSpace c) ('=' :: after)
      rw [List.length_cons] at this
      simp only [fromSpace]
      omega
    · have h1 := valueStep_rest_length_le (first :: rest.takeWhile inName)
        ((first :: rest.takeWhile inName) :: names) (after.dropWhile isSpace)
      have h2 := dropWhile_length_le isSpace after
      omega
  · simp only
    omega

/-- The items of a row, in which the names `names` were met before: the attributes, and `none` for
each item that is no attribute. -/
def items (unique : Bool) (names : List Text) (text : Text) : List (Option Attribute) :=
  match _ : text.dropWhile isSpace with
  | [] => []
  | first :: rest =>
    let item := step unique names first rest
    item.found :: items unique item.names item.rest
  termination_by text.length
  decreasing_by
    have h1 := step_rest_length_le unique names first rest
    have h2 := dropWhile_length_le isSpace text
    simp only [*, List.length_cons] at h2
    omega

/-- The attributes before the first item that is none. -/
def upToFlaw (items : List (Option Attribute)) : List Attribute :=
  (items.takeWhile Option.isSome).filterMap id

/-- The attributes of a row up to its first flaw, and whether it is without one. -/
def row (text : Text) : List Attribute × Bool :=
  let items := items true [] text
  (upToFlaw items, items.all Option.isSome)

/-- All attributes of a row, whatever else stands there. -/
def sound (text : Text) : List Attribute := (items true [] text).filterMap id

/-- The attributes of a row up to the first item that is none, if names can be repeated. -/
def leading (text : Text) : List Attribute := upToFlaw (items false [] text)

/-- What stands before the colon in the name of an attribute that declares a short form. -/
def declaringForm : Text := "xmlns"

/-- The name without what comes before its first colon, unless the attribute declares a short
form. -/
def localName (item : Attribute) : Text :=
  match Text.cutAt? ':' item.name with
  | some (form, name) => if form = declaringForm then item.name else name
  | none => item.name

theorem items_of_blank (unique : Bool) (names : List Text) {text : Text}
    (h : ∀ c ∈ text, isSpace c = true) : items unique names text = [] := by
  have hdrop : text.dropWhile isSpace = [] := by
    induction text with
    | nil => rfl
    | cons c text ih =>
      rw [List.dropWhile_cons_of_pos (h c (by simp)), ih fun x hx => h x (by simp [hx])]
  unfold items
  split
  · rfl
  · next heq =>
    rw [hdrop] at heq
    cases heq

/-- **An attribute in quotes is read as it stands**, if its name was not met before. -/
theorem step_written (unique : Bool) {names : List Text} {first : Char} {tail value rest : Text}
    (hnew : first :: tail ∉ names) (hname : ∀ c ∈ tail, inName c = true) (hvalue : '"' ∉ value) :
    step unique names first (tail ++ '=' :: '"' :: (value ++ '"' :: rest)) =
      ⟨some ⟨first :: tail, value⟩, (first :: tail) :: names, rest⟩ := by
  have htail : (tail ++ '=' :: '"' :: (value ++ '"' :: rest)).takeWhile inName = tail := by
    rw [List.takeWhile_append_of_pos hname, List.takeWhile_cons_of_neg (by decide),
      List.append_nil]
  have hequals : ('=' :: '"' :: (value ++ '"' :: rest)).dropWhile isSpace =
      '=' :: '"' :: (value ++ '"' :: rest) := rfl
  have hquote : ('"' :: (value ++ '"' :: rest)).dropWhile isSpace =
      '"' :: (value ++ '"' :: rest) := rfl
  simp only [step, htail, List.drop_left, hequals, hquote]
  rw [if_neg (by simp [hnew]), valueStep, if_pos (.inl rfl),
    Text.cutAt?_eq_some_iff.2 ⟨hvalue, rfl⟩]

end Attribute

end Stencil.Markup
