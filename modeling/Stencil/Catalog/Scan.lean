import Stencil.Catalog.Fault
import Stencil.Markup.Content
import Stencil.Markup.Scope

/-!
# Reading a document

A document is read node after node, up to the first fault; meanwhile the scopes are kept. Elements
that are not looked for are passed over. Of the tags in them only those are read that the reader has
before its eyes, one node ahead; the others are skipped, so the scopes that were open when the
skipping began stay open.

* `tagValues_of_none`: a tag without attributes has no values.
-/

namespace Stencil.Catalog

open Markup

/-- A part of a document is read in given scopes. -/
abbrev Scan := StateT Scopes (Except DocumentFault)

/-- Enters the scope of a tag. -/
def enter (row : Text) : Scan Unit :=
  match Scopes.declarations? row with
  | some declared => modify (declared :: ·)
  | none => throw .malformed

/-- Reads the tag of an element of which there can be no more. What is wrong with its declarations
is reported first. -/
def refuse {α : Type} (label row : Text) : Scan α := do
  enter row
  throw (.duplicateField label)

/-- Leaves the innermost scope. -/
def leave : Scan Unit := modify List.tail

/-- Reads the tag that the nodes go on with, if it is one. -/
def lookAhead (trimmed : Bool) (nodes : List Node) : Scan Unit :=
  match Node.ahead trimmed nodes with
  | .ending => leave
  | .tag row => enter row
  | .text | .documentType => return

/-- Passes over the content of an element, and leaves the element. A text at the start of it is
read, the rest is skipped. -/
def passContent (content : List Node) : Scan Unit := do
  if Node.anyBroken content then throw .malformed
  match Node.dropIdle content with
  | .element _ row inner :: after =>
    enter row
    lookAhead true inner
    -- Blanks after a text that is skipped are not trimmed.
    lookAhead (Node.ahead true inner != .text) after
  | nodes =>
    if (nodes.takeWhile Node.isText).any (·.text?.isNone) then throw .malformed
    lookAhead true (nodes.dropWhile Node.isText)

/-- Passes over a node in which nothing is looked for. -/
def pass : Node → Scan Unit
  | .element _ row content => do
    enter row
    passContent content
  | .documentType => return
  | node => if node.text?.isNone then throw .malformed else return

/-- Whether an element is to be taken as absent, by its own row of attributes or by the row `outer`
of the element around it. -/
def isAbsent (outer row : Text) (content : List Node) : Scan Bool := do
  let around ← get
  let scopes : Scopes := match Node.ahead true content with
    | .tag inner => (Scopes.declarations? inner).getD [] :: around
    | .ending | .text | .documentType => around
  return Scopes.isAbsent scopes outer || Scopes.isAbsent scopes row

/-- The name of an attribute in messages. -/
def attributeLabel (name : Text) : Text := '@' :: name

/-- The values of the attributes whose local names are `wanted`, after those found before them. -/
def valuesOf (wanted : List Text) :
    List (Text × Text) → List Attribute → Except DocumentFault (List (Text × Text))
  | found, [] => .ok found
  | found, item :: items =>
    let name := item.localName
    if name ∉ wanted then valuesOf wanted found items
    else if (found.lookup name).isSome then .error (.duplicateField (attributeLabel name))
    else
      match expand? item.value with
      | some value => valuesOf wanted (found ++ [(name, value)]) items
      | none => .error .malformed

/-- The values of the wanted attributes in a tag, if it is well formed throughout. -/
def tagValues (wanted : List Text) (row : Text) : Except DocumentFault (List (Text × Text)) := do
  let (items, whole) := Attribute.row row
  let found ← valuesOf wanted [] items
  if whole then return found else throw .malformed

/-- The value of a field, which has to be there. -/
def field (name : Text) (found : List (Text × Text)) : Except DocumentFault Text :=
  match found.lookup name with
  | some value => .ok value
  | none => .error (.missingField (attributeLabel name))

/-- The values of the wanted fields, after those found before the nodes. An element whose local name
is the label of an attribute stands for the attribute. -/
def fieldsOf (wanted : List Text) :
    List (Text × Text) → List Node → Scan (List (Text × Text))
  | found, [] => return found
  | found, .element name row content :: nodes => do
    enter row
    match wanted.find? fun field => attributeLabel field == Node.localPart name with
    | some field =>
      if (found.lookup field).isSome then throw (.duplicateField (attributeLabel field))
      match Node.textOf? content with
      | some value =>
        leave
        fieldsOf wanted (found ++ [(field, value)]) nodes
      | none => throw .malformed
    | none =>
      passContent content
      fieldsOf wanted found nodes
  | found, node :: nodes => do
    pass node
    fieldsOf wanted found nodes

/-- The values of the wanted fields of an element. -/
def recordValues (wanted : List Text) (row : Text) (content : List Node) :
    Scan (List (Text × Text)) := do
  enter row
  let found ← tagValues wanted row
  let found ← fieldsOf wanted found content
  leave
  return found

theorem tagValues_of_none (wanted : List Text) {row : Text} (h : ∀ c ∈ row, isSpace c = true) :
    tagValues wanted row = .ok [] := by
  rw [tagValues, Attribute.row, Attribute.items_of_blank true [] h]
  rfl

end Stencil.Catalog
