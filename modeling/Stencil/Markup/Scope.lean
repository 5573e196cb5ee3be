import Stencil.Markup.Attribute

/-!
# Scopes

An attribute of a tag can declare a short form for a namespace. The declarations of a tag hold in
its element, and those of the elements that are open are the scopes of a place in a document.

* `declarations?_of_none`: a row without declarations declares nothing.
* `resolve?_declared`: the innermost declaration of a short form counts.
-/

namespace Stencil.Markup

/-- The short forms that a tag declares with their namespaces, the last one first. -/
abbrev Declarations := List (Text × Text)

/-- The declarations of the elements that are open, the innermost first. -/
abbrev Scopes := List Declarations

namespace Scopes

/-- The name of a namespace that belongs to the language of markup itself. -/
def standardName (path : List Text) : Text :=
  .concat ["http:", "//", ['/'].intercalate ("www.w3.org" :: path)]

/-- The namespace of the short form `xml`. -/
def languageName : Text := standardName ["XML", "1998", "namespace"]

/-- The namespace of declarations. -/
def declarationName : Text := standardName ["2000", "xmlns", ""]

/-- The namespace of the attribute by which an element says that it is to be taken as absent. -/
def instanceName : Text := standardName ["2001", "XMLSchema-instance"]

/-- The short form that an attribute declares. -/
def declaredForm? (item : Attribute) : Option Text :=
  match Text.after? Attribute.declaringForm item.name with
  | some (':' :: form) => some form
  | _ => none

/-- Whether the short form cannot be declared for the namespace. -/
def isReserved (form name : Text) : Bool :=
  if form = "xml".toList then name != languageName
  else form == Attribute.declaringForm || name == languageName || name == declarationName

/-- The declarations in a row of attributes, unless one of them is reserved. -/
def declarations? (row : Text) : Option Declarations :=
  let declared := (Attribute.leading row).filterMap fun item =>
    (declaredForm? item).map fun form => (form, item.value)
  if declared.any fun (form, name) => isReserved form name then none else some declared.reverse

/-- The namespace of a short form. -/
def resolve? (scopes : Scopes) (form : Text) : Option Text :=
  if form = [] then none else scopes.flatten.lookup form

/-- Whether the attribute says that its element is to be taken as absent. -/
def saysAbsent (scopes : Scopes) (item : Attribute) : Bool :=
  match Text.cutAt? ':' item.name with
  | some (form, name) =>
    name == "nil".toList && scopes.resolve? form == some instanceName &&
      (item.value == "1".toList || item.value == "true".toList)
  | none => false

/-- Whether the element with this row of attributes is to be taken as absent. -/
def isAbsent (scopes : Scopes) (row : Text) : Bool :=
  (Attribute.sound row).any scopes.saysAbsent

theorem declarations?_of_none {row : Text}
    (h : ∀ item ∈ Attribute.leading row, declaredForm? item = none) :
    declarations? row = some [] := by
  have hnil : ((Attribute.leading row).filterMap fun item =>
      (declaredForm? item).map fun form => (form, item.value)) = [] := by
    rw [List.filterMap_eq_nil_iff]
    intro item hitem
    rw [h item hitem]
    rfl
  rw [declarations?]
  simp [hnil]

theorem resolve?_declared {scopes : Scopes} {declared : Declarations} {form name : Text}
    (hform : form ≠ []) (h : declared.lookup form = some name) :
    resolve? (declared :: scopes) form = some name := by
  rw [resolve?, if_neg hform, List.flatten_cons]
  induction declared with
  | nil => simp at h
  | cons entry declared ih =>
    rw [List.cons_append, List.lookup_cons]
    rw [List.lookup_cons] at h
    split
    · next he =>
      rw [he] at h
      exact h
    · next he =>
      rw [he] at h
      exact ih h

end Scopes

end Stencil.Markup
