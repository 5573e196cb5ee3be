import Stencil.Html.Escape
import Stencil.Placeholder.Delimiters
import Stencil.Text.Replace
import Stencil.Variables.Store

/-!
# Rendering a template

The variables are put into the text one after the other, in the order of the store. For each of
them the encoded placeholders come first, so that the plain ones inside its value are found too.

* `render_nil`: a store without variables leaves the template as it is.
* `render_cons`: the first variable is put in before the others.
-/

namespace Stencil.Delimiters

variable (delimiters : Delimiters)

/-- The text with the placeholders of one key replaced by its value. -/
def substitute (key value text : Text) : Text :=
  Text.replaceAll (delimiters.plain.wrap key) value
    (Text.replaceAll (delimiters.encoded.wrap key) (Html.escape value) text)

/-- The text with the placeholders of the entries replaced, entry after entry. -/
def renderEntries (entries : List (Text × Text)) (text : Text) : Text :=
  entries.foldl (fun text (key, value) => delimiters.substitute key value text) text

/-- The template with the variables put in. -/
def render (store : Variables) (template : Text) : Text :=
  delimiters.renderEntries store.entries template

@[simp] theorem render_nil (template : Text) : delimiters.render .empty template = template := rfl

@[simp] theorem render_cons (key value : Text) (entries : List (Text × Text)) (template : Text) :
    delimiters.render ⟨(key, value) :: entries⟩ template =
      delimiters.render ⟨entries⟩ (delimiters.substitute key value template) := rfl

end Stencil.Delimiters
