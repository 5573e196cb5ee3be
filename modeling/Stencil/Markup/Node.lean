import Stencil.Markup.Event

/-!
# Nodes

The events of a document as a tree: every element holds what stands between its two tags.

* `ofEvents_closed`: an element that is closed holds its content and nothing after it.
-/

namespace Stencil.Markup

/-- An element with its content, a text, a document type, or the place where the document stops to
be one. -/
inductive Node where
  | element (name row : Text) (content : List Node)
  | text (written : Text)
  | literal (text : Text)
  | documentType
  | broken
  deriving Repr

namespace Node

/-- The nodes that follow in the innermost element, in the one around it, and so on outwards,
after one more event is put before them. -/
def put (event : Event) (levels : List (List Node)) : List (List Node) :=
  match event, levels with
  | .closing, levels => [] :: levels
  | .opening name row, content :: after :: outer => (.element name row content :: after) :: outer
  | .opening name row, levels => [[.element name row levels.flatten]]
  | .text written, inner :: outer => (.text written :: inner) :: outer
  | .text written, [] => [[.text written]]
  | .literal body, inner :: outer => (.literal body :: inner) :: outer
  | .literal body, [] => [[.literal body]]
  | .documentType, inner :: outer => (.documentType :: inner) :: outer
  | .documentType, [] => [[.documentType]]
  | .broken, _ => [[.broken]]

/-- The nodes at the top of a document, from its events. -/
def ofEvents (events : List Event) : List Node := (events.foldr put [[]]).headD []

/-- The nodes at the top of a document. -/
def ofDocument (document : Text) : List Node := ofEvents (events document)

mutual

/-- Whether the document breaks off in the node. -/
def isBroken : Node → Bool
  | .element _ _ content => anyBroken content
  | .text _ | .literal _ | .documentType => false
  | .broken => true

/-- Whether the document breaks off in one of the nodes. -/
def anyBroken : List Node → Bool
  | [] => false
  | node :: nodes => node.isBroken || anyBroken nodes

end

/-- The part of a name after its first colon, or the whole name. -/
def localPart (name : Text) : Text := ((Text.cutAt? ':' name).map Prod.snd).getD name

theorem ofEvents_closed {name row : Text} {content after : List Event}
    {inner outer : List Node} (hcontent : content.foldr put ([] :: [outer]) = [inner, outer])
    (hafter : after.foldr put [[]] = [outer]) :
    ofEvents (.opening name row :: content ++ .closing :: after) =
      .element name row inner :: outer := by
  simp [ofEvents, List.foldr_append, hafter, put, hcontent]

end Node

end Stencil.Markup
