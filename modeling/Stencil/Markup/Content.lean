import Stencil.Markup.Node
import Stencil.Markup.Reference

/-!
# Content

What an element holds, as far as it counts. Blanks next to tags do not, and texts that stand next to
each other are one text.

* `textOf?_plain`: a text without blanks at its ends and without references is held as it stands.
-/

namespace Stencil.Markup.Node

/-- Whether the node is a text. -/
def isText : Node → Bool
  | .text _ | .literal _ => true
  | .element _ _ _ | .documentType | .broken => false

/-- The text of a node, if it is one and its references are sound. -/
def text? : Node → Option Text
  | .text written => expand? written
  | .literal body => some body
  | .element _ _ _ | .documentType | .broken => none

/-- The nodes from the first one on that is neither blank nor a document type. -/
def dropIdle : List Node → List Node
  | .text written :: nodes => if written.all isSpace then dropIdle nodes else .text written :: nodes
  | .documentType :: nodes => dropIdle nodes
  | nodes => nodes

/-- What a content goes on with. -/
inductive Ahead where
  /-- The end of the element. -/
  | ending
  /-- An element with this row of attributes. -/
  | tag (row : Text)
  | text
  | documentType
  deriving DecidableEq, Repr

/-- What the nodes go on with. Blanks count as a text unless they are `trimmed`. -/
def ahead (trimmed : Bool) : List Node → Ahead
  | [] => .ending
  | .text written :: nodes => if trimmed && written.all isSpace then ahead trimmed nodes else .text
  | .literal _ :: _ | .broken :: _ => .text
  | .documentType :: _ => .documentType
  | .element _ row _ :: _ => .tag row

/-- The texts without the blanks at the start of the first one. -/
def trimFirst : List Node → List Node
  | .text written :: nodes => .text (written.dropWhile isSpace) :: nodes
  | nodes => nodes

/-- The texts without the blanks at the end of the last one. -/
def trimLast (nodes : List Node) : List Node :=
  match nodes.reverse with
  | .text written :: before => (.text (written.reverse.dropWhile isSpace).reverse :: before).reverse
  | _ => nodes

/-- The text that an element with this content holds, if it holds nothing else. -/
def textOf? (content : List Node) : Option Text :=
  let nodes := dropIdle content
  let texts := trimLast (trimFirst (nodes.takeWhile isText))
  if (dropIdle (nodes.dropWhile isText)).isEmpty then (texts.mapM text?).map List.flatten else none

theorem textOf?_plain {text : Text} (hne : text ≠ []) (first : ∀ c ∈ text.head?, isSpace c = false)
    (last : ∀ c ∈ text.getLast?, isSpace c = false) (hplain : '&' ∉ text) :
    textOf? [.text text] = some text := by
  have hstart : text.dropWhile isSpace = text := by
    cases text with
    | nil => rfl
    | cons c rest => rw [List.dropWhile_cons_of_neg (by simp [first c (by simp)])]
  have hend : (text.reverse.dropWhile isSpace).reverse = text := by
    cases h : text.reverse with
    | nil => simp [List.reverse_eq_nil_iff.1 h]
    | cons c rest =>
      have hc : c ∈ text.getLast? := by
        rw [← List.head?_reverse, h]; rfl
      rw [List.dropWhile_cons_of_neg (by simp [last c hc]), ← h, List.reverse_reverse]
  have hidle : dropIdle [.text text] = [.text text] := by
    cases text with
    | nil => exact absurd rfl hne
    | cons c rest => simp [dropIdle, first c (by simp)]
  have htexts : trimLast (trimFirst [.text text]) = [.text text] := by
    rw [trimFirst, hstart, trimLast]
    simp [hend]
  have htake : [Node.text text].takeWhile isText = [.text text] := rfl
  have hrest : dropIdle ([Node.text text].dropWhile isText) = [] := rfl
  simp only [textOf?, hidle, htake, htexts, hrest, List.mapM_cons, text?, expand?_eq_self hplain]
  simp

end Stencil.Markup.Node
