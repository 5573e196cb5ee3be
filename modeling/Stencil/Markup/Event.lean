import Stencil.Markup.Attribute

/-!
# Events

A document is read as a sequence of events: tags, document types, and the texts between them.
Comments and processing instructions leave no event. Where the document breaks off or is no markup,
the last event says so.
-/

namespace Stencil.Markup

/-- A tag, a text between tags, a document type, or the place where the document stops to be one. -/
inductive Event where
  | documentType
  /-- A tag that opens an element: its name and what follows it. -/
  | opening (name row : Text)
  /-- A tag that closes the element opened last. -/
  | closing
  /-- A text with references. -/
  | text (written : Text)
  /-- A text without references. -/
  | literal (text : Text)
  /-- The place from which on the document is no markup. -/
  | broken
  deriving DecidableEq, Repr

/-- The text before the first occurrence of `mark`. -/
def before? (mark : Text) : Text → Option Text
  | [] => if mark.isEmpty then some [] else none
  | c :: rest =>
    if mark.isPrefixOf (c :: rest) then some [] else (before? mark rest).map (c :: ·)

/-- The text before the first closing bracket that stands in no quotes. -/
def tagBody? : (quote : Option Char) → Text → Option Text
  | _, [] => none
  | none, c :: rest =>
    if c = '>' then some []
    else (tagBody? (if c = '"' ∨ c = '\'' then some c else none) rest).map (c :: ·)
  | some quote, c :: rest =>
    (tagBody? (if c = quote then none else some quote) rest).map (c :: ·)

/-- The text before the closing bracket that leaves no opening one unmatched. -/
def balancedBody? : (depth : Nat) → Text → Option Text
  | _, [] => none
  | depth, c :: rest =>
    if c = '>' then
      match depth with
      | 0 => some []
      | depth + 1 => (balancedBody? depth rest).map (c :: ·)
    else (balancedBody? (if c = '<' then depth + 1 else depth) rest).map (c :: ·)

/-- What follows `beginning` in the text, whose letters may be of either case. -/
def afterAnyCase? : (beginning text : Text) → Option Text
  | [], text => some text
  | _ :: _, [] => none
  | b :: beginning, c :: text =>
    if b.toLower = c.toLower then afterAnyCase? beginning text else none

/-- Something in angle brackets, without its opening bracket. -/
inductive Construct where
  | opening (name row : Text) (closed : Bool)
  | closing (name : Text)
  | literal (text : Text)
  | documentType
  /-- A comment or a processing instruction. -/
  | aside

/-- The name that the body of a tag starts with, and what follows it. -/
def nameAndRow (body : Text) : Text × Text :=
  body.span fun c => !isSpace c

/-- The construct of a tag that opens an element. -/
def openingOf (body : Text) : Construct :=
  let closed := body.getLast? == some '/'
  let (name, row) := nameAndRow (if closed then body.dropLast else body)
  .opening name row closed

/-- The name in the body of a closing tag. A body of nothing but blanks is its own name. -/
def closingName (body : Text) : Text :=
  if body.all isSpace then body else (body.reverse.dropWhile isSpace).reverse

/-- The construct whose opening bracket the text follows, and its length. -/
def construct? (text : Text) : Option (Construct × Nat) :=
  match text with
  | '!' :: '-' :: '-' :: rest =>
    (before? "-->" rest).map fun body => (.aside, body.length + 6)
  | '!' :: rest =>
    match Text.after? "[CDATA[" rest with
    | some rest => (before? "]]>" rest).map fun body => (.literal body, body.length + 11)
    | none =>
      (afterAnyCase? "DOCTYPE" rest).bind fun rest =>
        (balancedBody? 0 rest).bind fun body =>
          if body.all isSpace then none else some (.documentType, body.length + 9)
  | '?' :: rest =>
    if rest.head? = some '>' then none
    else (before? "?>" rest).map fun body => (.aside, body.length + 3)
  | '/' :: rest =>
    (tagBody? none rest).map fun body => (.closing (closingName body), body.length + 2)
  | _ => (tagBody? none text).map fun body => (openingOf body, body.length + 1)

/-- The events of the text in which the elements `opened` are open, the innermost first. -/
def eventsFrom (opened : List Text) : Text → List Event
  | [] => if opened.isEmpty then [] else [.broken]
  | c :: rest =>
    if c = '<' then
      match construct? rest with
      | none => [.broken]
      | some (construct, length) =>
        let after := rest.drop length
        match construct with
        | .aside => eventsFrom opened after
        | .documentType => .documentType :: eventsFrom opened after
        | .literal text => .literal text :: eventsFrom opened after
        | .opening name row false => .opening name row :: eventsFrom (name :: opened) after
        | .opening name row true => .opening name row :: .closing :: eventsFrom opened after
        | .closing name =>
          match opened with
          | innermost :: outer =>
            if name = innermost then .closing :: eventsFrom outer after else [.broken]
          | [] => [.broken]
    else
      let text := c :: rest.takeWhile (· != '<')
      .text text :: eventsFrom opened (rest.drop (text.length - 1))
  termination_by text => text.length
  decreasing_by all_goals simp only [List.length_cons, List.length_drop]; omega

/-- The events of a document. -/
def events (document : Text) : List Event := eventsFrom [] document

end Stencil.Markup
