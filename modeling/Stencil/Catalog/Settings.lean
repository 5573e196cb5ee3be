import Stencil.Catalog.Scan
import Stencil.Text.Utf8

/-!
# Settings

What an options document says, before it is judged: the entries of its list of prefixes and those
of its list of options, in the order of the document. The first fault met in reading is reported.

* `Settings.ofDocument`: the settings of a document.
* `entriesOf_other`: an element of another name is passed over with its content.
-/

namespace Stencil.Catalog

open Markup

/-- The delimiters of one form, by the id of the form. -/
structure PrefixEntry where
  id : Text
  opening : Text
  closing : Text
  deriving DecidableEq, Repr

/-- A job with a name, and the id by which it is chosen. -/
structure OptionEntry where
  id : Text
  name : Text
  templateFolder : Text
  outputFolder : Text
  variableFile : Text
  searchPattern : Text
  deriving DecidableEq, Repr

/-- The entries of a document. -/
structure Settings where
  prefixes : List PrefixEntry
  options : List OptionEntry
  deriving DecidableEq, Repr

/-- The attributes of a prefix, in the order in which they are asked for. -/
def PrefixEntry.fields : List Text := ["Id", "Prefix", "Postfix"]

/-- The entry that an element holds. -/
def PrefixEntry.ofElement (row : Text) (content : List Node) : Scan PrefixEntry := do
  let found ← recordValues fields row content
  return {
    id := ← field "Id" found
    opening := ← field "Prefix" found
    closing := ← field "Postfix" found }

/-- The attributes of an option, in the order in which they are asked for. -/
def OptionEntry.fields : List Text :=
  ["Id", "Name", "TemplateFolder", "OutputFolder", "VariableFile", "SearchPattern"]

/-- The entry that an element holds. -/
def OptionEntry.ofElement (row : Text) (content : List Node) : Scan OptionEntry := do
  let found ← recordValues fields row content
  return {
    id := ← field "Id" found
    name := ← field "Name" found
    templateFolder := ← field "TemplateFolder" found
    outputFolder := ← field "OutputFolder" found
    variableFile := ← field "VariableFile" found
    searchPattern := ← field "SearchPattern" found }

/-- How far a list of entries is read. -/
inductive Progress where
  /-- No entry was met yet. -/
  | before
  /-- The last element was an entry of this full name. -/
  | inside (name : Text)
  /-- The list is over. -/
  | past

/-- The entries with the local name `label` among the nodes. They stand next to each other: with
an element of another full name the list is over, and in the list there is no text. -/
def entriesOf {α : Type} (label : Text) (ofElement : Text → List Node → Scan α) :
    Progress → List Node → Scan (List α)
  | _, [] => return []
  | progress, .element name row content :: nodes => do
    let isEntry := Node.localPart name = label
    match progress with
    | .before =>
      if isEntry then
        let entry ← ofElement row content
        return entry :: (← entriesOf label ofElement (.inside name) nodes)
      else
        pass (.element name row content)
        entriesOf label ofElement .before nodes
    | .inside opened =>
      if name = opened then
        let entry ← ofElement row content
        return entry :: (← entriesOf label ofElement (.inside opened) nodes)
      else if isEntry then refuse label row
      else
        pass (.element name row content)
        entriesOf label ofElement .past nodes
    | .past =>
      if isEntry then refuse label row
      else
        pass (.element name row content)
        entriesOf label ofElement .past nodes
  | .inside opened, .text written :: nodes =>
    if written.all isSpace then entriesOf label ofElement (.inside opened) nodes
    else throw .malformed
  | .inside _, .literal _ :: _ => throw .malformed
  | progress, node :: nodes => do
    pass node
    entriesOf label ofElement progress nodes

/-- The entries of a list element inside an element with the row `outer`. A list that is to be taken
as absent has none. -/
def listOf {α : Type} (label : Text) (ofElement : Text → List Node → Scan α)
    (outer row : Text) (content : List Node) : Scan (List α) := do
  enter row
  if ← isAbsent outer row content then
    passContent content
    return []
  else
    let _ ← tagValues [] row
    let entries ← entriesOf label ofElement .before content
    leave
    return entries

/-- The two lists among the nodes in an element with the row `outer`. Each list is there at most
once. -/
def listsOf (outer : Text) : (prefixes : Option (List PrefixEntry)) →
    (options : Option (List OptionEntry)) → List Node → Scan Settings
  | prefixes, options, [] => return ⟨prefixes.getD [], options.getD []⟩
  | prefixes, options, .element name row content :: nodes => do
    if Node.localPart name = "Prefixes".toList then
      if prefixes.isSome then refuse "Prefixes" row
      let entries ← listOf "Prefix" PrefixEntry.ofElement outer row content
      listsOf outer entries options nodes
    else if Node.localPart name = "Options".toList then
      if options.isSome then refuse "Options" row
      let entries ← listOf "Option" OptionEntry.ofElement outer row content
      listsOf outer prefixes entries nodes
    else
      pass (.element name row content)
      listsOf outer prefixes options nodes
  | prefixes, options, node :: nodes => do
    pass node
    listsOf outer prefixes options nodes

/-- The settings among the nodes of a document: those of its first element, which may have any
name. Nothing but blanks and document types can stand before it, and what follows it is not
read. -/
def Settings.ofNodes (nodes : List Node) : Scan Settings :=
  match Node.dropIdle nodes with
  | .element _ row content :: _ => do
    enter row
    let _ ← tagValues [] row
    listsOf row none none content
  | _ => throw .malformed

/-- The settings of a document. -/
def Settings.ofDocument (document : Text) : Except DocumentFault Settings :=
  (Settings.ofNodes (Node.ofDocument document.dropMark)).run' []

/-- **An element of another name is passed over** before the entries, whatever it holds. -/
theorem entriesOf_other {α : Type} {label name row : Text} {content nodes : List Node}
    {ofElement : Text → List Node → Scan α} (h : Node.localPart name ≠ label) :
    entriesOf label ofElement .before (.element name row content :: nodes) =
      (do
        pass (.element name row content)
        entriesOf label ofElement .before nodes) := by
  rw [entriesOf, if_neg h]

end Stencil.Catalog
