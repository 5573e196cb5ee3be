import Stencil.Catalog.Settings
import Stencil.Failure
import Stencil.Job
import Stencil.Log
import Stencil.Text.Blank

/-!
# Catalogs

A catalog is a list of options, each a job with an id and a name, and the delimiters for all of
them.

* `Catalog.ofSettings`: settings as a catalog, or the first fault in them.
* `Catalog.job_eq_ok_iff`: the job of an id is that of the first option with it.
-/

namespace Stencil

/-- A job with a name, and the id by which it is chosen. -/
structure NamedJob where
  id : Text
  name : Text
  templateFolder : Path
  outputFolder : Path
  variableFile : Path
  searchPattern : Text
  deriving DecidableEq, Repr

/-- The job with the delimiters. -/
def NamedJob.withDelimiters (option : NamedJob) (delimiters : Delimiters) : Job where
  templateFolder := option.templateFolder
  outputFolder := option.outputFolder
  variableFile := option.variableFile
  searchPattern := option.searchPattern
  delimiters := delimiters

/-- Options, and the delimiters for all of them. -/
structure Catalog where
  delimiters : Delimiters
  options : List NamedJob
  deriving DecidableEq

namespace Catalog

/-- The id that stands for cancelling. -/
def cancelId : Text := ['C']

/-- Whether the text stands for cancelling, in either case of the letter. -/
def isCancel (text : Text) : Bool := text == ['C'] || text == ['c']

/-- The ids of the prefixes of the two forms. -/
def formId : Form → Text
  | .plain => "NORMAL"
  | .encoded => "HTMLENC"

/-- The pair of a form: that of its last entry, or the standard one. -/
def pairOf (form : Form) (entries : List PrefixEntry) : Pair :=
  entries.foldl (fun pair entry => if entry.id = formId form then ⟨entry.opening, entry.closing⟩
    else pair) (Delimiters.standard.pair form)

/-- A path of the catalog as seen from the folder of the catalog, if that is known. -/
def resolve (base : Option Path) (value : Text) : Path :=
  match base with
  | some folder => folder.join (.ofText value)
  | none => .ofText value

/-- The option of an entry. -/
def optionOf (base : Option Path) (entry : OptionEntry) : NamedJob where
  id := entry.id.trim
  name := entry.name
  templateFolder := resolve base entry.templateFolder
  outputFolder := resolve base entry.outputFolder
  variableFile := resolve base entry.variableFile
  searchPattern := entry.searchPattern

/-- What is wrong with the id of an entry, if the ids `seen` are taken. -/
def idFault? (seen : List Text) (entry : OptionEntry) : Option IdFault :=
  let id := entry.id.trim
  if id.isEmpty then some (.empty entry.name)
  else if isCancel id then some (.reserved id)
  else if seen.contains id then some (.duplicate id)
  else none

/-- The options of the entries, or the first fault in an id. -/
def optionsOf (base : Option Path) : (seen : List Text) → List OptionEntry →
    Except IdFault (List NamedJob)
  | _, [] => .ok []
  | seen, entry :: entries =>
    match idFault? seen entry with
    | some fault => .error fault
    | none => do
      return optionOf base entry :: (← optionsOf base (entry.id.trim :: seen) entries)

/-- The settings as a catalog. A fault of the delimiters is reported before one of an option. -/
def ofSettings (base : Option Path) (settings : Settings) : Except Failure Catalog :=
  let plain := pairOf .plain settings.prefixes
  let encoded := pairOf .encoded settings.prefixes
  match Delimiters.ofPairs plain encoded with
  | .error fault => .error (.badDelimiters fault)
  | .ok delimiters =>
    match optionsOf base [] settings.options with
    | .error fault => .error (.badCatalog none (.id fault))
    | .ok options => .ok ⟨delimiters, options⟩

/-- The catalog of a document. -/
def ofDocument (base : Option Path) (document : Text) : Except Failure Catalog :=
  match Settings.ofDocument document with
  | .error fault => .error (.badCatalog none (.document fault))
  | .ok settings => ofSettings base settings

/-- What the log says about the prefixes: which of them belong to no form. -/
def prefixRemarks (entries : List PrefixEntry) : List Record :=
  entries.flatMap fun entry =>
    if entry.id = formId .plain ∨ entry.id = formId .encoded then []
    else [⟨.debug, .catalog, .concat ["Ignoring unknown prefix id '", entry.id, "'"]⟩]

/-- What the log says about a document. -/
def remarks (document : Text) : List Record :=
  match Settings.ofDocument document with
  | .error _ => []
  | .ok settings => prefixRemarks settings.prefixes

/-- The option with the id. -/
def find? (catalog : Catalog) (id : Text) : Option NamedJob :=
  catalog.options.find? (·.id == id)

/-- The job of the option with the id. -/
def job (catalog : Catalog) (id : Text) : Except Failure Job :=
  match catalog.find? id with
  | some option => .ok (option.withDelimiters catalog.delimiters)
  | none => .error (.noSuchOption id)

theorem job_eq_ok_iff {catalog : Catalog} {id : Text} {job : Job} :
    catalog.job id = .ok job ↔
      ∃ option, catalog.find? id = some option ∧
        job = option.withDelimiters catalog.delimiters := by
  unfold Catalog.job
  cases catalog.find? id <;> simp [eq_comm]

end Catalog

end Stencil
