import Stencil.Disk.Files
import Stencil.Job
import Stencil.Workspace.Storage

/-!
# Fixtures

A fixture lays out the files of a job below one folder, for trying the program out: templates in
`templates`, the variables in `vars.txt`, the output in `out`, a catalog in `Options.xml`.

* `Fixture.catalogText`: the catalog that is written for given options.
* `Disk.node?_remove_self`: what is removed is gone.
-/

namespace Stencil

/-- A job laid out below a folder. -/
structure Fixture where
  root : Path
  deriving DecidableEq, Repr

/-- Why a fixture could not be used. -/
inductive FixtureFault where
  | noTemplateFolder
  | templateNotWritten
  | variablesNotWritten
  | outputNotRead
  | catalogNotWritten
  | noBaseFolder
  | noTemporaryFolder
  deriving DecidableEq, Repr

def FixtureFault.message : FixtureFault → Text
  | .noTemplateFolder => "Failed to create templates dir"
  | .templateNotWritten => "Failed to write template"
  | .variablesNotWritten => "Failed to write variable file"
  | .outputNotRead => "Failed to read output file"
  | .catalogNotWritten => "Failed to write catalog"
  | .noBaseFolder => "Failed to create .tmp directory"
  | .noTemporaryFolder => "Failed to create temporary directory in .tmp/"

namespace Fixture

variable (fixture : Fixture)

def templateFolder : Path := fixture.root.join (.ofText "templates")

def outputFolder : Path := fixture.root.join (.ofText "out")

def variableFile : Path := fixture.root.join (.ofText "vars.txt")

def catalogFile : Path := fixture.root.join (.ofText "Options.xml")

/-- The job of the fixture, with the standard delimiters. -/
def job (searchPattern : Text) : Job where
  templateFolder := fixture.templateFolder
  outputFolder := fixture.outputFolder
  variableFile := fixture.variableFile
  searchPattern := searchPattern
  delimiters := .standard

/-- The line of a catalog for an option with an id, a name and a pattern, taken as they are. -/
def optionLine (option : Text × Text × Text) : Text :=
  let (id, name, searchPattern) := option
  .concat ["    <Option Id=\"", id, "\" Name=\"", name, "\" TemplateFolder=\"templates\"",
    " OutputFolder=\"out\" VariableFile=\"vars.txt\" SearchPattern=\"", searchPattern, "\" />\n"]

/-- The catalog in which the options share the folders of the fixture. -/
def catalogText (options : List (Text × Text × Text)) : Text :=
  .concat ["<Settings>\n  <Options>\n", options.flatMap optionLine, "  </Options>\n</Settings>\n"]

variable (disk : Disk) (folder : Disk.Location)

/-- Makes the folder for templates. The one for output is left to the run. -/
def create : Except FixtureFault Unit × Disk :=
  let (result, disk) := disk.makeFolders folder fixture.templateFolder
  (result.mapError fun _ => .noTemplateFolder, disk)

/-- Writes a text to a file. -/
def writeText (file : Path) (fault : FixtureFault) (text : Text) : Except FixtureFault Disk :=
  (disk.writeBytes folder file (Utf8.encode text)).mapError fun _ => fault

/-- Writes a template. -/
def writeTemplate (name text : Text) : Except FixtureFault Disk :=
  writeText disk folder (fixture.templateFolder.join (.ofText name)) .templateNotWritten text

/-- Writes the variable file. -/
def writeVariables (text : Text) : Except FixtureFault Disk :=
  writeText disk folder fixture.variableFile .variablesNotWritten text

/-- Writes the catalog of the options. -/
def writeCatalog (options : List (Text × Text × Text)) : Except FixtureFault Disk :=
  writeText disk folder fixture.catalogFile .catalogNotWritten (catalogText options)

/-- The text of an output file, which has to be text throughout. -/
def readOutput (name : Text) : Except FixtureFault Text :=
  match disk.readBytes folder (fixture.outputFolder.join (.ofText name)) with
  | .ok content => (Utf8.decode? content).elim (.error .outputNotRead) .ok
  | .error _ => .error .outputNotRead

/-- The names in the output folder as texts, in order. Without the folder there are none. -/
def outputNames : List Text :=
  match disk.listFolder folder fixture.outputFolder with
  | .ok nodes =>
    (nodes.map fun node => Utf8.decodeLossy node.1).mergeSort fun a b => !Text.before b a
  | .error _ => []

end Fixture

/-- The folder for temporary folders. -/
def temporaryBase : Path := .ofText ".tmp"

/-- The name of a temporary folder with a number. -/
def temporaryName (n : Nat) : Text := .concat ["tmp", .number n]

/-- A number whose name is not among the taken ones. -/
def freshNumber (taken : List Disk.Name) : Nat :=
  ((List.range (taken.length + 1)).find? fun n =>
    Utf8.encode (temporaryName n) ∉ taken).getD taken.length

/-- Makes a folder of its own below the base folder, and the base folder if it is missing. -/
def makeTemporaryFolder (disk : Disk) (folder : Disk.Location) :
    Except FixtureFault Path × Disk :=
  match disk.makeFolders folder temporaryBase with
  | (.error _, disk) => (.error .noBaseFolder, disk)
  | (.ok (), disk) =>
    let taken := (disk.listFolder folder temporaryBase).toOption.getD []
    let path := temporaryBase.join (.ofText (temporaryName (freshNumber (taken.map Prod.fst))))
    match disk.makeFolder folder path with
    | .ok made => (.ok path, made)
    | .error _ => (.error .noTemporaryFolder, disk)

/-- The disk without the node at the location and all that is below it. -/
def Disk.remove (disk : Disk) (location : Disk.Location) : Disk :=
  ⟨disk.entries.filter fun entry => !location.isSuffixOf entry.1⟩

theorem Disk.node?_remove_self (disk : Disk) {location : Disk.Location} (h : location ≠ []) :
    (disk.remove location).node? location = none := by
  rw [Disk.node?, if_neg h, List.lookup_eq_none_iff]
  intro entry hentry
  simp only [remove, List.mem_filter, Bool.not_eq_true', ← Bool.not_eq_true,
    List.isSuffixOf_iff_suffix] at hentry
  rw [bne_iff_ne]
  intro he
  exact hentry.2 (he ▸ List.suffix_refl _)

end Stencil
