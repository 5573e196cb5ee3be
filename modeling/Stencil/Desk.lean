import Stencil.Console
import Stencil.Disk.Files
import Stencil.Workspace.Storage

/-!
# Desks

A desk is a place for the program to run: a disk seen from a working folder, some input, and all
that was written or noted so far.

* `Desk.storage`: the files of a desk.
* `Desk.console`: the program at a desk.
-/

namespace Stencil

/-- A disk with a working folder, input, and what was written so far, the last piece first. -/
structure Desk where
  disk : Disk
  /-- The working folder. -/
  folder : Disk.Location := []
  /-- The input that is not read yet. -/
  input : Bytes := []
  printed : List Text := []
  complained : List Text := []
  noted : List Record := []
  /-- The records at this level and above it are shown on the error stream. -/
  shownLevel : Option Level := none

namespace Desk

/-- What was written to the output. -/
def output (desk : Desk) : Text := desk.printed.reverse.flatten

/-- What was written to the error stream. -/
def errors (desk : Desk) : Text := desk.complained.reverse.flatten

/-- The records, in the order in which they were noted. -/
def records (desk : Desk) : List Record := desk.noted.reverse

/-- The desk with one more record. -/
def note (record : Record) (desk : Desk) : Desk :=
  { desk with
    noted := record :: desk.noted
    complained :=
      if desk.shownLevel.any (·.shows record.level) then record.line :: desk.complained
      else desk.complained }

/-- Changes the disk of the desk. -/
def change (result : Except IoError Disk) : StateM Desk (Except IoError Unit) :=
  match result with
  | .ok disk => do
    modify fun desk => { desk with disk := disk }
    return .ok ()
  | .error cause => return .error cause

/-- An entry of a folder, by its name and its node. -/
def entryOf : Disk.Name × Disk.Node → Entry
  | (name, .file _) => ⟨name, true⟩
  | (name, _) => ⟨name, false⟩

/-- The files of the desk. -/
def storage : Storage (StateM Desk) where
  readBytes path := return (← get).disk.readBytes (← get).folder path
  writeBytes path content := do
    let desk ← get
    change (desk.disk.writeBytes desk.folder path content)
  listEntries path :=
    return ((← get).disk.listFolder (← get).folder path).map fun nodes => nodes.map entryOf
  isPresent path := return (← get).disk.isPresent (← get).folder path
  isFolder path := return (← get).disk.isFolder (← get).folder path
  createFolders path := do
    let desk ← get
    let (result, disk) := desk.disk.makeFolders desk.folder path
    set { desk with disk := disk }
    return result

/-- The files and the log of the desk, with an engine. -/
def workspace (engine : Engine) : Workspace (StateM Desk) :=
  storage.workspace engine fun record => modify (note record)

/-- Shows the menu of the options and reads the choice. -/
def choose (options : List NamedJob) : StateM Desk (Except IoError Selection) := do
  let desk ← get
  let session := Session.ofInput options desk.input
  set { desk with
    input := session.unread
    complained := session.shown options :: desk.complained }
  return session.result

/-- The program at the desk, with an engine and the catalog that is used when none is named. -/
def console (engine : Engine) (ownCatalog : Path) : Console (StateM Desk) where
  workspace := workspace engine
  print text := modify fun desk => { desk with printed := text :: desk.printed }
  complain text := modify fun desk => { desk with complained := text :: desk.complained }
  choose := choose
  ownCatalog := return ownCatalog

/-- A command at the desk: its exit code, and the desk afterwards. -/
def perform (desk : Desk) (engine : Engine) (ownCatalog : Path)
    (invocation : CommandLine.Invocation) : Nat × Desk :=
  ((console engine ownCatalog).perform invocation.command).run
    { desk with shownLevel := some invocation.shownLevel }

theorem note_records (record : Record) (desk : Desk) :
    (desk.note record).records = desk.records ++ [record] := by
  simp [note, records]

end Desk

end Stencil
