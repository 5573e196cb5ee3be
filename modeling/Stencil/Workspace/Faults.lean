import Stencil.Workspace.Basic

/-!
# Faults on purpose

A workspace in which calls fail or answer wrongly at chosen paths, for trying out how a job takes
it. Paths are told apart as they are written, and what goes wrong at a path goes wrong at all times.

* `Faults.injected`: a fault at some paths.
* `withFaults_none`: without faults a workspace is itself.
-/

namespace Stencil

/-- The calls that fail or answer wrongly, by their paths. -/
structure Faults where
  /-- Why a file cannot be read. -/
  unreadable? : Path → Option IoError := fun _ => none
  /-- Why a file cannot be written. -/
  unwritable? : Path → Option IoError := fun _ => none
  /-- Why a folder cannot be looked into. -/
  unlistable? : Path → Option IoError := fun _ => none
  /-- Why a folder cannot be made. -/
  uncreatable? : Path → Option IoError := fun _ => none
  /-- Whether nothing seems to be at the path. -/
  hidden : Path → Bool := fun _ => false
  /-- Whether what is at the path seems to be no folder. -/
  closed : Path → Bool := fun _ => false
  /-- What is added to every text that is written to the file. -/
  appended : Path → Text := fun _ => []
  /-- What a folder seems to hold, whatever it holds. -/
  listing? : Path → Option (List Path) := fun _ => none

/-- A fault with a name at some paths. -/
def Faults.injected (name : Text) (paths : List Path) : Path → Option IoError := fun path =>
  if path ∈ paths then some (.other (.concat ["injected ", name])) else none

variable {m : Type → Type} [Monad m]

/-- A call that fails instead if there is a cause. -/
def failing {α : Type} (cause? : Option IoError) (call : m (Except IoError α)) :
    m (Except IoError α) :=
  match cause? with
  | some cause => return .error cause
  | none => call

/-- The workspace with the faults. -/
def Workspace.withFaults (workspace : Workspace m) (faults : Faults) : Workspace m where
  engine := workspace.engine
  readText file := failing (faults.unreadable? file) (workspace.readText file)
  writeText file text :=
    failing (faults.unwritable? file) (workspace.writeText file (text ++ faults.appended file))
  listFiles folder pattern :=
    failing (faults.unlistable? folder) <|
      match faults.listing? folder with
      | some files => return .ok files
      | none => workspace.listFiles folder pattern
  isPresent path := if faults.hidden path then return false else workspace.isPresent path
  isFolder path := if faults.closed path then return false else workspace.isFolder path
  createFolders folder :=
    failing (faults.uncreatable? folder) (workspace.createFolders folder)
  note := workspace.note

theorem Workspace.withFaults_none (workspace : Workspace m) :
    workspace.withFaults {} = workspace := by
  simp [withFaults, failing]

end Stencil
