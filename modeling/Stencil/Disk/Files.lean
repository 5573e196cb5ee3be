import Stencil.Disk.Route

/-!
# Files on a disk

Reading and writing files, making folders and looking into them, by paths seen from a folder.

* `writeBytes_eq_ok`: what is written becomes the file that the path leads to.
* `writeBytes_node?_of_ne`: writing changes one location.
-/

namespace Stencil.Disk

variable (disk : Disk) (folder : Location)

/-- Whether the path leads to a node. -/
def isPresent (path : Path) : Bool := (disk.locate .find folder path).isOk

/-- Whether the path leads to a folder. -/
def isFolder (path : Path) : Bool :=
  match disk.locate .find folder path with
  | .ok location => disk.hasFolder location
  | .error _ => false

/-- The content of the file that the path leads to. -/
def readBytes (path : Path) : Except IoError Bytes := do
  match disk.node? (← disk.locate .find folder path) with
  | some (.file content) => return content
  | some .folder => throw .isFolder
  | _ => throw .notFound

/-- The disk after the content was written to the file that the path leads to. -/
def writeBytes (path : Path) (content : Bytes) : Except IoError Disk := do
  let location ← disk.locate .create folder path
  if disk.hasFolder location then throw .isFolder
  else return disk.put location (.file content)

/-- The nodes in the folder that the path leads to. -/
def listFolder (path : Path) : Except IoError (List (Name × Node)) := do
  let location ← disk.locate .find folder path
  if disk.hasFolder location then return disk.children location
  else throw .notFolder

/-- The location at which the path makes a folder. -/
def newFolderLocation (path : Path) : Except IoError Location :=
  match unusable? path with
  | some cause => .error cause
  | none =>
    -- A slash at the end makes no difference for a folder.
    match ((stepsOf path.bytes).filter (· ≠ .slash)).reverse with
    | [] => .error .alreadyExists
    | last :: before => do
      let around ← disk.walk .find mostLinks (startOf folder path.bytes) before.reverse
      if !disk.hasFolder around then throw .notFolder
      match last with
      | .name name =>
        if longestName < name.length then throw .nameTooLong
        else if (disk.node? (name :: around)).isSome then throw .alreadyExists
        else return name :: around
      | _ => throw .alreadyExists

/-- The disk after a folder was made at the path. -/
def makeFolder (path : Path) : Except IoError Disk := do
  return disk.put (← disk.newFolderLocation folder path) .folder

/-- Makes a folder, and before it those of the folders around it that are missing. Folders that
were made stay, also if a later one cannot be made. -/
def makeFoldersFrom (folder : Location) : List Path → Disk → Except IoError Unit × Disk
  | [], disk => (.error (.other "failed to create whole tree"), disk)
  | path :: around, disk =>
    if path.bytes = [] then (.ok (), disk)
    else
      match disk.makeFolder folder path with
      | .ok made => (.ok (), made)
      | .error .notFound =>
        match makeFoldersFrom folder around disk with
        | (.error cause, disk) => (.error cause, disk)
        | (.ok (), disk) =>
          match disk.makeFolder folder path with
          | .ok made => (.ok (), made)
          | .error cause =>
            if disk.isFolder folder path then (.ok (), disk) else (.error cause, disk)
      | .error cause =>
        if disk.isFolder folder path then (.ok (), disk) else (.error cause, disk)

/-- Makes the folder of the path and those around it, unless they are there. -/
def makeFolders (path : Path) : Except IoError Unit × Disk :=
  makeFoldersFrom folder (path :: path.parents) disk

variable {disk folder}

theorem writeBytes_eq_ok {path : Path} {content : Bytes} {after : Disk}
    (h : disk.writeBytes folder path content = .ok after) :
    ∃ location, disk.locate .create folder path = .ok location ∧
      disk.hasFolder location = false ∧ after = disk.put location (.file content) := by
  unfold writeBytes at h
  cases hl : disk.locate .create folder path with
  | error cause =>
    rw [hl] at h
    cases h
  | ok location =>
    rw [hl] at h
    refine ⟨location, rfl, ?_⟩
    by_cases hf : disk.hasFolder location
    · simp [bind, Except.bind, hf, throw, throwThe, MonadExceptOf.throw] at h
    · simp [bind, Except.bind, hf, pure, Except.pure] at h
      exact ⟨by simpa using hf, h.symm⟩

/-- **Writing changes one location**, that of the file. -/
theorem writeBytes_node?_of_ne {path : Path} {content : Bytes} {after : Disk} {location : Location}
    (h : disk.writeBytes folder path content = .ok after)
    (hl : disk.locate .create folder path = .ok location) {other : Location}
    (hne : other ≠ location) : after.node? other = disk.node? other := by
  obtain ⟨place, hplace, -, rfl⟩ := writeBytes_eq_ok h
  rw [hl] at hplace
  cases hplace
  exact node?_put_of_ne disk (.file content) hne

end Stencil.Disk
