import Stencil.Disk.Basic
import Stencil.IoError
import Stencil.Path

/-!
# Routes

A path leads over the disk step by step. A link on the way is followed, at most forty times; the
last name can be that of a node still to be created.

* `advance_ne_link`: without links, a walk stops at none.
-/

namespace Stencil

namespace Disk

/-- A step of a route. -/
inductive Step where
  | here
  | up
  | name (name : Name)
  /-- The slash at the end of a path: what the path leads to is a folder. -/
  | slash
  deriving DecidableEq, Repr

/-- The step that a part of a path is. -/
def stepOf (part : Bytes) : Step :=
  if part = [Path.dot] then .here
  else if part = [Path.dot, Path.dot] then .up
  else .name part

/-- The steps of a path. -/
def stepsOf (bytes : Bytes) : List Step :=
  let parts := (splitAt Path.slash bytes).filter (!·.isEmpty)
  parts.map stepOf ++ (if !parts.isEmpty && bytes.getLast? == some Path.slash then [.slash] else [])

/-- Where the route of a path starts, seen from a folder. -/
def startOf (folder : Location) (bytes : Bytes) : Location :=
  if bytes.head? = some Path.slash then [] else folder

/-- What a path is used for. -/
inductive Purpose where
  | find
  /-- The last name need not be there yet. -/
  | create
  deriving DecidableEq, Repr

/-- Where a walk stops: at its end, or at a link in a folder with the steps after it. -/
inductive Stop where
  | at (location : Location)
  | link (folder : Location) (target : Bytes) (rest : List Step)
  deriving DecidableEq, Repr

/-- The greatest length of a name, in bytes. -/
def longestName : Nat := 255

/-- The length from which on a path is too long, in bytes. -/
def pathLimit : Nat := 4096

/-- The greatest number of links on a route. -/
def mostLinks : Nat := 40

/-- Walks from a location up to the first link. -/
def advance (disk : Disk) (purpose : Purpose) : Location → List Step → Except IoError Stop
  | location, [] => .ok (.at location)
  | location, step :: rest =>
    if disk.node? location ≠ some .folder then .error .notFolder
    else
      match step with
      | .here | .slash => advance disk purpose location rest
      | .up => advance disk purpose location.tail rest
      | .name name =>
        -- A name with a slash after it cannot become that of a file.
        if purpose = .create ∧ rest = [.slash] then .error .isFolder
        else if longestName < name.length then .error .nameTooLong
        else
          match disk.node? (name :: location) with
          | none =>
            if purpose = .create ∧ rest = [] then .ok (.at (name :: location))
            else .error .notFound
          | some (.link target) => .ok (.link location target rest)
          | some _ => advance disk purpose (name :: location) rest

/-- Walks from a location to the end, over at most `links` links. -/
def walk (disk : Disk) (purpose : Purpose) (links : Nat) (location : Location)
    (steps : List Step) : Except IoError Location :=
  match disk.advance purpose location steps with
  | .error cause => .error cause
  | .ok (.at location) => .ok location
  | .ok (.link folder target rest) =>
    match links with
    | 0 => .error .tooManyLinks
    | links + 1 => disk.walk purpose links (startOf folder target) (stepsOf target ++ rest)

/-- Why no route at all belongs to a path. -/
def unusable? (path : Path) : Option IoError :=
  if path.bytes.contains 0 then some .endInPath
  else if pathLimit ≤ path.bytes.length then some .nameTooLong
  else if path.bytes = [] then some .notFound
  else none

/-- The location that a path leads to from a folder. -/
def locate (disk : Disk) (purpose : Purpose) (folder : Location) (path : Path) :
    Except IoError Location :=
  match unusable? path with
  | some cause => .error cause
  | none => disk.walk purpose mostLinks (startOf folder path.bytes) (stepsOf path.bytes)

/-- **A disk without links stops no walk before its end.** -/
theorem advance_ne_link {disk : Disk} (h : disk.Plain) {purpose : Purpose} {steps : List Step}
    {location folder : Location} {target : Bytes} {rest : List Step} :
    disk.advance purpose location steps ≠ .ok (.link folder target rest) := by
  induction steps generalizing location with
  | nil => simp [advance]
  | cons step steps ih =>
    unfold advance
    split
    · simp
    · split
      · exact ih
      · exact ih
      · exact ih
      · split
        · simp
        · split
          · simp
          · split
            · split <;> simp
            · next t ht => exact absurd ht (h _ _)
            · exact ih

end Disk

end Stencil
