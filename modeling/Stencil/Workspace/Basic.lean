import Stencil.Glob.Match
import Stencil.IoError
import Stencil.Log
import Stencil.Path
import Stencil.Placeholder.Delimiters

/-!
# Workspaces

What a job needs of the place where it runs: files, folders, a log, and the engine that builds its
matchers. A job is written against this, so that it runs on a disk, on a model of one, or where
calls fail on purpose.
-/

namespace Stencil

/-- Files, folders and a log, in the monad `m`, and an engine. -/
structure Workspace (m : Type → Type) where
  engine : Engine
  /-- The text of a file, without a byte order mark at its start. -/
  readText : Path → m (Except IoError Text)
  writeText : Path → Text → m (Except IoError Unit)
  /-- The files in a folder that fit the pattern, in the order of their names. -/
  listFiles : Path → Glob.Pattern → m (Except IoError (List Path))
  isPresent : Path → m Bool
  isFolder : Path → m Bool
  /-- Makes a folder and those around it, unless they are there. -/
  createFolders : Path → m (Except IoError Unit)
  note : Record → m Unit

end Stencil
