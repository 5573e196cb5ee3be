import Stencil.Path
import Stencil.Placeholder.Delimiters

/-!
# Jobs

What is to be rendered: the files of a folder that fit a pattern, with the variables of a file, into
another folder.
-/

namespace Stencil

/-- What is to be rendered. -/
structure Job where
  templateFolder : Path
  outputFolder : Path
  /-- A file that need not exist. -/
  variableFile : Path
  searchPattern : Text
  delimiters : Delimiters
  deriving DecidableEq

end Stencil
