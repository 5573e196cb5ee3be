import Stencil.Text.Basic

/-!
# Errors of input and output

Why a file, a folder or the input could not be used, as the system says it.

* `IoError.message`: the cause in the words of the system.
-/

namespace Stencil

/-- Why a file, a folder or the input could not be used. -/
inductive IoError where
  | notFound
  | alreadyExists
  | notFolder
  | isFolder
  | nameTooLong
  | tooManyLinks
  /-- A path holds the character that ends paths for the system. -/
  | endInPath
  | noFileName
  | notText
  /-- Any other cause, in its own words. -/
  | other (message : Text)
  deriving DecidableEq, Repr

def IoError.message : IoError → Text
  | .notFound => "No such file or directory (os error 2)"
  | .alreadyExists => "File exists (os error 17)"
  | .notFolder => "Not a directory (os error 20)"
  | .isFolder => "Is a directory (os error 21)"
  | .nameTooLong => "File name too long (os error 36)"
  | .tooManyLinks => "Too many levels of symbolic links (os error 40)"
  | .endInPath => "file name contained an unexpected NUL byte"
  | .noFileName => "path has no file name"
  | .notText => "stream did not contain valid UTF-8"
  | .other message => message

end Stencil
