import Stencil.Catalog.Fault
import Stencil.Glob.Pattern
import Stencil.IoError
import Stencil.Path
import Stencil.Placeholder.Delimiters
import Stencil.Variables.Definition

/-!
# Failures

Why a job, or the reading of a catalog, came to no result.

* `Failure.message`: the failure in words.
* `Failure.cause?`: the cause that the words leave out.
-/

namespace Stencil

/-- What was being done with a file or a folder when it failed. -/
inductive Activity where
  | readVariables
  | readCatalog
  | listTemplates
  | createOutputFolder
  | nameOutput
  | readTemplate
  | writeOutput
  | checkOutput
  deriving DecidableEq, Repr

def Activity.label : Activity → Text
  | .readVariables => "read variable file"
  | .readCatalog => "read options catalog"
  | .listTemplates => "list templates in"
  | .createOutputFolder => "create output folder"
  | .nameOutput => "determine file name of"
  | .readTemplate => "read template"
  | .writeOutput => "write output"
  | .checkOutput => "read output for verification"

/-- Why there is no result. -/
inductive Failure where
  | badDefinition (file : Path) (fault : LineFault)
  | noTemplateFolder (folder : Path)
  | badPattern (pattern : Text) (fault : Glob.Fault)
  | badDelimiters (fault : DelimiterFault)
  /-- The origin is the file of the catalog, if it was read from one. -/
  | badCatalog (origin : Option Path) (fault : Catalog.Fault)
  | noSuchOption (id : Text)
  | io (activity : Activity) (path : Path) (cause : IoError)
  deriving DecidableEq, Repr

namespace Failure

/-- The failure in words, without the cause of an error of input or output. -/
def message : Failure → Text
  | .badDefinition file fault =>
    .concat ["VARIABLES_PARSE_ERROR: ", file.text, ":", .number fault.line, ": ",
      fault.reason.message, " (line: '", fault.content, "')"]
  | .noTemplateFolder folder =>
    .concat ["SOURCE_NOT_FOUND: template folder '", folder.text, "' does not exist"]
  | .badPattern pattern fault =>
    .concat ["INVALID_PATTERN: search pattern '", pattern, "' is invalid: ", fault.message]
  | .badDelimiters fault => .concat ["INVALID_DELIMITERS: ", fault.message]
  | .badCatalog none fault => .concat ["CATALOG_INVALID: ", fault.message]
  | .badCatalog (some file) fault => .concat ["CATALOG_INVALID: ", file.text, ": ", fault.message]
  | .noSuchOption id => .concat ["OPTION_NOT_FOUND: option '", id, "' not found in catalog"]
  | .io activity path _ => .concat ["IO_ERROR: failed to ", activity.label, " '", path.text, "'"]

/-- The cause of an error of input or output. -/
def cause? : Failure → Option IoError
  | .io _ _ cause => some cause
  | _ => none

end Failure

/-- Results that may be errors can be compared. -/
instance decidableEqExcept {ε α : Type} [DecidableEq ε] [DecidableEq α] :
    DecidableEq (Except ε α)
  | .ok a, .ok b => decidable_of_iff (a = b) (Except.ok.injEq a b ▸ Iff.rfl)
  | .error f, .error g => decidable_of_iff (f = g) (Except.error.injEq f g ▸ Iff.rfl)
  | .ok _, .error _ => .isFalse nofun
  | .error _, .ok _ => .isFalse nofun

end Stencil
