import Stencil.CommandLine.Reading
import Stencil.Path
import Stencil.Placeholder.Delimiters

/-!
# Commands

What a command line asks for. The file of the catalog can also be named by the environment.

* `Invocation.ofWords`: the command that the words ask for.
-/

namespace Stencil.CommandLine

/-- How the report of a run is used. -/
structure ReportChoice where
  /-- Whether it is shown as data rather than in words. -/
  json : Bool
  /-- Whether placeholders left over count as a failure. -/
  denyUnresolved : Bool
  deriving DecidableEq, Repr

/-- A job as given by options. The pairs need not be delimiters. -/
structure DirectJob where
  templateFolder : Path
  outputFolder : Path
  variableFile : Path
  searchPattern : Text
  plain : Pair
  encoded : Pair
  deriving DecidableEq, Repr

/-- What can be asked for. -/
inductive Command where
  | list (catalog : Option Path)
  | menu (catalog : Option Path) (report : ReportChoice)
  | direct (job : DirectJob) (report : ReportChoice)
  deriving DecidableEq, Repr

/-- A command, and whether records of its progress are shown. -/
structure Invocation where
  command : Command
  verbose : Bool
  deriving DecidableEq, Repr

namespace Reading

/-- The operand of an option that has to be given. -/
def required (reading : Reading) (key : Key) : Except Refusal Text :=
  match reading.given.lookup key with
  | some operand => .ok operand
  | none => .error .missingRequiredArgument

/-- The operand of an option, or another text without the option. -/
def operandOr (reading : Reading) (key : Key) (otherwise : Text) : Text :=
  (reading.given.lookup key).getD otherwise

/-- The file of the catalog: that of the option, or that of the environment. -/
def catalogFile (reading : Reading) (environment : Option Text) :
    Except Refusal (Option Path) :=
  match reading.given.lookup .catalog, environment with
  | some file, _ => .ok (some (.ofText file))
  | none, some [] => .error .invalidValue
  | none, some file => .ok (some (.ofText file))
  | none, none => .ok none

def reportChoice (reading : Reading) : ReportChoice :=
  ⟨reading.has .json, reading.has .denyUnresolved⟩

/-- The job of the options. Delimiters that are not given are the standard ones. -/
def directJob (reading : Reading) : Except Refusal DirectJob := do
  let plain := Delimiters.standard.plain
  let encoded := Delimiters.standard.encoded
  return {
    templateFolder := .ofText (← reading.required .templateFolder)
    outputFolder := .ofText (← reading.required .outputFolder)
    variableFile := .ofText (← reading.required .variableFile)
    searchPattern := ← reading.required .pattern
    plain := ⟨reading.operandOr .plainOpening plain.opening,
      reading.operandOr .plainClosing plain.closing⟩
    encoded := ⟨reading.operandOr .encodedOpening encoded.opening,
      reading.operandOr .encodedClosing encoded.closing⟩ }

/-- The command that the options at its level complete. -/
def command (reading : Reading) (environment : Option Text) : Except Refusal Command :=
  match reading.level with
  | .top | .generate =>
    .error (if reading.given.isEmpty then .nothingGiven else .missingSubcommand)
  | .list => do return .list (← reading.catalogFile environment)
  | .menu => do return .menu (← reading.catalogFile environment) reading.reportChoice
  | .direct => do return .direct (← reading.directJob) reading.reportChoice

end Reading

/-- The command that the words ask for, if the environment names the given file. -/
def Invocation.ofWords (environment : Option Text) (words : List Text) :
    Except Refusal Invocation := do
  let reading ← Reading.ofWords words
  return ⟨← reading.command environment, reading.verbose || reading.has .verbose⟩

end Stencil.CommandLine
