import Stencil.CommandLine.Invocation
import Stencil.Json
import Stencil.Menu
import Stencil.Run

/-!
# The program

A command is performed at a console: results go to its output, all else to its error stream, and
the exit code tells how it ended.

* `perform`: a command, from its start to its exit code.
* `outcomeOf_exitCode_eq_two_iff`: what the exit code of a run says.
-/

namespace Stencil

/-- Where the program runs, in the monad `m`. -/
structure Console (m : Type → Type) where
  workspace : Workspace m
  /-- Writes to the output, which is taken to accept what is written. -/
  print : Text → m Unit
  complain : Text → m Unit
  /-- Shows the menu of the options on the error stream and reads the choice. -/
  choose : List NamedJob → m (Except IoError Selection)
  /-- The catalog that is used when none is named. -/
  ownCatalog : m Path

/-- Why a command came to no result. -/
inductive CommandFailure where
  | runFailed (failure : Failure)
  | catalogNotLoaded (file : Path) (failure : Failure)
  | nothingChosen (cause : IoError)
  deriving DecidableEq, Repr

/-- A failure in words, with its cause. -/
def Failure.fullMessage (failure : Failure) : Text :=
  match failure.cause? with
  | some cause => .concat [failure.message, ": ", cause.message]
  | none => failure.message

def CommandFailure.message : CommandFailure → Text
  | .runFailed failure => failure.fullMessage
  | .catalogNotLoaded file failure =>
    .concat ["Failed to load options catalog ", file.text, ": ", failure.fullMessage]
  | .nothingChosen cause => .concat ["Failed to read menu choice: ", cause.message]

/-- How a command ended, if it came to a result. -/
inductive Outcome where
  | done
  /-- Placeholders were left, which was not allowed. -/
  | unresolvedDenied
  | cancelled
  deriving DecidableEq, Repr

def Outcome.exitCode : Outcome → Nat
  | .done | .cancelled => 0
  | .unresolvedDenied => 2

/-- No outcome has the exit code of a failure. -/
theorem Outcome.exitCode_eq (outcome : Outcome) : outcome.exitCode = 0 ∨ outcome.exitCode = 2 := by
  cases outcome with
  | done => exact .inl rfl
  | unresolvedDenied => exact .inr rfl
  | cancelled => exact .inl rfl

/-- The exit code of a command that came to no result. -/
def failureExitCode : Nat := 1

/-- The outcome of a run with the given report. -/
def outcomeOf (choice : CommandLine.ReportChoice) (report : Report) : Outcome :=
  if choice.denyUnresolved && report.hasUnresolved then .unresolvedDenied else .done

namespace Report

/-- The report as data. -/
def json (report : Report) : Json.Value :=
  .object [("files_processed", .number report.filesProcessed),
    ("unresolved_by_file",
      .object (report.unresolved.map fun (name, tokens) => (name, .list (tokens.map .text))))]

/-- The report in words. -/
def words (report : Report) : Text :=
  .concat [
    report.filesWithUnresolved.flatMap fun (name, tokens) => Text.concat ["\n✗ ", name, "\n",
      "Found the following unknown placeholders - these were not replaced:\n",
      tokens.flatMap fun token => Text.concat ["  ", token, "\n"]],
    "\n✓ DONE PROCESSING (", .number report.filesProcessed, " file",
    if report.filesProcessed = 1 then "" else "s", ")\n"]

/-- The report as it is printed. -/
def shown (report : Report) (choice : CommandLine.ReportChoice) : Text :=
  if choice.json then report.json.write 0 ++ ['\n'] else report.words

end Report

/-- What is printed before a job runs. -/
def Job.header (job : Job) : Text :=
  .concat ["→ Data from: ", job.variableFile.text, "\n→ Processing from: ",
    job.templateFolder.text, "\n→ Output to: ", job.outputFolder.text, "\n"]

/-- The options of a catalog, as they are listed. -/
def Catalog.listing (catalog : Catalog) (file : Path) : Text :=
  if catalog.options.isEmpty then .concat ["! No options configured in ", file.text, "\n"]
  else
    .concat [
      "→ Placeholders: ", catalog.delimiters.plain.wrap "KEY", "  ",
      catalog.delimiters.encoded.wrap "KEY", "\n",
      catalog.options.flatMap fun option => Text.concat ["[", option.id, "]. ", option.name, "  (",
        option.templateFolder.text, " → ", option.outputFolder.text, ", ", option.searchPattern,
        ")\n"]]

variable {m : Type → Type} [Monad m]

/-- The catalog of a file. Its paths are seen from the folder of the file. -/
def Workspace.loadCatalog (workspace : Workspace m) (file : Path) : ExceptT Failure m Catalog := do
  let document ← attempt .readCatalog file (workspace.readText file)
  (Catalog.remarks document).forM fun record => (workspace.note record : ExceptT _ m Unit)
  let base := file.parent?.filter fun folder => !folder.bytes.isEmpty
  match Catalog.ofDocument base document with
  | .ok catalog => return catalog
  | .error (.badCatalog _ fault) => throw (.badCatalog (some file) fault)
  | .error failure => throw failure

namespace Console

open CommandLine

variable (console : Console m)

/-- Runs a job and prints its report. -/
def execute (job : Job) (choice : ReportChoice) : ExceptT CommandFailure m Outcome := do
  if !choice.json then console.print job.header
  match ← (console.workspace.run job).run with
  | .error failure => throw (.runFailed failure)
  | .ok report =>
    console.print (report.shown choice)
    return outcomeOf choice report

/-- Runs a job that is given by options. -/
def direct (job : DirectJob) (choice : ReportChoice) : ExceptT CommandFailure m Outcome :=
  match Delimiters.ofPairs job.plain job.encoded with
  | .error fault => throw (.runFailed (.badDelimiters fault))
  | .ok delimiters =>
    console.execute
      ⟨job.templateFolder, job.outputFolder, job.variableFile, job.searchPattern, delimiters⟩ choice

/-- The file of the catalog, and the catalog. -/
def openCatalog (named : Option Path) : ExceptT CommandFailure m (Path × Catalog) := do
  let file ← match named with
    | some file => pure file
    | none => console.ownCatalog
  match ← (console.workspace.loadCatalog file).run with
  | .error failure => throw (.catalogNotLoaded file failure)
  | .ok catalog => return (file, catalog)

/-- Runs the job of an option that is chosen from a menu. -/
def menu (named : Option Path) (choice : ReportChoice) : ExceptT CommandFailure m Outcome := do
  let (file, catalog) ← console.openCatalog named
  match ← console.choose catalog.options with
  | .error cause => throw (.nothingChosen cause)
  | .ok .cancelled =>
    console.workspace.note ⟨.info, .command, "Menu cancelled"⟩
    return .cancelled
  | .ok (.option id) =>
    console.workspace.note ⟨.info, .command,
      .concat ["Selected option ", id, " from ", file.text]⟩
    match catalog.job id with
    | .error failure => throw (.runFailed failure)
    | .ok job => console.execute job choice

/-- Prints the options of a catalog. -/
def list (named : Option Path) : ExceptT CommandFailure m Outcome := do
  let (file, catalog) ← console.openCatalog named
  console.print (catalog.listing file)
  return .done

/-- A command, from its start to its exit code. -/
def perform (command : Command) : m Nat := do
  let result ← match command with
    | .list catalog => (console.list catalog).run
    | .menu catalog choice => (console.menu catalog choice).run
    | .direct job choice => (console.direct job choice).run
  match result with
  | .ok outcome => return outcome.exitCode
  | .error failure =>
    console.complain (.concat ["Error: ", failure.message, "\n"])
    return failureExitCode

end Console

/-- The level down to which records are shown while the program runs. -/
def CommandLine.Invocation.shownLevel (invocation : CommandLine.Invocation) : Stencil.Level :=
  if invocation.verbose then .info else .warn

/-- The exit code after a usage that was refused. Asking for help is no mistake. -/
def CommandLine.Refusal.exitCode : CommandLine.Refusal → Nat
  | .helpAsked | .versionAsked => 0
  | _ => 2

/-- **The exit code of a run tells whether placeholders were left**, where they are not allowed. -/
theorem outcomeOf_exitCode_eq_two_iff {choice : CommandLine.ReportChoice} {report : Report} :
    (outcomeOf choice report).exitCode = 2 ↔
      choice.denyUnresolved = true ∧ report.hasUnresolved = true := by
  unfold outcomeOf
  split
  · next h => simpa [Outcome.exitCode] using h
  · next h => simpa [Outcome.exitCode] using h

end Stencil
