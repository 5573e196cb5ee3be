import Stencil.Failure
import Stencil.Job
import Stencil.Placeholder.Unresolved
import Stencil.Render
import Stencil.Report
import Stencil.Workspace.Basic

/-!
# Running a job

The pattern is read and the matchers are built, the variables loaded, the templates listed, the
output folder made; then every template is rendered and written, and at last every output is read
back and searched for placeholders that are left. The first failure ends the run; what was written
before it stays.

* `run_of_badPattern`, `run_of_noMatcher`: a pattern that is none, or delimiters for which no
  matchers can be built, end the run before anything is touched.
-/

namespace Stencil

variable {m : Type → Type} [Monad m] (workspace : Workspace m)

/-- A call whose error ends the run. -/
def attempt {α : Type} (activity : Activity) (path : Path) (call : m (Except IoError α)) :
    ExceptT Failure m α := do
  match ← call with
  | .ok value => return value
  | .error cause => throw (.io activity path cause)

namespace Workspace

/-- A record in the log of the workspace. -/
def log (level : Level) (topic : Topic) (parts : List Text) : ExceptT Failure m Unit :=
  workspace.note ⟨level, topic, .concat parts⟩

/-- The variables of a file. Without the file there are none. -/
def loadVariables (file : Path) : ExceptT Failure m Variables := do
  if ← workspace.isPresent file then
    let content ← attempt .readVariables file (workspace.readText file)
    (Variables.remarks file content).forM fun record => (workspace.note record : ExceptT _ m Unit)
    match Variables.parse content with
    | .error fault => throw (.badDefinition file fault)
    | .ok store =>
      workspace.log .debug .definitions
        ["Loaded ", .number store.size, " variable(s) from ", file.text]
      return store
  else
    workspace.log .info .definitions
      ["Variable file ", file.text, " not found, rendering without variables"]
    return .empty

/-- The templates of a job. -/
def listTemplates (job : Job) (pattern : Glob.Pattern) : ExceptT Failure m (List Path) := do
  if ← workspace.isFolder job.templateFolder then
    attempt .listTemplates job.templateFolder (workspace.listFiles job.templateFolder pattern)
  else throw (.noTemplateFolder job.templateFolder)

end Workspace

/-- A file that a run has written. -/
structure Output where
  /-- The name of the file, as it is in its folder. -/
  name : Bytes
  path : Path
  deriving DecidableEq, Repr

/-- The base name of the file: its name as text, by which the report calls it. Pieces of the name
that are no text become U+FFFD. -/
def Output.baseName (output : Output) : Text := Utf8.decodeLossy output.name

namespace Workspace

/-- Renders a template into the output folder. -/
def renderFile (job : Job) (store : Variables) (template : Path) :
    ExceptT Failure m Output := do
  match template.fileName? with
  | none => throw (.io .nameOutput template .noFileName)
  | some name =>
    let output := job.outputFolder.join ⟨name⟩
    match ← workspace.readText template with
    | .error cause =>
      workspace.log .error .run
        ["Failed to read template ", template.text, ": ", cause.message]
      throw (.io .readTemplate template cause)
    | .ok text =>
      match ← workspace.writeText output (job.delimiters.render store text) with
      | .error cause =>
        workspace.log .error .run ["Failed to write ", output.text, ": ", cause.message]
        throw (.io .writeOutput output cause)
      | .ok () =>
        workspace.log .debug .run ["Rendered ", template.text, " -> ", output.text]
        return ⟨name, output⟩

/-- Renders the templates one after the other. -/
def renderAll (job : Job) (store : Variables) : List Path → ExceptT Failure m (List Output)
  | [] => return []
  | template :: templates => do
    let output ← workspace.renderFile job store template
    return output :: (← renderAll job store templates)

/-- The placeholders left in an output, as it is read back. An output that is gone has none. -/
def leftIn (delimiters : Delimiters) (output : Output) : ExceptT Failure m (List Text) := do
  if ← workspace.isPresent output.path then
    let text ← attempt .checkOutput output.path (workspace.readText output.path)
    return delimiters.unresolved text
  else
    workspace.log .warn .run ["Output ", output.path.text, " missing at verification, skipped"]
    return []

/-- The placeholders left in the outputs, added to those of the outputs before. -/
def verifyAll (delimiters : Delimiters) :
    List (Text × List Text) → List Output → ExceptT Failure m (List (Text × List Text))
  | files, [] => return files
  | files, output :: outputs => do
    let tokens ← workspace.leftIn delimiters output
    if !tokens.isEmpty then
      workspace.log .info .run
        [output.path.text, ": ", .number tokens.length, " unresolved placeholder(s)"]
    verifyAll delimiters (Report.addFile output.baseName tokens files) outputs

/-- Runs the job with its pattern read and its matchers built. -/
def runWith (job : Job) (pattern : Glob.Pattern) : ExceptT Failure m Report := do
  workspace.log .info .run ["Data from ", job.variableFile.text]
  let store ← workspace.loadVariables job.variableFile
  workspace.log .info .run
    ["Processing ", job.searchPattern, " from ", job.templateFolder.text]
  let templates ← workspace.listTemplates job pattern
  workspace.log .info .run ["Output to ", job.outputFolder.text]
  attempt .createOutputFolder job.outputFolder (workspace.createFolders job.outputFolder)
  let outputs ← workspace.renderAll job store templates
  let report : Report := ⟨outputs.length, ← workspace.verifyAll job.delimiters [] outputs⟩
  workspace.log .info .run ["Processed ", .number report.filesProcessed, " file(s), ",
    .number report.unresolvedCount, " unresolved placeholder(s)"]
  return report

/-- Runs the job. -/
def run (job : Job) : ExceptT Failure m Report :=
  match Glob.Pattern.parse job.searchPattern with
  | .error fault => throw (.badPattern job.searchPattern fault)
  | .ok pattern =>
    match workspace.engine.fault? job.delimiters with
    | some fault => throw (.badDelimiters fault)
    | none => workspace.runWith job pattern

theorem run_of_badPattern {job : Job} {fault : Glob.Fault}
    (h : Glob.Pattern.parse job.searchPattern = .error fault) :
    workspace.run job = throw (.badPattern job.searchPattern fault) := by
  rw [run, h]

theorem run_of_noMatcher {job : Job} {pattern : Glob.Pattern} {fault : DelimiterFault}
    (h : Glob.Pattern.parse job.searchPattern = .ok pattern)
    (hfault : workspace.engine.fault? job.delimiters = some fault) :
    workspace.run job = throw (.badDelimiters fault) := by
  rw [run, h, hfault]

end Workspace

end Stencil
