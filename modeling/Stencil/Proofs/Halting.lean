import Stencil.Desk
import Stencil.Proofs.FileNames
import Stencil.Proofs.RunHistory
import Stencil.Workspace.Faults

/-!
# Runs that a template stops

A template without a name, one that cannot be read and an output that cannot be written end a run.
In whatever workspace it runs, what was done until then is the rendering of the templates before,
and nothing is done after it.

* `Halt`: what such a run has done.
* `Halt.mutates_eq`: of all that it has done, what changes something.
* `Workspace.exists_halt`: **a run that a template stops leaves exactly the templates before it
  rendered.**
-/

namespace Stencil

/-- Whether a template was at fault: it has no name, could not be read, or its output could not be
written. -/
def Failure.atTemplate : Failure → Bool
  | .io .nameOutput _ _ | .io .readTemplate _ _ | .io .writeOutput _ _ => true
  | _ => false

/-- The path leads to that name in the folder. -/
structure Path.IsChild (path folder : Path) (name : Bytes) : Prop where
  ordinary : name.IsFileName
  isAbsolute : path.isAbsolute = folder.isAbsolute
  components : path.components = name :: folder.components

theorem Path.isChild_join {name : Bytes} (h : name.IsFileName) (folder : Path) :
    (folder.join ⟨name⟩).IsChild folder name :=
  ⟨h, isAbsolute_join folder h, components_join folder h⟩

variable {engine : Engine} {job : Job} {pattern : Glob.Pattern} {store : Variables} {template : Path}
  {templates : List Path} {calls looking stop : List Call} {failure : Failure}

/-- The templates are those that the workspace listed. -/
theorem Surveys.listed (h : Surveys engine job pattern store templates looking) :
    Call.listFiles job.templateFolder pattern (.ok templates) ∈ looking := by
  cases h with
  | found hpattern hmatchers hload hlist =>
    cases hlist with
    | listed => simp

theorem Loads.not_atTemplate {file : Path} (h : Loads file calls (.error failure)) :
    failure.atTemplate = false := by
  cases h <;> rfl

theorem Lists.not_atTemplate (h : Lists job pattern calls (.error failure)) :
    failure.atTemplate = false := by
  cases h <;> rfl

theorem ChecksAll.not_atTemplate {delimiters : Delimiters} {files : List (Text × List Text)}
    {outputs : List Output} (h : ChecksAll delimiters files outputs calls (.error failure)) :
    failure.atTemplate = false := by
  obtain ⟨output, first, hcheck⟩ := h.exists_failed
  cases hcheck
  rfl

section Rendering

variable (job store)

/-- Of the calls for templates that were rendered, the writes are those of their outputs. -/
theorem Rendered.mutates_calls (done : List Rendered) :
    (done.flatMap (Rendered.calls job store)).filter Call.mutates =
      done.map (Rendered.write job store) := by
  induction done with
  | nil => rfl
  | cons rendered done ih =>
    rw [List.flatMap_cons, List.filter_append, ih]
    rfl

/-- Of the calls for templates that were rendered, the reads are those of the templates. -/
theorem Rendered.reads_calls (done : List Rendered) :
    (done.flatMap (Rendered.calls job store)).filterMap Call.readFile? =
      done.map Rendered.template := by
  induction done with
  | nil => rfl
  | cons rendered done ih =>
    rw [List.flatMap_cons, List.filterMap_append, ih]
    rfl

end Rendering

/-- A template that stops a run is read at most once, and nothing else is. -/
theorem Stops.reads_prefix (h : Stops job store template stop failure) :
    stop.filterMap Call.readFile? <+: [template] := by
  cases h with
  | nameless => exact List.nil_prefix
  | unreadable => exact List.prefix_refl _
  | unwritable => exact List.prefix_refl _

/-- The only file that is written for it is the output of its name. -/
theorem Stops.eq_of_written (h : Stops job store template stop failure) {path : Path} {text : Text}
    {answer : Except IoError Unit} (hmem : Call.writeText path text answer ∈ stop) :
    ∃ name, template.fileName? = some name ∧ path = job.outputFolder.join ⟨name⟩ := by
  cases h with
  | nameless => cases hmem
  | unreadable => simp at hmem
  | @unwritable name hname =>
    refine ⟨name, hname, ?_⟩
    simp at hmem
    exact hmem.1

/-- What a run has done that was stopped by a template. -/
structure Halt (engine : Engine) (job : Job) (failure : Failure) (calls : List Call) where
  pattern : Glob.Pattern
  /-- The variables that were loaded. -/
  store : Variables
  /-- The calls before the output folder was made. -/
  looking : List Call
  /-- The templates that were rendered. -/
  done : List Rendered
  /-- The template that stopped the run. -/
  template : Path
  /-- The templates listed after it. -/
  rest : List Path
  /-- The calls for the template that stopped the run. -/
  stop : List Call
  survey : Surveys engine job pattern store (done.map Rendered.template ++ template :: rest) looking
  stops : Stops job store template stop failure
  /-- These are all the calls: none is made for a later template, and none to check an output. -/
  history : calls = looking ++ .createFolders job.outputFolder (.ok ()) ::
    (done.flatMap (Rendered.calls job store) ++ stop)

namespace Halt

variable (halt : Halt engine job failure calls)

/-- The templates that were listed. -/
def listing : List Path := halt.done.map Rendered.template ++ halt.template :: halt.rest

/-- What was changed is the output folder and the outputs of the templates before. -/
theorem mutates_eq : calls.filter Call.mutates = .createFolders job.outputFolder (.ok ()) ::
    (halt.done.map (Rendered.write job halt.store) ++ halt.stop.filter Call.mutates) := by
  have hdone := Rendered.mutates_calls job halt.store halt.done
  calc calls.filter Call.mutates
      = (halt.looking ++ .createFolders job.outputFolder (.ok ()) ::
          (halt.done.flatMap (Rendered.calls job halt.store) ++ halt.stop)).filter
            Call.mutates := congrArg _ halt.history
    _ = _ := by
      rw [List.filter_append, halt.survey.mutates_nil, List.nil_append,
        List.filter_cons_of_pos rfl, List.filter_append, hdone]

/-- After the output folder was made, what was read are the templates up to the one that stopped the
run. -/
theorem reads_prefix :
    (halt.done.flatMap (Rendered.calls job halt.store) ++ halt.stop).filterMap Call.readFile? <+:
      halt.done.map Rendered.template ++ [halt.template] := by
  rw [List.filterMap_append, Rendered.reads_calls job halt.store halt.done,
    List.prefix_append_right_inj]
  exact halt.stops.reads_prefix

/-- Every path that was written is that of an output: a name in the output folder. -/
theorem isChild_of_written {path : Path} {text : Text} {answer : Except IoError Unit}
    (hmem : Call.writeText path text answer ∈ calls) :
    ∃ template ∈ halt.listing, ∃ name, template.fileName? = some name ∧
      path = job.outputFolder.join ⟨name⟩ ∧ path.IsChild job.outputFolder name := by
  have hmutates : Call.writeText path text answer ∈ calls.filter Call.mutates :=
    List.mem_filter.2 ⟨hmem, rfl⟩
  have houtput : ∃ template ∈ halt.listing, ∃ name, template.fileName? = some name ∧
      path = job.outputFolder.join ⟨name⟩ := by
    rw [halt.mutates_eq, List.mem_cons, List.mem_append] at hmutates
    rcases hmutates with hfolder | hdone | hstop
    · cases hfolder
    · obtain ⟨rendered, hrendered, hwrite⟩ := List.mem_map.1 hdone
      cases hwrite
      exact ⟨rendered.template, List.mem_append_left _ (List.mem_map_of_mem hrendered),
        rendered.name, rendered.named, rfl⟩
    · obtain ⟨name, hname, hpath⟩ := halt.stops.eq_of_written (List.mem_filter.1 hstop).1
      exact ⟨halt.template, List.mem_append_right _ List.mem_cons_self, name, hname, hpath⟩
  obtain ⟨template, hlisted, name, hname, rfl⟩ := houtput
  exact ⟨template, hlisted, name, hname, rfl,
    Path.isChild_join (Path.isFileName_of_fileName? hname) job.outputFolder⟩

end Halt

/-- A history that ends in a failure at a template is that of a run that was stopped by it. -/
theorem Runs.nonempty_halt (h : Runs engine job calls (.error failure))
    (hfault : failure.atTemplate = true) :
    Nonempty (Halt engine job failure calls) := by
  cases h with
  | badPattern h => cases hfault
  | unmatched hpattern h => cases hfault
  | unloaded hpattern hmatchers hload =>
    rw [hload.not_atTemplate] at hfault
    cases hfault
  | unlisted hpattern hmatchers hload hlist =>
    rw [hlist.not_atTemplate] at hfault
    cases hfault
  | unmade survey cause => cases hfault
  | unrendered survey hrender =>
    cases hrender with
    | stopped done rest hstop => exact ⟨⟨_, _, _, done, _, rest, _, survey, hstop, rfl⟩⟩
  | unverified survey hrender hcheck =>
    rw [hcheck.not_atTemplate] at hfault
    cases hfault

/-- **A run that a template stops leaves exactly the templates before it rendered**, in whatever
workspace it runs. The output folder was made and the outputs of the templates before were written,
in this order; after that, the only write can be the one that failed. No later template is read, and
no output is checked. -/
theorem Workspace.exists_halt {σ : Type} (workspace : Workspace (StateM σ)) (job : Job) (state : σ)
    {failure : Failure} (h : ((workspace.run job).run.run state).1 = .error failure)
    (hfault : failure.atTemplate = true) :
    ∃ halt : Halt workspace.engine job failure (workspace.history job state).2,
      .listFiles job.templateFolder halt.pattern (.ok halt.listing) ∈
        (workspace.history job state).2 ∧
      (workspace.history job state).2.filter Call.mutates =
        .createFolders job.outputFolder (.ok ()) ::
          (halt.done.map (Rendered.write job halt.store) ++ halt.stop.filter Call.mutates) ∧
      (halt.done.flatMap (Rendered.calls job halt.store) ++ halt.stop).filterMap Call.readFile? <+:
        halt.done.map Rendered.template ++ [halt.template] ∧
      (∀ template ∈ halt.listing, ∀ name, template.fileName? = some name → name.IsFileName) ∧
      ∀ path text answer, .writeText path text answer ∈ (workspace.history job state).2 →
        ∃ template ∈ halt.listing, ∃ name, template.fileName? = some name ∧
          path = job.outputFolder.join ⟨name⟩ ∧ path.IsChild job.outputFolder name := by
  have hseen := run_cases (Workspace.run_seen (Trail.silent workspace) job state).1
  rw [workspace.history_result, h] at hseen
  obtain ⟨halt⟩ := hseen.nonempty_halt hfault
  refine ⟨halt, ?_, halt.mutates_eq, halt.reads_prefix,
    fun template _ name hname => Path.isFileName_of_fileName? hname,
    fun path text answer hmem => halt.isChild_of_written hmem⟩
  have hmem := List.mem_append_left
    (.createFolders job.outputFolder (.ok ()) ::
      (halt.done.flatMap (Rendered.calls job halt.store) ++ halt.stop)) halt.survey.listed
  rw [← halt.history] at hmem
  exact hmem

/-- A desk with the templates `a`, `b` and `c`. -/
def Desk.letters : Desk where
  disk := ⟨[([Utf8.encode ['t']], .folder),
    ([Utf8.encode ['c'], Utf8.encode ['t']], .file (Utf8.encode ['3'])),
    ([Utf8.encode ['a'], Utf8.encode ['t']],
      .file (Utf8.encode (Delimiters.standard.plain.wrap ['A']))),
    ([Utf8.encode ['b'], Utf8.encode ['t']], .file (Utf8.encode ['2'])),
    ([Utf8.encode ['v']], .file (Utf8.encode ['A', '=', '1']))]⟩

/-- The job that renders all of them. -/
def Desk.lettersJob : Job where
  templateFolder := .ofText ['t']
  outputFolder := .ofText ['o']
  variableFile := .ofText ['v']
  searchPattern := ['*']
  delimiters := .standard

/-- Where the output of `b` cannot be written, the run stops after `a`. -/
theorem Workspace.exists_halt_letters :
    let output := Path.ofText ['o', '/', 'b']
    let cause := IoError.other "full"
    let stopped := (Desk.workspace .unbounded).withFaults
      { unwritable? := fun path => if path = output then some cause else none }
    let failure := Failure.io .writeOutput output cause
    ((stopped.run Desk.lettersJob).run.run Desk.letters).1 = .error failure ∧
      failure.atTemplate = true ∧
      ∃ halt : Halt .unbounded Desk.lettersJob failure (stopped.history Desk.lettersJob Desk.letters).2,
        (stopped.history Desk.lettersJob Desk.letters).2.filter Call.mutates =
          .createFolders (.ofText ['o']) (.ok ()) ::
            (halt.done.map (Rendered.write Desk.lettersJob halt.store) ++
              halt.stop.filter Call.mutates) := by
  intro output cause stopped failure
  have hrun : ((stopped.run Desk.lettersJob).run.run Desk.letters).1 = .error failure := by
    decide +kernel
  obtain ⟨halt, -, hmutates, -⟩ := stopped.exists_halt Desk.lettersJob Desk.letters hrun rfl
  exact ⟨hrun, rfl, halt, hmutates⟩

end Stencil
