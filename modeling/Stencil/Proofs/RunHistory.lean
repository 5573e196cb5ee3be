import Stencil.Proofs.History

/-!
# All that a run can do

Every part of a job makes few calls, and what it comes to follows from their answers. The histories
of a run are put together from those of its parts.

* `Loads`, `Lists`, `RendersAll`, `ChecksAll`: the histories of a part.
* `loadVariables_seen`, `listTemplates_seen`, `renderAll_seen`, `verifyAll_seen`: a part has no
  others.
* `Runs`, `run_cases`: **the histories of a run.**
* `Workspace.runs_history`: what is watched of a run in a workspace is one of them.
* `Surveys.mutates_nil`, `ChecksAll.mutates_nil`: nothing is changed before the output folder is
  made, and nothing after the last output is written.
-/

namespace Stencil

open Histories

/-- The histories of loading the variables of a file. -/
inductive Loads (file : Path) : List Call → Except Failure Variables → Prop
  | absent : Loads file [.isPresent file false] (.ok .empty)
  | unreadable (cause : IoError) :
      Loads file [.isPresent file true, .readText file (.error cause)]
        (.error (.io .readVariables file cause))
  | malformed {content : Text} {fault : LineFault} (h : Variables.parse content = .error fault) :
      Loads file [.isPresent file true, .readText file (.ok content)]
        (.error (.badDefinition file fault))
  | loaded {content : Text} {store : Variables} (h : Variables.parse content = .ok store) :
      Loads file [.isPresent file true, .readText file (.ok content)] (.ok store)

/-- The histories of listing the templates of a job. -/
inductive Lists (job : Job) (pattern : Glob.Pattern) : List Call → Except Failure (List Path) → Prop
  | noFolder : Lists job pattern [.isFolder job.templateFolder false]
      (.error (.noTemplateFolder job.templateFolder))
  | unlistable (cause : IoError) :
      Lists job pattern
        [.isFolder job.templateFolder true, .listFiles job.templateFolder pattern (.error cause)]
        (.error (.io .listTemplates job.templateFolder cause))
  | listed (templates : List Path) :
      Lists job pattern
        [.isFolder job.templateFolder true, .listFiles job.templateFolder pattern (.ok templates)]
        (.ok templates)

/-- A template that was rendered: where it was read, what it is called, and what it said. -/
structure Rendered where
  template : Path
  name : Bytes
  text : Text
  named : template.fileName? = some name

namespace Rendered

variable (job : Job) (store : Variables) (rendered : Rendered)

/-- The file that was written. -/
def output : Output := ⟨rendered.name, job.outputFolder.join ⟨rendered.name⟩⟩

/-- The call that wrote it. -/
def write : Call :=
  .writeText (rendered.output job).path (job.delimiters.render store rendered.text) (.ok ())

/-- The calls that it took. -/
def calls : List Call := [.readText rendered.template (.ok rendered.text), rendered.write job store]

end Rendered

/-- The histories of a template that stops a run: it has no name, cannot be read, or its output
cannot be written. -/
inductive Stops (job : Job) (store : Variables) (template : Path) : List Call → Failure → Prop
  | nameless (h : template.fileName? = none) :
      Stops job store template [] (.io .nameOutput template .noFileName)
  | unreadable {name : Bytes} (h : template.fileName? = some name) (cause : IoError) :
      Stops job store template [.readText template (.error cause)] (.io .readTemplate template cause)
  | unwritable {name : Bytes} (h : template.fileName? = some name) (text : Text) (cause : IoError) :
      Stops job store template
        [.readText template (.ok text), .writeText (job.outputFolder.join ⟨name⟩)
          (job.delimiters.render store text) (.error cause)]
        (.io .writeOutput (job.outputFolder.join ⟨name⟩) cause)

/-- The histories of rendering templates one after the other: up to the first that stops the run,
or all of them. -/
inductive RendersAll (job : Job) (store : Variables) :
    List Path → List Call → Except Failure (List Output) → Prop
  | stopped (done : List Rendered) {template : Path} (rest : List Path) {stop : List Call}
      {failure : Failure} (h : Stops job store template stop failure) :
      RendersAll job store (done.map Rendered.template ++ template :: rest)
        (done.flatMap (Rendered.calls job store) ++ stop) (.error failure)
  | finished (done : List Rendered) :
      RendersAll job store (done.map Rendered.template) (done.flatMap (Rendered.calls job store))
        (.ok (done.map (Rendered.output job)))

/-- The histories of checking an output. -/
inductive Checks (delimiters : Delimiters) (output : Output) :
    List Call → Except Failure (List Text) → Prop
  | gone : Checks delimiters output [.isPresent output.path false] (.ok [])
  | unreadable (cause : IoError) :
      Checks delimiters output [.isPresent output.path true, .readText output.path (.error cause)]
        (.error (.io .checkOutput output.path cause))
  | searched (text : Text) :
      Checks delimiters output [.isPresent output.path true, .readText output.path (.ok text)]
        (.ok (delimiters.unresolved text))

/-- The histories of checking outputs one after the other, with what is left in those before. -/
inductive ChecksAll (delimiters : Delimiters) : List (Text × List Text) → List Output → List Call →
    Except Failure (List (Text × List Text)) → Prop
  | finished (files : List (Text × List Text)) : ChecksAll delimiters files [] [] (.ok files)
  | stopped (files : List (Text × List Text)) {output : Output} (outputs : List Output)
      {calls : List Call} {failure : Failure}
      (h : Checks delimiters output calls (.error failure)) :
      ChecksAll delimiters files (output :: outputs) calls (.error failure)
  | next {files : List (Text × List Text)} {output : Output} {outputs : List Output}
      {first rest : List Call} {tokens : List Text}
      {result : Except Failure (List (Text × List Text))}
      (h : Checks delimiters output first (.ok tokens))
      (later : ChecksAll delimiters (Report.addFile output.baseName tokens files) outputs rest result) :
      ChecksAll delimiters files (output :: outputs) (first ++ rest) result

/-- The histories of a run that finds all it needs: its pattern can be read and its matchers are
built, the variables are loaded and the templates listed. -/
inductive Surveys (engine : Engine) (job : Job) :
    Glob.Pattern → Variables → List Path → List Call → Prop
  | found {pattern : Glob.Pattern} {store : Variables} {templates : List Path}
      {loading listing : List Call} (hpattern : Glob.Pattern.parse job.searchPattern = .ok pattern)
      (hmatchers : engine.fault? job.delimiters = none)
      (hload : Loads job.variableFile loading (.ok store))
      (hlist : Lists job pattern listing (.ok templates)) :
      Surveys engine job pattern store templates (loading ++ listing)

/-- **The histories of a run**, by where it ends. -/
inductive Runs (engine : Engine) (job : Job) : List Call → Except Failure Report → Prop
  | badPattern {fault : Glob.Fault} (h : Glob.Pattern.parse job.searchPattern = .error fault) :
      Runs engine job [] (.error (.badPattern job.searchPattern fault))
  | unmatched {pattern : Glob.Pattern} {fault : DelimiterFault}
      (hpattern : Glob.Pattern.parse job.searchPattern = .ok pattern)
      (h : engine.fault? job.delimiters = some fault) :
      Runs engine job [] (.error (.badDelimiters fault))
  | unloaded {pattern : Glob.Pattern} {loading : List Call} {failure : Failure}
      (hpattern : Glob.Pattern.parse job.searchPattern = .ok pattern)
      (hmatchers : engine.fault? job.delimiters = none)
      (hload : Loads job.variableFile loading (.error failure)) :
      Runs engine job loading (.error failure)
  | unlisted {pattern : Glob.Pattern} {store : Variables} {loading listing : List Call}
      {failure : Failure} (hpattern : Glob.Pattern.parse job.searchPattern = .ok pattern)
      (hmatchers : engine.fault? job.delimiters = none)
      (hload : Loads job.variableFile loading (.ok store))
      (hlist : Lists job pattern listing (.error failure)) :
      Runs engine job (loading ++ listing) (.error failure)
  | unmade {pattern : Glob.Pattern} {store : Variables} {templates : List Path}
      {looking : List Call} (survey : Surveys engine job pattern store templates looking)
      (cause : IoError) :
      Runs engine job (looking ++ [.createFolders job.outputFolder (.error cause)])
        (.error (.io .createOutputFolder job.outputFolder cause))
  | unrendered {pattern : Glob.Pattern} {store : Variables} {templates : List Path}
      {looking rendering : List Call} {failure : Failure}
      (survey : Surveys engine job pattern store templates looking)
      (hrender : RendersAll job store templates rendering (.error failure)) :
      Runs engine job (looking ++ .createFolders job.outputFolder (.ok ()) ::
        rendering) (.error failure)
  | unverified {pattern : Glob.Pattern} {store : Variables} {templates : List Path}
      {looking rendering checking : List Call} {outputs : List Output} {failure : Failure}
      (survey : Surveys engine job pattern store templates looking)
      (hrender : RendersAll job store templates rendering (.ok outputs))
      (hcheck : ChecksAll job.delimiters [] outputs checking (.error failure)) :
      Runs engine job (looking ++ .createFolders job.outputFolder (.ok ()) :: (rendering ++ checking))
        (.error failure)
  | reported {pattern : Glob.Pattern} {store : Variables} {templates : List Path}
      {looking rendering checking : List Call} {outputs : List Output}
      {files : List (Text × List Text)} (survey : Surveys engine job pattern store templates looking)
      (hrender : RendersAll job store templates rendering (.ok outputs))
      (hcheck : ChecksAll job.delimiters [] outputs checking (.ok files)) :
      Runs engine job (looking ++ .createFolders job.outputFolder (.ok ()) :: (rendering ++ checking))
        (.ok ⟨outputs.length, files⟩)

section Looking

variable {engine : Engine} {job : Job} {pattern : Glob.Pattern} {calls : List Call}

/-- Loading variables only looks. -/
theorem Loads.mutates_nil {file : Path} {result : Except Failure Variables}
    (h : Loads file calls result) : calls.filter Call.mutates = [] := by
  cases h <;> rfl

/-- Listing templates only looks. -/
theorem Lists.mutates_nil {result : Except Failure (List Path)} (h : Lists job pattern calls result) :
    calls.filter Call.mutates = [] := by
  cases h <;> rfl

/-- **Nothing is changed** before the output folder is made. -/
theorem Surveys.mutates_nil {store : Variables} {templates : List Path}
    (h : Surveys engine job pattern store templates calls) : calls.filter Call.mutates = [] := by
  cases h with
  | found hpattern hmatchers hload hlist =>
    rw [List.filter_append, hload.mutates_nil, hlist.mutates_nil]; rfl

/-- Checking an output only looks. -/
theorem Checks.mutates_nil {delimiters : Delimiters} {output : Output}
    {result : Except Failure (List Text)} (h : Checks delimiters output calls result) :
    calls.filter Call.mutates = [] := by
  cases h <;> rfl

/-- **Nothing is changed** by checking the outputs. -/
theorem ChecksAll.mutates_nil {delimiters : Delimiters} {files : List (Text × List Text)}
    {outputs : List Output} {result : Except Failure (List (Text × List Text))}
    (h : ChecksAll delimiters files outputs calls result) : calls.filter Call.mutates = [] := by
  induction h with
  | finished files => rfl
  | stopped files outputs hcheck => exact hcheck.mutates_nil
  | next hcheck later ih => rw [List.filter_append, hcheck.mutates_nil, ih]; rfl

/-- Checks of outputs fail where one of them does. -/
theorem ChecksAll.exists_failed {delimiters : Delimiters} {files : List (Text × List Text)}
    {outputs : List Output} {failure : Failure}
    (h : ChecksAll delimiters files outputs calls (.error failure)) :
    ∃ output first, Checks delimiters output first (.error failure) := by
  generalize hresult : Except.error failure = result at h
  induction h with
  | finished files => cases hresult
  | stopped files outputs hcheck =>
    cases hresult
    exact ⟨_, _, hcheck⟩
  | next hcheck later ih => exact ih hresult

end Looking

section Steps

variable {engine : Engine} {α β : Type} {x : ExceptT Failure Histories α}
  {f : α → ExceptT Failure Histories β}
  {calls : List Call} {result : Except Failure β}

/-- What follows a step is seen after it, unless the step fails. -/
theorem bind_seen (h : (x >>= f).run calls result) :
    (∃ failure, x.run calls (.error failure) ∧ result = .error failure) ∨
      ∃ first a rest, x.run first (.ok a) ∧ (f a).run rest result ∧ calls = first ++ rest := by
  obtain ⟨first, answer, rest, hx, hf, rfl⟩ := h
  cases answer with
  | error failure =>
    obtain ⟨rfl, rfl⟩ := hf
    rw [List.append_nil]
    exact .inl ⟨failure, hx, rfl⟩
  | ok a => exact .inr ⟨first, a, rest, hx, hf, rfl⟩

theorem lift_seen {x : Histories α} {result : Except Failure α}
    (h : (monadLift x : ExceptT Failure Histories α).run calls result) :
    ∃ a, x calls a ∧ result = .ok a := by
  obtain ⟨first, a, rest, hx, ⟨rfl, rfl⟩, rfl⟩ := h
  rw [List.append_nil]
  exact ⟨a, hx, rfl⟩

/-- A call is answered, and what follows it is seen after it. -/
theorem ask_bind_seen {call : α → Call}
    (h : ((monadLift (asking call) : ExceptT Failure Histories α) >>= f).run calls result) :
    ∃ answer rest, (f answer).run rest result ∧ calls = call answer :: rest := by
  rcases bind_seen h with ⟨failure, hfail, -⟩ | ⟨first, a, rest, hx, hf, rfl⟩
  · obtain ⟨a, -, hok⟩ := lift_seen hfail
    cases hok
  · obtain ⟨answer, hcall, hok⟩ := lift_seen hx
    cases hok
    cases hcall
    exact ⟨a, rest, hf, rfl⟩

/-- A call whose error ends the run. -/
theorem attempt_seen {activity : Activity} {path : Path} {call : Except IoError α → Call}
    {result : Except Failure α} (h : (attempt activity path (asking call)).run calls result) :
    (∃ a, result = .ok a ∧ calls = [call (.ok a)]) ∨
      ∃ cause, result = .error (.io activity path cause) ∧ calls = [call (.error cause)] := by
  obtain ⟨answer, rest, hanswer, rfl⟩ := ask_bind_seen h
  cases answer with
  | ok a =>
    obtain ⟨rfl, rfl⟩ := hanswer
    exact .inl ⟨a, rfl, rfl⟩
  | error cause =>
    obtain ⟨rfl, rfl⟩ := hanswer
    exact .inr ⟨cause, rfl, rfl⟩

/-- A note in the log is not seen. -/
theorem note_bind_seen {record : Record} {f : Unit → ExceptT Failure Histories β}
    (h : ((monadLift ((Workspace.any engine).note record) : ExceptT Failure Histories Unit) >>= f).run
      calls result) : (f ()).run calls result := by
  rcases bind_seen h with ⟨failure, hfail, -⟩ | ⟨first, a, rest, hx, hf, rfl⟩
  · obtain ⟨a, -, hok⟩ := lift_seen hfail
    cases hok
  · obtain ⟨a, ⟨rfl, -⟩, -⟩ := lift_seen hx
    exact hf

theorem notes_bind_seen {records : List Record} {f : Unit → ExceptT Failure Histories β}
    (h : ((records.forM fun record =>
      ((Workspace.any engine).note record : ExceptT Failure Histories Unit)) >>= f).run calls result) :
    (f ()).run calls result := by
  induction records with
  | nil =>
    rcases bind_seen h with ⟨failure, ⟨-, hfail⟩, -⟩ | ⟨first, a, rest, ⟨rfl, -⟩, hf, rfl⟩
    · cases hfail
    · exact hf
  | cons record records ih =>
    have hcons : ((monadLift ((Workspace.any engine).note record) : ExceptT Failure Histories Unit) >>=
      fun _ => (records.forM fun record =>
        ((Workspace.any engine).note record :
          ExceptT Failure Histories Unit)) >>= f).run calls result := by
      rw [← bind_assoc]
      exact h
    exact ih (note_bind_seen hcons)

end Steps

variable {engine : Engine} {job : Job} {store : Variables} {pattern : Glob.Pattern} {calls : List Call}

theorem loadVariables_seen {file : Path} {result : Except Failure Variables}
    (h : ((Workspace.any engine).loadVariables file).run calls result) : Loads file calls result := by
  obtain ⟨present, rest, hpresent, rfl⟩ := ask_bind_seen h
  cases present with
  | false =>
    obtain ⟨rfl, rfl⟩ := note_bind_seen hpresent
    exact .absent
  | true =>
    rcases bind_seen hpresent with ⟨failure, hread, rfl⟩ | ⟨first, content, last, hread, hparsed, rfl⟩
    · rcases attempt_seen hread with ⟨a, hok, -⟩ | ⟨cause, hfail, rfl⟩
      · cases hok
      · cases hfail
        exact .unreadable cause
    · rcases attempt_seen hread with ⟨a, hok, rfl⟩ | ⟨cause, hfail, -⟩
      · cases hok
        have hparsed := notes_bind_seen hparsed
        cases hparse : Variables.parse content with
        | error fault =>
          rw [hparse] at hparsed
          obtain ⟨rfl, rfl⟩ := hparsed
          exact .malformed hparse
        | ok store =>
          rw [hparse] at hparsed
          obtain ⟨rfl, rfl⟩ := note_bind_seen hparsed
          exact .loaded hparse
      · cases hfail

theorem listTemplates_seen {result : Except Failure (List Path)}
    (h : ((Workspace.any engine).listTemplates job pattern).run calls result) :
    Lists job pattern calls result := by
  obtain ⟨folder, rest, hfolder, rfl⟩ := ask_bind_seen h
  cases folder with
  | false =>
    obtain ⟨rfl, rfl⟩ := hfolder
    exact .noFolder
  | true =>
    rcases attempt_seen hfolder with ⟨templates, rfl, rfl⟩ | ⟨cause, rfl, rfl⟩
    · exact .listed templates
    · exact .unlistable cause

/-- A template is rendered, or it stops the run. -/
theorem renderFile_seen {template : Path} {result : Except Failure Output}
    (h : ((Workspace.any engine).renderFile job store template).run calls result) :
    (∃ failure, Stops job store template calls failure ∧ result = .error failure) ∨
      ∃ rendered : Rendered, rendered.template = template ∧
        calls = rendered.calls job store ∧ result = .ok (rendered.output job) := by
  unfold Workspace.renderFile at h
  cases hname : template.fileName? with
  | none =>
    rw [hname] at h
    obtain ⟨rfl, rfl⟩ := h
    exact .inl ⟨_, .nameless hname, rfl⟩
  | some name =>
    rw [hname] at h
    obtain ⟨read, rest, hread, rfl⟩ := ask_bind_seen h
    cases read with
    | error cause =>
      obtain ⟨rfl, rfl⟩ := note_bind_seen hread
      exact .inl ⟨_, .unreadable hname cause, rfl⟩
    | ok text =>
      obtain ⟨written, last, hwritten, rfl⟩ := ask_bind_seen hread
      cases written with
      | error cause =>
        obtain ⟨rfl, rfl⟩ := note_bind_seen hwritten
        exact .inl ⟨_, .unwritable hname text cause, rfl⟩
      | ok _ =>
        obtain ⟨rfl, rfl⟩ := note_bind_seen hwritten
        exact .inr ⟨⟨template, name, text, hname⟩, rfl, rfl, rfl⟩

/-- **Templates are rendered one after the other**, up to the first that stops the run. -/
theorem renderAll_seen {templates : List Path} {result : Except Failure (List Output)}
    (h : ((Workspace.any engine).renderAll job store templates).run calls result) :
    RendersAll job store templates calls result := by
  induction templates generalizing calls result with
  | nil =>
    obtain ⟨rfl, rfl⟩ := h
    exact .finished []
  | cons template templates ih =>
    rcases bind_seen h with ⟨failure, hfile, rfl⟩ | ⟨first, output, later, hfile, hlater, rfl⟩
    · rcases renderFile_seen hfile with ⟨_, hstop, hfail⟩ | ⟨rendered, -, -, hok⟩
      · cases hfail
        exact .stopped [] templates hstop
      · cases hok
    · rcases renderFile_seen hfile with ⟨_, -, hfail⟩ | ⟨rendered, rfl, rfl, hok⟩
      · cases hfail
      · cases hok
        rcases bind_seen hlater with
          ⟨failure, hall, rfl⟩ | ⟨more, outputs, last, hall, ⟨rfl, rfl⟩, rfl⟩
        · -- a later template stops the run
          cases ih hall with
          | stopped done rest hstop =>
            rw [← List.append_assoc]
            exact .stopped (rendered :: done) rest hstop
        · cases ih hall with
          | finished done =>
            rw [List.append_nil]
            exact .finished (rendered :: done)

theorem leftIn_seen {delimiters : Delimiters} {output : Output} {result : Except Failure (List Text)}
    (h : ((Workspace.any engine).leftIn delimiters output).run calls result) :
    Checks delimiters output calls result := by
  obtain ⟨present, rest, hpresent, rfl⟩ := ask_bind_seen h
  cases present with
  | false =>
    obtain ⟨rfl, rfl⟩ := note_bind_seen hpresent
    exact .gone
  | true =>
    rcases bind_seen hpresent with ⟨failure, hread, rfl⟩ | ⟨first, text, last, hread, ⟨rfl, rfl⟩, rfl⟩
    · rcases attempt_seen hread with ⟨a, hok, -⟩ | ⟨cause, hfail, rfl⟩
      · cases hok
      · cases hfail
        exact .unreadable cause
    · rcases attempt_seen hread with ⟨a, hok, rfl⟩ | ⟨cause, hfail, -⟩
      · cases hok
        exact .searched text
      · cases hfail

theorem verifyAll_seen {delimiters : Delimiters} {files : List (Text × List Text)}
    {outputs : List Output} {result : Except Failure (List (Text × List Text))}
    (h : ((Workspace.any engine).verifyAll delimiters files outputs).run calls result) :
    ChecksAll delimiters files outputs calls result := by
  induction outputs generalizing files calls with
  | nil =>
    obtain ⟨rfl, rfl⟩ := h
    exact .finished files
  | cons output outputs ih =>
    rcases bind_seen h with ⟨failure, hcheck, rfl⟩ | ⟨first, tokens, rest, hcheck, hrest, rfl⟩
    · exact .stopped files outputs (leftIn_seen hcheck)
    · refine .next (leftIn_seen hcheck) (ih ?_)
      -- what is left may be noted before the next output is checked
      cases tokens with
      | nil => exact hrest
      | cons token tokens => exact note_bind_seen hrest

/-- **A run has no other histories.** -/
theorem run_cases {result : Except Failure Report}
    (h : ((Workspace.any engine).run job).run calls result) :
    Runs engine job calls result := by
  unfold Workspace.run at h
  cases hpattern : Glob.Pattern.parse job.searchPattern with
  | error fault =>
    rw [hpattern] at h
    obtain ⟨rfl, rfl⟩ := h
    exact .badPattern hpattern
  | ok pattern =>
    rw [hpattern] at h
    cases hmatchers : engine.fault? job.delimiters with
    | some fault =>
      simp only [(show (Workspace.any engine).engine = engine from rfl), hmatchers] at h
      obtain ⟨rfl, rfl⟩ := h
      exact .unmatched hpattern hmatchers
    | none =>
    simp only [(show (Workspace.any engine).engine = engine from rfl), hmatchers] at h
    rcases bind_seen (note_bind_seen h) with
      ⟨failure, hloading, rfl⟩ | ⟨loading, store, _, hloading, hloaded, rfl⟩
    · exact .unloaded hpattern hmatchers (loadVariables_seen hloading)
    have hload := loadVariables_seen hloading
    rcases bind_seen (note_bind_seen hloaded) with
      ⟨failure, hlisting, rfl⟩ | ⟨listing, templates, _, hlisting, hlisted, rfl⟩
    · exact .unlisted hpattern hmatchers hload (listTemplates_seen hlisting)
    have survey := Surveys.found hpattern hmatchers hload (listTemplates_seen hlisting)
    rw [← List.append_assoc]
    rcases bind_seen (note_bind_seen hlisted) with
      ⟨failure, hmaking, rfl⟩ | ⟨making, _, _, hmaking, hmade, rfl⟩
    · rcases attempt_seen hmaking with ⟨_, hok, -⟩ | ⟨cause, hfail, rfl⟩
      · cases hok
      · cases hfail
        exact .unmade survey cause
    obtain rfl : making = [.createFolders job.outputFolder (.ok ())] := by
      rcases attempt_seen hmaking with ⟨_, -, rfl⟩ | ⟨cause, hfail, -⟩
      · rfl
      · cases hfail
    rw [List.singleton_append]
    rcases bind_seen hmade with
      ⟨failure, hrendering, rfl⟩ | ⟨rendering, outputs, _, hrendering, hrendered, rfl⟩
    · exact .unrendered survey (renderAll_seen hrendering)
    have hrender := renderAll_seen hrendering
    rcases bind_seen hrendered with
      ⟨failure, hchecking, rfl⟩ | ⟨checking, files, _, hchecking, hchecked, rfl⟩
    · exact .unverified survey hrender (verifyAll_seen hchecking)
    obtain ⟨rfl, rfl⟩ := note_bind_seen hchecked
    rw [List.append_nil]
    exact .reported survey hrender (verifyAll_seen hchecking)

/-- **What is watched of a run** is one of the histories of a run. -/
theorem Workspace.runs_history {σ : Type} (workspace : Workspace (StateM σ)) (job : Job) (state : σ) :
    Runs workspace.engine job (workspace.history job state).2
      ((workspace.run job).run.run state).1 := by
  rw [← workspace.history_result]
  exact run_cases (Workspace.run_seen (Trail.silent workspace) job state).1

end Stencil
