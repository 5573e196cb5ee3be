import Stencil.Proofs.Listing
import Stencil.Proofs.Search
import Stencil.Proofs.Watched

/-!
# What a report says about the files

The outputs of a run are the files it has written, and its report has the placeholders that are in
them when the run ends.

* `Scene.renderAll_written`: the outputs are what was written.
* `Desk.leftAt`: the placeholders in a file.
* `Scene.verifyAll_files`: every output is in the report, with those left in it.
* `Scene.run_hasUnresolved_iff`: **the report tells the truth** about the written files.
-/

namespace Stencil

namespace Desk

/-- The placeholders in a file. -/
def leftAt (desk : Desk) (delimiters : Delimiters) (path : Path) : List Text :=
  match desk.disk.readBytes desk.folder path with
  | .ok content => delimiters.unresolved (Storage.textOf content)
  | .error _ => []

theorem SameFiles.leftAt_eq {desk other : Desk} (h : desk.SameFiles other)
    (delimiters : Delimiters) (path : Path) :
    desk.leftAt delimiters path = other.leftAt delimiters path := by
  unfold leftAt
  rw [h.disk, h.folder]

theorem leftAt_of_holds {desk : Desk} {delimiters : Delimiters} {path : Path} {text : Text}
    (h : desk.Holds path text) :
    desk.leftAt delimiters path = delimiters.unresolved text.dropMark := by
  unfold leftAt
  rw [h]
  show delimiters.unresolved (Storage.textOf (Utf8.encode text)) = _
  rw [Storage.textOf, Utf8.decodeLossy_encode]

end Desk

namespace Scene

open Watched Desk

variable {engine : Engine} {scene after : Scene} {job : Job} {delimiters : Delimiters}

theorem still_of_alike {α : Type} {x y : ExceptT Failure Watched α} {result : Except Failure α}
    (like : stillness.AlikeOrFail x y) (h : play x.run scene = (result, after)) :
    scene.Still after := by
  have hstill := like scene
  rwa [h] at hstill

theorem still_log {level : Level} {topic : Topic} {parts : List Text} {result : Except Failure Unit}
    (h : play ((workspace engine).traced.log level topic parts).run scene = (result, after)) :
    scene.Still after :=
  still_of_alike (Likeness.log_alike still_looks level topic parts) h

/-- A template that is rendered is written to the output folder, under its own name. -/
theorem renderFile_written {store : Variables} {template : Path} {output : Output}
    (h : play ((workspace engine).traced.renderFile job store template).run scene =
      (.ok output, after)) :
    after.written = scene.written ++ [output.path] ∧ template.fileName? = some output.name ∧
      output.path = job.outputFolder.join ⟨output.name⟩ := by
  unfold Workspace.renderFile at h
  cases hname : template.fileName? with
  | none =>
    rw [hname] at h
    cases h
  | some name =>
    rw [hname] at h
    obtain ⟨answer, read, hread, h⟩ := play_bind_ok h
    have hstill := still_of_alike (Likeness.lift_alike (still_looks.readText template)) hread
    cases answer with
    | error cause =>
      -- what cannot be read is logged, and ends the run
      obtain ⟨_, _, _, h⟩ := play_bind_ok h
      cases h
    | ok text =>
      obtain ⟨answer, written, hwrite, h⟩ := play_bind_ok h
      cases answer with
      | error cause =>
        obtain ⟨_, _, _, h⟩ := play_bind_ok h
        cases h
      | ok _ =>
        obtain ⟨_, logged, hlog, h⟩ := play_bind_ok h
        cases h
        have hstill' := still_log hlog
        rcases writeText_cases (play_lift_ok hwrite) with ⟨-, hwritten, -, -⟩ | ⟨⟨cause, hcause⟩, -⟩
        · refine ⟨?_, rfl, rfl⟩
          rw [hstill'.written, hwritten, hstill.written]
        · cases hcause

/-- **The outputs are what was written.** -/
theorem renderAll_written {store : Variables} {templates : List Path} {outputs : List Output}
    (h : play ((workspace engine).traced.renderAll job store templates).run scene =
      (.ok outputs, after)) :
    after.written = scene.written ++ outputs.map Output.path ∧
      (∀ output ∈ outputs, output.path = job.outputFolder.join ⟨output.name⟩) ∧
      ∀ output ∈ outputs, ∃ template ∈ templates, template.fileName? = some output.name := by
  induction templates generalizing scene outputs with
  | nil =>
    cases h
    simp
  | cons template templates ih =>
    obtain ⟨output, between, hfile, h⟩ := play_bind_ok h
    obtain ⟨outputs, last, hfiles, h⟩ := play_bind_ok h
    cases h
    obtain ⟨hwritten, hname, hpath⟩ := renderFile_written hfile
    obtain ⟨hwritten', hpaths, hnames⟩ := ih hfiles
    refine ⟨?_, List.forall_mem_cons.2 ⟨hpath, hpaths⟩, List.forall_mem_cons.2 ⟨?_, ?_⟩⟩
    · rw [hwritten', hwritten]
      simp
    · exact ⟨template, List.mem_cons_self, hname⟩
    · intro other hother
      obtain ⟨source, hsource, hname⟩ := hnames other hother
      exact ⟨source, List.mem_cons_of_mem template hsource, hname⟩

/-- An output that can be read is searched for what is left in it. -/
theorem leftIn_tokens {output : Output} {tokens : List Text} {text : Text}
    (h : play ((workspace engine).traced.leftIn delimiters output).run scene = (.ok tokens, after))
    (holds : scene.desk.Holds output.path text) :
    tokens = scene.desk.leftAt delimiters output.path := by
  obtain ⟨present, looked, hpresent, h⟩ := play_bind_ok h
  have hstill := still_of_alike (Likeness.lift_alike (still_looks.isPresent _)) hpresent
  have hthere : present = true := by
    rw [answer_recorded (does_isPresent engine _) (play_lift_ok hpresent)]
    exact Disk.isPresent_of_readBytes holds
  subst hthere
  obtain ⟨read, last, hread, h⟩ := play_bind_ok h
  cases h
  have htext := answer_recorded (does_readText engine _) (play_attempt_ok hread)
  rw [textAt, hstill.files.disk, hstill.files.folder, holds] at htext
  cases htext
  rw [leftAt, holds]

/-- **Every output is in the report**, with the placeholders that are left in it. -/
theorem verifyAll_files {left : Text → List Text} {outputs : List Output}
    {files reported : List (Text × List Text)}
    (h : play ((workspace engine).traced.verifyAll delimiters files outputs).run scene =
      (.ok reported, after))
    (hfiles : ∀ file ∈ files, file.2 = left file.1)
    (holds : ∀ output ∈ outputs, ∃ text, scene.desk.Holds output.path text)
    (hleft : ∀ output ∈ outputs, scene.desk.leftAt delimiters output.path = left output.baseName)
    (file : Text × List Text) :
    file ∈ reported ↔
      file ∈ files ∨ ∃ output ∈ outputs, file = (output.baseName, left output.baseName) := by
  induction outputs generalizing scene files with
  | nil =>
    cases h
    simp
  | cons output outputs ih =>
    obtain ⟨tokens, looked, hlook, h⟩ := play_bind_ok h
    obtain ⟨text, htext⟩ := holds output (by simp)
    have htokens : tokens = left output.baseName :=
      (leftIn_tokens hlook htext).trans (hleft output (by simp))
    have hstill : scene.Still looked := still_of_alike (Likeness.leftIn_alike still_looks _ _) hlook
    -- what is logged in between changes no file
    obtain ⟨next, hnext, h⟩ : ∃ next, looked.Still next ∧
        play ((workspace engine).traced.verifyAll delimiters
          (Report.addFile output.baseName tokens files) outputs).run next = (.ok reported, after) := by
      cases tokens with
      | nil => exact ⟨looked, .refl looked, h⟩
      | cons token tokens =>
        obtain ⟨_, logged, hlog, h⟩ := play_bind_ok h
        exact ⟨logged, still_log hlog, h⟩
    subst htokens
    have hstill := hstill.trans hnext
    have hadded : ∀ file, file ∈ Report.addFile output.baseName (left output.baseName) files ↔
        file = (output.baseName, left output.baseName) ∨ file ∈ files := fun _ =>
      Report.mem_addFile_iff hfiles
    rw [ih h, hadded]
    · simp only [List.exists_mem_cons_iff, or_assoc, or_left_comm]
    · intro file hfile
      rcases (hadded file).1 hfile with rfl | hfile
      · rfl
      · exact hfiles file hfile
    · intro other hother
      obtain ⟨text, htext⟩ := holds other (List.mem_cons_of_mem _ hother)
      exact ⟨text, hstill.files.holds_iff.2 htext⟩
    · intro other hother
      rw [hstill.files.leftAt_eq]
      exact hleft other (List.mem_cons_of_mem _ hother)

/-- The templates that a run comes to are those that the disk lists. -/
theorem listTemplates_files {pattern : Glob.Pattern} {templates : List Path}
    (h : play ((workspace engine).traced.listTemplates job pattern).run scene =
      (.ok templates, after)) :
    filesAt job.templateFolder pattern scene.desk.disk scene.desk.folder = .ok templates := by
  obtain ⟨folder, looked, hfolder, h⟩ := play_bind_ok h
  have hstill := still_of_alike (Likeness.lift_alike (still_looks.isFolder _)) hfolder
  cases folder with
  | false => cases h
  | true =>
    have hlist := answer_recorded (does_listFiles engine _ _) (play_attempt_ok h)
    rw [hlist, hstill.files.disk, hstill.files.folder]

/-- The stages of a run that comes to a report: it looks around, makes the output folder, renders
the templates and verifies the outputs. -/
structure Stages (engine : Engine) (job : Job) (scene after : Scene) (report : Report) where
  pattern : Glob.Pattern
  store : Variables
  templates : List Path
  outputs : List Output
  looked : Scene
  made : Scene
  rendered : Scene
  verified : Scene
  lists : filesAt job.templateFolder pattern scene.desk.disk scene.desk.folder = .ok templates
  still_looked : scene.Still looked
  makes : play ((workspace engine).traced.createFolders job.outputFolder) looked = (.ok (), made)
  renders : play ((workspace engine).traced.renderAll job store templates).run made =
    (.ok outputs, rendered)
  verifies : play ((workspace engine).traced.verifyAll job.delimiters [] outputs).run rendered =
    (.ok report.unresolved, verified)
  still_verified : verified.Still after

/-- A run that comes to a report has read its pattern and built its matchers. -/
theorem exists_runWith {report : Report}
    (h : play ((workspace engine).traced.run job).run scene = (.ok report, after)) :
    ∃ pattern, play ((workspace engine).traced.runWith job pattern).run scene =
      (.ok report, after) := by
  have hengine : (workspace engine).traced.engine = engine := rfl
  unfold Workspace.run at h
  rw [hengine] at h
  cases hpattern : Glob.Pattern.parse job.searchPattern with
  | error fault =>
    rw [hpattern] at h
    cases h
  | ok pattern =>
    cases hmatchers : engine.fault? job.delimiters with
    | some fault =>
      rw [hpattern, hmatchers] at h
      cases h
    | none =>
      rw [hpattern, hmatchers] at h
      exact ⟨pattern, h⟩

theorem exists_stages {report : Report}
    (h : play ((workspace engine).traced.run job).run scene = (.ok report, after)) :
    Nonempty (Stages engine job scene after report) := by
  obtain ⟨pattern, h⟩ := exists_runWith h
  obtain ⟨_, s₁, h₁, h⟩ := play_bind_ok h
  obtain ⟨store, s₂, h₂, h⟩ := play_bind_ok h
  obtain ⟨_, s₃, h₃, h⟩ := play_bind_ok h
  obtain ⟨templates, s₄, h₄, h⟩ := play_bind_ok h
  obtain ⟨_, looked, h₅, h⟩ := play_bind_ok h
  obtain ⟨_, made, hmake, h⟩ := play_bind_ok h
  obtain ⟨outputs, rendered, hrender, h⟩ := play_bind_ok h
  obtain ⟨files, verified, hverify, h⟩ := play_bind_ok h
  obtain ⟨_, last, hlog, h⟩ := play_bind_ok h
  cases h
  have hloaded : scene.Still s₃ :=
    (still_log h₁).trans <|
    (still_of_alike (Likeness.loadVariables_alike still_looks _) h₂).trans <|
    still_log h₃
  have hlooked : scene.Still looked :=
    hloaded.trans <|
    (still_of_alike (Likeness.listTemplates_alike still_looks _ _) h₄).trans <|
    still_log h₅
  have hlists := listTemplates_files h₄
  rw [hloaded.files.disk, hloaded.files.folder] at hlists
  exact ⟨⟨pattern, store, templates, outputs, looked, made, rendered, verified, hlists, hlooked,
    play_attempt_ok hmake, hrender, hverify, still_log hlog⟩⟩

namespace Stages

variable {report : Report} (stages : Stages engine job scene after report)
include stages

/-- Once the templates are rendered all is still. -/
theorem still_rendered : stages.rendered.Still after :=
  (still_of_alike (Likeness.verifyAll_alike still_looks _ _ _) stages.verifies).trans
    stages.still_verified

theorem written_eq (fresh : scene.written = []) :
    after.written = stages.outputs.map Output.path := by
  have hmade := written_createFolders engine job.outputFolder stages.looked
  rw [stages.makes] at hmade
  rw [stages.still_rendered.written, (renderAll_written stages.renders).1, hmade,
    stages.still_looked.written, fresh, List.nil_append]

theorem legible_rendered (legible : scene.Legible) : stages.rendered.Legible := by
  have hmade := legible_createFolders engine job.outputFolder (stages.still_looked.legible legible)
  rw [stages.makes] at hmade
  have hanswers : legibility.Answers (workspace engine).traced (workspace engine).traced :=
    legible_answers
  have hrendered := Likeness.renderAll_alike hanswers job stages.store stages.templates
    stages.made hmade
  rwa [stages.renders] at hrendered

/-- In a tree, the base name of an output is its name. -/
theorem encode_baseName (tree : scene.desk.disk.IsTree) :
    ∀ output ∈ stages.outputs, Utf8.encode output.baseName = output.name := by
  intro output houtput
  obtain ⟨template, htemplate, hname⟩ := (renderAll_written stages.renders).2.2 output houtput
  obtain ⟨text, htext⟩ := exists_text_of_filesAt tree stages.lists template htemplate
  have hsame : output.name = Utf8.encode text := Option.some.inj (hname.symm.trans htext)
  rw [Output.baseName, hsame, Utf8.decodeLossy_encode]

end Stages

/-- **The report tells the truth**: it says that something is left exactly if something is left in
a file that was written. -/
theorem run_hasUnresolved_iff {report : Report} (tree : scene.desk.disk.IsTree)
    (fresh : scene.written = [])
    (h : play ((workspace engine).traced.run job).run scene = (.ok report, after)) :
    report.hasUnresolved = true ↔
      ∃ path ∈ after.written, after.desk.leftAt job.delimiters path ≠ [] := by
  obtain ⟨stages⟩ := exists_stages h
  have hwritten := stages.written_eq fresh
  obtain ⟨-, hpaths, -⟩ := renderAll_written stages.renders
  have hlegible := stages.legible_rendered ⟨tree.plain, fun path hpath => by simp [fresh] at hpath⟩
  -- outputs of one base name are one file, so what is left in an output goes by its base name
  obtain ⟨left, hleft⟩ : ∃ left : Text → List Text, ∀ name, left name =
      after.desk.leftAt job.delimiters (job.outputFolder.join (.ofText name)) := ⟨_, fun _ => rfl⟩
  have houtput : ∀ output ∈ stages.outputs,
      after.desk.leftAt job.delimiters output.path = left output.baseName := by
    intro output houtput
    rw [hleft, hpaths output houtput, Path.ofText, stages.encode_baseName tree output houtput]
  have hholds : ∀ output ∈ stages.outputs, ∃ text, stages.rendered.desk.Holds output.path text := by
    intro output houtput
    refine hlegible.holds _ ?_
    rw [← stages.still_rendered.written, hwritten]
    exact List.mem_map_of_mem houtput
  have hfiles : ∀ file, file ∈ report.unresolved ↔
      ∃ output ∈ stages.outputs, file = (output.baseName, left output.baseName) := by
    intro file
    have hverified := verifyAll_files stages.verifies (by simp) hholds
      (fun output hmem => by rw [← stages.still_rendered.files.leftAt_eq, houtput output hmem]) file
    simpa using hverified
  rw [Report.hasUnresolved_iff, hwritten]
  constructor
  · rintro ⟨file, hfile, hne⟩
    obtain ⟨output, hmem, rfl⟩ := (hfiles file).1 hfile
    refine ⟨output.path, List.mem_map_of_mem hmem, ?_⟩
    rw [houtput output hmem]
    exact hne
  · rintro ⟨path, hpath, hne⟩
    obtain ⟨output, hmem, rfl⟩ := List.mem_map.1 hpath
    refine ⟨_, (hfiles _).2 ⟨output, hmem, rfl⟩, ?_⟩
    rw [houtput output hmem] at hne
    exact hne

end Scene

end Stencil
