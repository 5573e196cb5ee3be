import Stencil.Keyed
import Stencil.Proofs.Halting

/-!
# What a report tells

A run writes all outputs before it checks the first. Its report is made of what the checks found,
so it tells what the workspace kept of the outputs, and not what was rendered.

* `Check`: an output that was looked for, and what was read back of it.
* `Report.ofChecks`: the report on some checks.
* `Finish`: what a run that succeeds has done.
* `Workspace.report_eq_ofChecks`: **the report tells what was read back**, file by file.
-/

namespace Stencil

/-- A check of an output. -/
structure Check where
  output : Output
  /-- What was read back, if the output was still there. -/
  found : Option Text

namespace Check

/-- The calls that it took. -/
def calls (check : Check) : List Call :=
  match check.found with
  | none => [.isPresent check.output.path false]
  | some text => [.isPresent check.output.path true, .readText check.output.path (.ok text)]

/-- The placeholders that were left in what was read back. -/
def tokens (delimiters : Delimiters) (check : Check) : List Text :=
  match check.found with
  | none => []
  | some text => delimiters.unresolved text

/-- The entry in the report. -/
def entry (delimiters : Delimiters) (check : Check) : Text × List Text :=
  (check.output.baseName, check.tokens delimiters)

end Check

namespace Report

/-- The placeholders by file, with those that the checks found. -/
def addChecks (delimiters : Delimiters) (files : List (Text × List Text)) (checks : List Check) :
    List (Text × List Text) :=
  checks.foldl (fun files check => addFile check.output.baseName (check.tokens delimiters) files) files

/-- The report on some checks. -/
def ofChecks (delimiters : Delimiters) (checks : List Check) : Report :=
  ⟨checks.length, addChecks delimiters [] checks⟩

variable {delimiters : Delimiters} {files : List (Text × List Text)} {checks : List Check}

/-- A file of a new name is added to the others. -/
theorem addFile_perm {name : Text} (tokens : List Text) (hnew : name ∉ files.map Prod.fst) :
    (addFile name tokens files).Perm ((name, tokens) :: files) := by
  apply insertBy_perm
  intro file hfile
  cases hbefore : Text.before name file.1 with
  | true => exact .inl rfl
  | false =>
    cases hafter : Text.before file.1 name with
    | true => exact .inr rfl
    | false =>
      have hname : name = file.1 := Text.eq_of_not_before hbefore hafter
      exact absurd (hname ▸ List.mem_map_of_mem hfile) hnew

/-- **Every check gives an entry, and there are no others**, if no two files have one name. -/
theorem addChecks_perm
    (hnodup : (checks.map (fun check => check.output.baseName) ++ files.map Prod.fst).Nodup) :
    (addChecks delimiters files checks).Perm (checks.map (Check.entry delimiters) ++ files) := by
  induction checks generalizing files with
  | nil => exact .refl _
  | cons check checks ih =>
    rw [List.map_cons, List.cons_append, List.nodup_cons, List.mem_append, not_or] at hnodup
    obtain ⟨⟨hother, hnew⟩, hnodup⟩ := hnodup
    have hadd : (addFile check.output.baseName (check.tokens delimiters) files).Perm
        (check.entry delimiters :: files) := addFile_perm _ hnew
    have hnames : (checks.map (fun check => check.output.baseName) ++
        (addFile check.output.baseName (check.tokens delimiters) files).map Prod.fst).Nodup := by
      have hperm := (hadd.map Prod.fst).append_left (checks.map fun check => check.output.baseName)
      rw [hperm.nodup_iff, List.map_cons, List.perm_middle.nodup_iff, List.nodup_cons,
        List.mem_append, not_or]
      exact ⟨⟨hother, hnew⟩, hnodup⟩
    exact (ih hnames).trans ((hadd.append_left _).trans List.perm_middle)

/-- The entries come in the order of their names. -/
theorem addChecks_pairwise (h : files.Pairwise fun a b => Text.before a.1 b.1 = true) :
    (addChecks delimiters files checks).Pairwise fun a b => Text.before a.1 b.1 = true := by
  induction checks generalizing files with
  | nil => exact h
  | cons check checks ih => exact ih (pairwise_insertBy_text Prod.fst h)

end Report

section Checking

variable {engine : Engine} {job : Job} {store : Variables} {delimiters : Delimiters} {output : Output}
  {outputs : List Output} {calls : List Call}

/-- A check that does not fail finds something, or finds nothing there. -/
theorem Checks.exists_check {tokens : List Text} (h : Checks delimiters output calls (.ok tokens)) :
    ∃ check : Check, check.output = output ∧ check.calls = calls ∧
      check.tokens delimiters = tokens := by
  cases h with
  | gone => exact ⟨⟨output, none⟩, rfl, rfl, rfl⟩
  | searched text => exact ⟨⟨output, some text⟩, rfl, rfl, rfl⟩

/-- **Checks that do not fail** are one for each output, in their order. -/
theorem ChecksAll.exists_checks {files left : List (Text × List Text)}
    (h : ChecksAll delimiters files outputs calls (.ok left)) :
    ∃ checks : List Check, checks.map Check.output = outputs ∧
      checks.flatMap Check.calls = calls ∧ left = Report.addChecks delimiters files checks := by
  generalize hresult : Except.ok left = result at h
  induction h with
  | finished files =>
    cases hresult
    exact ⟨[], rfl, rfl, rfl⟩
  | stopped files outputs hcheck => cases hresult
  | next hcheck later ih =>
    obtain ⟨check, rfl, rfl, rfl⟩ := hcheck.exists_check
    obtain ⟨checks, rfl, rfl, hleft⟩ := ih hresult
    exact ⟨check :: checks, rfl, rfl, hleft⟩

/-- A check only looks. -/
theorem Check.mutates_nil (check : Check) : check.calls.filter Call.mutates = [] := by
  unfold Check.calls
  cases check.found <;> rfl

/-- Rendering lists nothing. -/
theorem Rendered.not_mem_calls (rendered : Rendered) (folder : Path) (pattern : Glob.Pattern)
    (answer : Except IoError (List Path)) :
    Call.listFiles folder pattern answer ∉ rendered.calls job store := by
  simp [Rendered.calls, Rendered.write]

/-- A check lists nothing. -/
theorem Check.not_mem_calls (check : Check) (folder : Path) (pattern : Glob.Pattern)
    (answer : Except IoError (List Path)) : Call.listFiles folder pattern answer ∉ check.calls := by
  unfold Check.calls
  cases check.found <;> simp

/-- What a survey lists are the templates. -/
theorem Surveys.eq_of_listed {pattern : Glob.Pattern} {templates : List Path}
    (h : Surveys engine job pattern store templates calls) {folder : Path} {other : Glob.Pattern}
    {listing : List Path} (hmem : Call.listFiles folder other (.ok listing) ∈ calls) :
    listing = templates := by
  cases h with
  | found hpattern hmatchers hload hlist =>
    rcases List.mem_append.1 hmem with hmem | hmem
    · cases hload <;> simp at hmem
    · cases hlist with
      | listed templates =>
        rw [List.mem_cons, List.mem_singleton] at hmem
        rcases hmem with hmem | hmem <;> cases hmem
        rfl

end Checking

/-- The base name of the file at the end of the path, by which a report calls it. -/
def Path.baseName? (path : Path) : Option Text := path.fileName?.map Utf8.decodeLossy

/-- What a run has done that succeeds. -/
structure Finish (engine : Engine) (job : Job) (calls : List Call) where
  pattern : Glob.Pattern
  /-- The variables that were loaded. -/
  store : Variables
  /-- The calls before the output folder was made. -/
  looking : List Call
  /-- The templates that were rendered. -/
  done : List Rendered
  /-- The checks of the outputs. -/
  checks : List Check
  survey : Surveys engine job pattern store (done.map Rendered.template) looking
  /-- Every output is checked, in the order in which they were written. -/
  checked : checks.map Check.output = done.map (Rendered.output job)
  /-- These are all the calls. The checks come last. -/
  history : calls = looking ++ .createFolders job.outputFolder (.ok ()) ::
    (done.flatMap (Rendered.calls job store) ++ checks.flatMap Check.calls)

namespace Finish

variable {engine : Engine} {job : Job} {calls : List Call} (finish : Finish engine job calls)

/-- The templates that were listed. -/
def listing : List Path := finish.done.map Rendered.template

/-- A run lists files only once. -/
theorem eq_listing {folder : Path} {pattern : Glob.Pattern} {templates : List Path}
    (hmem : Call.listFiles folder pattern (.ok templates) ∈ calls) : templates = finish.listing := by
  rw [finish.history] at hmem
  rcases List.mem_append.1 hmem with hmem | hmem
  · exact finish.survey.eq_of_listed hmem
  rcases List.mem_cons.1 hmem with hmem | hmem
  · cases hmem
  rcases List.mem_append.1 hmem with hmem | hmem
  · obtain ⟨rendered, -, hmem⟩ := List.mem_flatMap.1 hmem
    exact absurd hmem (rendered.not_mem_calls _ _ _)
  · obtain ⟨check, -, hmem⟩ := List.mem_flatMap.1 hmem
    exact absurd hmem (check.not_mem_calls _ _ _)

theorem length_checks : finish.checks.length = finish.listing.length := by
  have hlength := congrArg List.length finish.checked
  rwa [List.length_map, List.length_map, ← List.length_map Rendered.template] at hlength

/-- The checks are of the files whose names the templates have. -/
theorem names_checks : (finish.checks.map fun check => check.output.name).map some =
    finish.listing.map Path.fileName? := by
  have hnames : finish.checks.map (fun check => check.output.name) =
      finish.done.map Rendered.name := by
    have hmap := congrArg (List.map Output.name) finish.checked
    rwa [List.map_map, List.map_map] at hmap
  rw [hnames, listing, List.map_map, List.map_map]
  exact List.map_congr_left fun rendered _ => rendered.named.symm

/-- So they are called by the base names of the templates. -/
theorem baseNames_checks : (finish.checks.map fun check => check.output.baseName).map some =
    finish.listing.map Path.baseName? := by
  have hnames := congrArg (List.map (Option.map Utf8.decodeLossy)) finish.names_checks
  rw [List.map_map, List.map_map, List.map_map] at hnames
  rw [List.map_map]
  exact hnames

/-- An output is at its name in the output folder. -/
theorem output_eq {check : Check} (hcheck : check ∈ finish.checks) :
    check.output = ⟨check.output.name, job.outputFolder.join ⟨check.output.name⟩⟩ := by
  have houtput : check.output ∈ finish.done.map (Rendered.output job) :=
    finish.checked ▸ List.mem_map_of_mem hcheck
  obtain ⟨rendered, -, hrendered⟩ := List.mem_map.1 houtput
  rw [← hrendered]
  rfl

/-- Checking changes nothing. -/
theorem checks_mutates_nil : (finish.checks.flatMap Check.calls).filter Call.mutates = [] := by
  rw [List.filter_flatMap, List.flatMap_eq_nil_iff]
  exact fun check _ => check.mutates_nil

end Finish

/-- A history that ends in a report is that of a run that succeeds. Its report is the one on what
its checks found. -/
theorem Runs.exists_finish {engine : Engine} {job : Job} {calls : List Call} {report : Report}
    (h : Runs engine job calls (.ok report)) :
    ∃ finish : Finish engine job calls, report = Report.ofChecks job.delimiters finish.checks := by
  cases h with
  | reported survey hrender hcheck =>
    cases hrender with
    | finished done =>
      obtain ⟨checks, hchecked, rfl, rfl⟩ := hcheck.exists_checks
      refine ⟨⟨_, _, _, done, checks, survey, hchecked, rfl⟩, ?_⟩
      rw [Report.ofChecks, ← hchecked, List.length_map]

/-- **The report tells what was read back**, in whatever workspace the job runs, if the templates
have different base names.

All checks come after the last change, and change nothing. The report is a function of what they
found; what was rendered has no part in it. It has an entry for every template, in the order of the
base names and with none twice, and the entry is what was left in the text that was read back, or
nothing where the output was gone. -/
theorem Workspace.report_eq_ofChecks {σ : Type} (workspace : Workspace (StateM σ)) (job : Job)
    (state : σ) {report : Report} {folder : Path} {pattern : Glob.Pattern} {templates : List Path}
    (hrun : ((workspace.run job).run.run state).1 = .ok report)
    (hlist : .listFiles folder pattern (.ok templates) ∈ (workspace.history job state).2)
    (hdistinct : (templates.map Path.baseName?).Nodup) :
    ∃ finish : Finish workspace.engine job (workspace.history job state).2,
      templates = finish.listing ∧
      (finish.checks.flatMap Check.calls).filter Call.mutates = [] ∧
      report = Report.ofChecks job.delimiters finish.checks ∧
      report.filesProcessed = templates.length ∧
      ((report.unresolved.map Prod.fst).map some).Perm (templates.map Path.baseName?) ∧
      (report.unresolved.Pairwise fun a b => Text.before a.1 b.1 = true) ∧
      ∀ name, some name ∈ templates.map Path.fileName? → ∃ check ∈ finish.checks,
        check.output = ⟨name, job.outputFolder.join ⟨name⟩⟩ ∧
          report.unresolved.lookup (Utf8.decodeLossy name) =
            some (check.tokens job.delimiters) := by
  have hruns := workspace.runs_history job state
  rw [hrun] at hruns
  obtain ⟨finish, rfl⟩ := hruns.exists_finish
  obtain rfl := finish.eq_listing hlist
  have hnodup : (finish.checks.map fun check => check.output.baseName).Nodup := by
    rw [← finish.baseNames_checks] at hdistinct
    exact List.Pairwise.of_map some (fun a b hne heq => hne (congrArg some heq)) hdistinct
  have hperm : (Report.ofChecks job.delimiters finish.checks).unresolved.Perm
      (finish.checks.map (Check.entry job.delimiters)) := by
    rw [← List.append_nil (finish.checks.map _)]
    exact Report.addChecks_perm (by simpa using hnodup)
  have hkeys : ((Report.ofChecks job.delimiters finish.checks).unresolved.map Prod.fst).Perm
      (finish.checks.map fun check => check.output.baseName) := by
    have hmap := hperm.map Prod.fst
    rwa [List.map_map] at hmap
  refine ⟨finish, rfl, finish.checks_mutates_nil, rfl, finish.length_checks, ?_,
    Report.addChecks_pairwise .nil, fun name hname => ?_⟩
  · rw [← finish.baseNames_checks]
    exact hkeys.map some
  · rw [← finish.names_checks, List.mem_map] at hname
    obtain ⟨_, hname, hsome⟩ := hname
    cases hsome
    obtain ⟨check, hcheck, rfl⟩ := List.mem_map.1 hname
    refine ⟨check, hcheck, finish.output_eq hcheck, ?_⟩
    apply lookup_eq_some_of_mem (hkeys.nodup_iff.2 hnodup)
    exact hperm.mem_iff.2 (List.mem_map_of_mem hcheck)

/-- Where `b` has vanished and something is added to every output, the report tells of both. -/
theorem Workspace.report_eq_ofChecks_letters :
    let altered := (Desk.workspace .unbounded).withFaults
      { hidden := fun path => path == .ofText ['o', '/', 'b']
        appended := fun _ => Delimiters.standard.plain.wrap ['X'] }
    let left := [Delimiters.standard.plain.wrap ['X']]
    let templates : List Path :=
      [.ofText ['t', '/', 'a'], .ofText ['t', '/', 'b'], .ofText ['t', '/', 'c']]
    let report : Report := ⟨3, [(['a'], left), (['b'], []), (['c'], left)]⟩
    ((altered.run Desk.lettersJob).run.run Desk.letters).1 = .ok report ∧
      (templates.map Path.baseName?).Nodup ∧
      ∃ finish : Finish .unbounded Desk.lettersJob (altered.history Desk.lettersJob Desk.letters).2,
        templates = finish.listing ∧ report = Report.ofChecks .standard finish.checks := by
  intro altered left templates report
  have hrun : ((altered.run Desk.lettersJob).run.run Desk.letters).1 = .ok report := by
    decide +kernel
  have hdistinct : (templates.map Path.baseName?).Nodup := by decide +kernel
  have hlist : .listFiles (.ofText ['t']) ⟨[.anyRun]⟩ (.ok templates) ∈
      (altered.history Desk.lettersJob Desk.letters).2 := by
    decide +kernel
  obtain ⟨finish, hlisting, -, hreport, -⟩ :=
    altered.report_eq_ofChecks Desk.lettersJob Desk.letters hrun hlist hdistinct
  exact ⟨hrun, hdistinct, finish, hlisting, hreport⟩

end Stencil
