import Stencil.Proofs.Decoding
import Stencil.Proofs.FolderMaking
import Stencil.Proofs.Listing
import Stencil.Proofs.Replay
import Stencil.Proofs.RunHistory

/-!
# What a run leaves on the disk

Templates are read and outputs written in turn, and both can be in one folder. No output is put in
the place of a template still to be read: it has the name of the one that was just read.

* `Rendered.put_of_replays`: rendering a template puts one file.
* `Rendered.outputs_of_replays`: **rendering templates changes exactly their outputs.**
* `Desk.run_outputs`: **a run that succeeds changes exactly the outputs**, and makes the folders on
  the way to them.
-/

namespace Stencil

variable {engine : Engine} {job : Job} {store : Variables} {folder source target : Disk.Location}
  {disk after : Disk}

theorem Desk.textAt_eq_ok_iff {file : Path} {text : Text} :
    Desk.textAt file disk folder = .ok text ↔
      ∃ content, disk.readBytes folder file = .ok content ∧ Storage.textOf content = text := by
  unfold Desk.textAt
  cases disk.readBytes folder file with
  | error cause => simp [Except.map]
  | ok content => simp [Except.map]

theorem Desk.writing_eq_ok {path : Path} {text : Text}
    (h : (.ok (), after) = Desk.writing path text disk folder) :
    disk.writeBytes folder path (Utf8.encode text) = .ok after := by
  unfold Desk.writing at h
  split at h
  · next hwrite =>
    cases h
    exact hwrite
  · cases h

namespace Rendered

/-- **Rendering a template puts one file.** It is the output, at the name of the template, where its
path leads. -/
theorem put_of_replays (plain : disk.Plain) (hsource : disk.Denotes folder job.templateFolder source)
    (htarget : disk.Denotes folder job.outputFolder target) {rendered : Rendered}
    (htemplate : rendered.template = job.templateFolder.join ⟨rendered.name⟩)
    (h : Replays folder disk (rendered.calls job store) after) :
    ∃ content text, disk.node? (rendered.name :: source) = some (.file content) ∧
      Storage.Decodes content text ∧ disk.KeepsRoutes after ∧
      after.locate .find folder (job.outputFolder.join ⟨rendered.name⟩) =
        .ok (rendered.name :: target) ∧
      after = disk.put (rendered.name :: target)
        (.file (Utf8.encode (job.delimiters.render store text))) := by
  have hname : rendered.name.IsFileName := Path.isFileName_of_fileName? rendered.named
  cases h with
  | cons hread hlater =>
    obtain ⟨hread, rfl⟩ := hread
    cases hlater with
    | cons hwrite hdone =>
      cases hdone
      obtain ⟨content, hcontent, htext⟩ := Desk.textAt_eq_ok_iff.1 hread.symm
      obtain ⟨place, hplace, hfile⟩ := Disk.readBytes_eq_ok_iff.1 hcontent
      rw [htemplate] at hplace
      obtain rfl := Disk.eq_of_locate_join plain hsource hname hplace
      obtain ⟨place, hplace, hfree, rfl⟩ := Disk.writeBytes_eq_ok (Desk.writing_eq_ok hwrite)
      obtain rfl := Disk.eq_of_locate_join plain htarget hname hplace
      exact ⟨content, rendered.text, hfile, Storage.decodes_iff.2 htext,
        Disk.keepsRoutes_put plain (by simp) hfree,
        Disk.locate_put plain (by simp) hfree (.inr rfl) hplace, rfl⟩

/-- **Rendering templates changes exactly their outputs**, if the templates have different names:
each output is rendered from what the template was before, also where an output is put in the place
of a template. -/
theorem outputs_of_replays {done : List Rendered} (plain : disk.Plain)
    (hsource : disk.Denotes folder job.templateFolder source)
    (htarget : disk.Denotes folder job.outputFolder target)
    (hnodup : (done.map Rendered.name).Nodup)
    (htemplates : ∀ rendered ∈ done,
      rendered.template = job.templateFolder.join ⟨rendered.name⟩)
    (h : Replays folder disk (done.flatMap (Rendered.calls job store)) after) :
    disk.KeepsRoutes after ∧
      (∀ location, (∀ name ∈ done.map Rendered.name, location ≠ name :: target) →
        after.node? location = disk.node? location) ∧
      ∀ name ∈ done.map Rendered.name,
        after.locate .find folder (job.outputFolder.join ⟨name⟩) = .ok (name :: target) ∧
        ∃ content text, disk.node? (name :: source) = some (.file content) ∧
          Storage.Decodes content text ∧ after.node? (name :: target) =
            some (.file (Utf8.encode (job.delimiters.render store text))) := by
  induction done generalizing disk with
  | nil =>
    cases h
    exact ⟨.refl plain, fun _ _ => rfl, by simp⟩
  | cons first done ih =>
    rw [List.map_cons, List.nodup_cons] at hnodup
    rw [List.flatMap_cons] at h
    obtain ⟨between, hfirst, hlater⟩ := h.exists_between
    obtain ⟨content, text, hcontent, htext, hput, hplaced, rfl⟩ :=
      put_of_replays plain hsource htarget (htemplates first List.mem_cons_self) hfirst
    obtain ⟨hroutes, hframe, houtputs⟩ := ih hput.plain (hsource.keep hput) (htarget.keep hput)
      hnodup.2 (fun rendered hmem => htemplates rendered (List.mem_cons_of_mem first hmem)) hlater
    -- later names are others, so they lead elsewhere in every folder
    have hother : ∀ name ∈ done.map Rendered.name, ∀ around around' : Disk.Location,
        name :: around ≠ first.name :: around' := by
      intro name hmem around around' heq
      have hsame := (List.cons.inj heq).1
      exact hnodup.1 (hsame ▸ hmem)
    rw [List.map_cons]
    refine ⟨hput.trans hroutes, fun location hlocation => ?_, fun name hname => ?_⟩
    · rw [hframe location fun name hname => hlocation name (List.mem_cons_of_mem _ hname)]
      exact Disk.node?_put_of_ne disk _ (hlocation first.name List.mem_cons_self)
    · rcases List.mem_cons.1 hname with rfl | hname
      · refine ⟨hroutes.leads hplaced, content, text, hcontent, htext, ?_⟩
        rw [hframe _ fun name hname => (hother name hname target target).symm]
        exact Disk.node?_put_self disk _ (List.cons_ne_nil _ target)
      · obtain ⟨hplaced, content, text, hcontent, htext, houtput⟩ := houtputs name hname
        rw [Disk.node?_put_of_ne disk _ (hother name hname source target)] at hcontent
        exact ⟨hplaced, content, text, hcontent, htext, houtput⟩

/-- Templates that were listed by their names are those of the names. -/
theorem names_of_templates {base : Path} {done : List Rendered} {names : List Bytes}
    (h : done.map Rendered.template = names.map fun name => base.join ⟨name⟩)
    (hnames : ∀ name ∈ names, name.IsFileName) :
    done.map Rendered.name = names ∧
      ∀ rendered ∈ done, rendered.template = base.join ⟨rendered.name⟩ := by
  induction done generalizing names with
  | nil =>
    obtain rfl : names = [] := by simpa using h.symm
    simp
  | cons first done ih =>
    cases names with
    | nil => cases h
    | cons name names =>
      rw [List.map_cons, List.map_cons, List.cons.injEq] at h
      obtain ⟨hmap, htemplates⟩ := ih h.2 fun name hmem => hnames name (List.mem_cons_of_mem _ hmem)
      obtain rfl : first.name = name := by
        have hfile := Path.fileName?_join base (hnames name List.mem_cons_self)
        rw [← h.1, first.named] at hfile
        exact Option.some.inj hfile
      refine ⟨by rw [List.map_cons, hmap], fun rendered hmem => ?_⟩
      rcases List.mem_cons.1 hmem with rfl | hmem
      · exact h.1
      · exact htemplates rendered hmem

end Rendered

namespace Desk

/-- The variables of a file at a desk. Without the file there are none. -/
inductive Supplies (desk : Desk) (file : Path) : Variables → Prop
  | absent (h : desk.disk.isPresent desk.folder file = false) : desk.Supplies file .empty
  | loaded {content : Bytes} {text : Text} {store : Variables}
      (h : desk.disk.readBytes desk.folder file = .ok content)
      (htext : Storage.Decodes content text) (hparse : Variables.parse text = .ok store) :
      desk.Supplies file store

/-- What a run has done that found the variables, the folder of the templates and their names, and
put the outputs into a folder. -/
structure Renders (desk : Desk) (job : Job) (store : Variables) (source target : Disk.Location)
    (names : List Bytes) (after : Desk) : Prop where
  supplied : desk.Supplies job.variableFile store
  found : desk.disk.locate .find desk.folder job.templateFolder = .ok source
  /-- The names are those of the files directly in the folder of the templates that are text and fit
  the pattern. -/
  selected : ∃ pattern, Glob.Pattern.parse job.searchPattern = .ok pattern ∧
    ∀ name, name ∈ names ↔ pattern.FitsName name ∧
      ∃ content, desk.disk.node? (name :: source) = some (.file content)
  nodup : names.Nodup
  /-- The output folder is there. -/
  made : after.disk.node? target = some .folder
  /-- Its path leads to it, unless the path is empty. -/
  opened : job.outputFolder.bytes ≠ [] →
    after.disk.locate .find desk.folder job.outputFolder = .ok target ∧
      after.disk.isFolder desk.folder job.outputFolder = true
  /-- An empty path leads nowhere, neither before nor after. The output folder that it stands for is
  the working folder, since the names of the outputs are joined to nothing. -/
  working : job.outputFolder.bytes = [] → target = desk.folder
  /-- The path of each output leads to its name in the output folder. -/
  placed : ∀ name ∈ names,
    after.disk.locate .find desk.folder (job.outputFolder.join ⟨name⟩) = .ok (name :: target)
  /-- Each output is rendered from the text that the template was before, with the variables that
  there were before. -/
  outputs : ∀ name content, name ∈ names →
    desk.disk.node? (name :: source) = some (.file content) →
    ∃ text, Storage.Decodes content text ∧ after.disk.node? (name :: target) =
      some (.file (Utf8.encode (job.delimiters.render store text)))
  /-- All else is as before, but for new folders on the way to the output folder. -/
  others : ∀ location, (∀ name ∈ names, location ≠ name :: target) →
    after.disk.node? location = desk.disk.node? location ∨
      desk.disk.node? location = none ∧ after.disk.node? location = some .folder ∧
        ∃ path ∈ job.outputFolder :: job.outputFolder.parents,
          after.disk.locate .find desk.folder path = .ok location
  folder : after.folder = desk.folder

variable {desk : Desk} {pattern : Glob.Pattern} {templates : List Path} {calls : List Call}

/-- The variables that are loaded are those that the file supplies. -/
theorem supplies_of_loads {file : Path} (h : Loads file calls (.ok store))
    (hreplay : Replays desk.folder desk.disk calls after) : desk.Supplies file store := by
  cases h with
  | absent =>
    cases hreplay with
    | cons hpresent _ => exact .absent hpresent.1.symm
  | loaded hparse =>
    cases hreplay with
    | cons hpresent hlater =>
      obtain ⟨-, rfl⟩ := hpresent
      cases hlater with
      | cons hread _ =>
        obtain ⟨content, hcontent, htext⟩ := textAt_eq_ok_iff.1 hread.1.symm
        exact .loaded hcontent (Storage.decodes_iff.2 htext) hparse

/-- The templates that are listed are the files that fit. -/
theorem filesAt_of_lists (h : Lists job pattern calls (.ok templates))
    (hreplay : Replays folder disk calls after) :
    filesAt job.templateFolder pattern disk folder = .ok templates := by
  cases h with
  | listed =>
    cases hreplay with
    | cons hfolder hlater =>
      obtain ⟨-, rfl⟩ := hfolder
      cases hlater with
      | cons hlist _ => exact hlist.1.symm

/-- What a run finds before the output folder is made is what there is. -/
theorem found_of_surveys (h : Surveys engine job pattern store templates calls)
    (hreplay : Replays desk.folder desk.disk calls after) :
    Glob.Pattern.parse job.searchPattern = .ok pattern ∧ desk.Supplies job.variableFile store ∧
      filesAt job.templateFolder pattern desk.disk desk.folder = .ok templates ∧
      after = desk.disk := by
  have hstill := hreplay.eq_of_looks h.mutates_nil
  cases h with
  | found hpattern hmatchers hload hlist =>
    obtain ⟨between, hloading, hlisting⟩ := hreplay.exists_between
    obtain rfl := hloading.eq_of_looks hload.mutates_nil
    exact ⟨hpattern, supplies_of_loads hload hloading, filesAt_of_lists hlist hlisting, hstill⟩

/-- A run that succeeds finds all it needs, makes the output folder, and renders the templates that
it found. What it does after that leaves the disk as it is. -/
theorem exists_rendering {desk after : Desk} {report : Report}
    (hrun : ((workspace engine).run job).run.run desk = (.ok report, after)) :
    ∃ pattern store made, ∃ done : List Rendered,
      Glob.Pattern.parse job.searchPattern = .ok pattern ∧
      desk.Supplies job.variableFile store ∧
      filesAt job.templateFolder pattern desk.disk desk.folder =
        .ok (done.map Rendered.template) ∧
      desk.disk.makeFolders desk.folder job.outputFolder = (.ok (), made) ∧
      Replays desk.folder made (done.flatMap (Rendered.calls job store)) after.disk ∧
      report.filesProcessed = done.length ∧ after.folder = desk.folder := by
  obtain ⟨hstay, hreplay⟩ := replays_history engine job desk
  have hseen := (workspace engine).runs_history job desk
  rw [hrun] at hseen
  rw [hrun] at hstay hreplay
  generalize ((workspace engine).history job desk).2 = calls at hseen hreplay
  cases hseen with
  | @reported pattern store _ _ _ _ _ _ survey hrender hcheck =>
    cases hrender with
    | finished done =>
      -- the calls: those that look, the making of the folder, the rendering and the checks
      obtain ⟨found, hlooking, hrest⟩ := hreplay.exists_between
      obtain ⟨hpattern, hsupplied, hlist, rfl⟩ := found_of_surveys survey hlooking
      cases hrest with
      | @cons _ made _ _ _ hmake hrest =>
        obtain ⟨rendered, hrendering, hchecking⟩ := hrest.exists_between
        obtain rfl := hchecking.eq_of_looks hcheck.mutates_nil
        exact ⟨pattern, store, made, done, hpattern, hsupplied, hlist, hmake.symm, hrendering,
          List.length_map _, hstay⟩

/-- **A run that succeeds changes exactly the outputs**, on a disk that holds a tree without links.
The outputs are as many as the report says, and each is rendered from the template of its name as it
was before the run. `Storage.Decodes` says how its text is read from its bytes. -/
theorem run_outputs {desk after : Desk} {job : Job} {report : Report} (tree : desk.disk.IsTree)
    (hfolder : desk.disk.node? desk.folder = some .folder)
    (hrun : ((workspace engine).run job).run.run desk = (.ok report, after)) :
    ∃ store source target names, desk.Renders job store source target names after ∧
      report.filesProcessed = names.length := by
  obtain ⟨pattern, store, made, done, hpattern, hsupplied, hlist, hmake, hrendering, hcount, hstay⟩ :=
    exists_rendering hrun
  obtain ⟨source, names, hsource, -, htemplates, hsorted, hnames⟩ :=
    filesAt_eq_ok tree.toSound hlist
  obtain ⟨hgrows, target, htarget, htargetFolder⟩ :=
    Disk.makeFolders_eq_ok tree.plain hfolder hmake
  have hproper : ∀ name ∈ names, name.IsFileName := by
    intro name hname
    obtain ⟨-, content, hfile⟩ := (hnames name).1 hname
    exact tree.isFileName hfile
  have hnodup := Storage.nodup_of_increasing hsorted
  obtain ⟨rfl, hjoin⟩ := Rendered.names_of_templates htemplates hproper
  obtain ⟨hroutes, hframe, houtputs⟩ := Rendered.outputs_of_replays hgrows.plain
    (.inr (hgrows.leads hsource)) htarget hnodup hjoin hrendering
  refine ⟨store, source, target, done.map Rendered.name, ?_, by rw [hcount, List.length_map]⟩
  have htarget' := htarget.keep hroutes
  have hmade : after.disk.node? target = some .folder := by
    rw [hframe target fun name _ => (List.cons_ne_self _ target).symm]
    exact htargetFolder
  refine ⟨hsupplied, hsource, ⟨pattern, hpattern, hnames⟩, hnodup, hmade, fun hne => ?_, fun hnil => ?_,
    fun name hname => (houtputs name hname).1, ?_, ?_, hstay⟩
  · have hleads := htarget'.resolve_left fun hempty => hne hempty.1
    exact ⟨hleads, Disk.isFolder_iff.2 ⟨target, hleads, hmade⟩⟩
  · exact htarget'.eq_of_nil hnil
  · -- making folders kept the templates, so each was rendered from what it was before
    intro name content hname hfile
    obtain ⟨-, kept, text, hkept, htext, houtput⟩ := houtputs name hname
    rw [hgrows.keeps hfile] at hkept
    cases hkept
    exact ⟨text, htext, houtput⟩
  · intro location hlocation
    rw [hframe location hlocation]
    cases hbefore : desk.disk.node? location with
    | some node => exact .inl (hgrows.keeps hbefore)
    | none =>
      rcases hgrows.adds hbefore with hnone | ⟨hnew, path, hpath, hlocate⟩
      · exact .inl hnone
      · exact .inr ⟨rfl, hnew, path, hpath, hroutes.leads hlocate⟩

/-- A desk with one folder, which holds a template and the variables. Both files start with a byte
order mark and end with a byte that is part of no character. -/
def crowded : Desk where
  disk := ⟨[([Utf8.encode ['w']], .folder),
    ([Utf8.encode ['a'], Utf8.encode ['w']],
      .file ([0xEF, 0xBB, 0xBF] ++ Utf8.encode (Delimiters.standard.plain.wrap ['A']) ++ [0xFF])),
    ([Utf8.encode ['v'], Utf8.encode ['w']],
      .file ([0xEF, 0xBB, 0xBF] ++ Utf8.encode ['A', '='] ++ [0xFE]))]⟩

/-- The job that renders all files of that folder into it, the variables too. -/
def crowdedJob : Job where
  templateFolder := .ofText ['w']
  outputFolder := .ofText ['w']
  variableFile := .ofText ['w', '/', 'v']
  searchPattern := ['*']
  delimiters := .standard

theorem crowded_isTree : crowded.disk.IsTree :=
  Disk.isTree_of_entries (by decide) (by decide) (by simp [crowded])

/-- The variable is U+FFFD. -/
theorem entries_of_supplies_crowded {store : Variables}
    (h : crowded.Supplies crowdedJob.variableFile store) : store.entries = [(['A'], ['\uFFFD'])] := by
  have hread : crowded.disk.readBytes crowded.folder crowdedJob.variableFile =
      .ok ([0xEF, 0xBB, 0xBF] ++ Utf8.encode ['A', '='] ++ [0xFE]) := by decide +kernel
  cases h with
  | absent hgone =>
    rw [Disk.isPresent_of_readBytes hread] at hgone
    cases hgone
  | loaded hfound htext hparse =>
    rw [hread] at hfound
    cases hfound
    obtain rfl := Storage.decodes_iff.1 htext
    have hstore : Variables.parse (Storage.textOf
        ([0xEF, 0xBB, 0xBF] ++ Utf8.encode ['A', '='] ++ [0xFE])) = .ok ⟨[(['A'], ['\uFFFD'])]⟩ := by
      decide +kernel
    rw [hstore] at hparse
    cases hparse
    rfl

/-- The template is rendered in its place to the value of the variable and U+FFFD, and the file of
the variables loses its mark. -/
theorem run_outputs_crowded :
    let after := (((workspace .unbounded).run crowdedJob).run.run crowded).2
    let report : Report := ⟨2, [(['a'], []), (['v'], [])]⟩
    crowded.disk.IsTree ∧ crowded.disk.node? crowded.folder = some .folder ∧
      ((workspace .unbounded).run crowdedJob).run.run crowded = (.ok report, after) ∧
      after.disk.node? [Utf8.encode ['a'], Utf8.encode ['w']] =
        some (.file [0xEF, 0xBF, 0xBD, 0xEF, 0xBF, 0xBD]) ∧
      after.disk.node? [Utf8.encode ['v'], Utf8.encode ['w']] =
        some (.file (Utf8.encode ['A', '='] ++ [0xEF, 0xBF, 0xBD])) ∧
      ∃ store source target names,
        crowded.Renders crowdedJob store source target names after ∧
          store.entries = [(['A'], ['\uFFFD'])] ∧ report.filesProcessed = names.length := by
  intro after report
  have hresult : (((workspace .unbounded).run crowdedJob).run.run crowded).1 = .ok report := by
    decide +kernel
  have hrun : ((workspace .unbounded).run crowdedJob).run.run crowded = (.ok report, after) :=
    Prod.ext hresult rfl
  obtain ⟨store, source, target, names, hrenders, hcount⟩ := run_outputs crowded_isTree rfl hrun
  exact ⟨crowded_isTree, rfl, hrun, by decide +kernel, by decide +kernel, store, source, target, names,
    hrenders, entries_of_supplies_crowded hrenders.supplied, hcount⟩

/-- With an empty path for the output folder the outputs are put into the working folder, and the
path still leads nowhere. -/
example :
    let job : Job := { crowdedJob with outputFolder := ⟨[]⟩ }
    let after := (((workspace .unbounded).run job).run.run crowded).2
    after.disk.node? [Utf8.encode ['a']] = some (.file [0xEF, 0xBF, 0xBD, 0xEF, 0xBF, 0xBD]) ∧
      after.disk.isPresent after.folder ⟨[]⟩ = false := by
  decide +kernel

end Desk

end Stencil
