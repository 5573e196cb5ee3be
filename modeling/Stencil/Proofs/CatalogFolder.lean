import Stencil.Proofs.Acceptance
import Stencil.Proofs.Choosing
import Stencil.Proofs.Respelling

/-!
# The folder of a catalog

The paths in a catalog are seen from the folder of its file. A file in the working folder can be
named alone or after a dot: then its folder is the empty path, to which nothing is joined, or the
dot. A value that is not empty leads to the same place for both. An empty one leads nowhere for the
first and to the working folder for the second.

* `Workspace.runOption`: the job of an option, from the file of the catalog to the report.
* `Desk.Agree`: runs that come to the same end.
* `OptionEntry.HasRoom.respells_dotted`: for both the values are the same job in two spellings.
* `Desk.agree_dotted_iff`: **when the two ways to name the catalog come to the same end.**
* `Desk.not_agree_dotted`: without a value for the folder of the templates they do not.
-/

namespace Stencil

open Catalog

/-- Loads a catalog and runs the job of an option. -/
def Workspace.runOption {m : Type → Type} [Monad m] (workspace : Workspace m) (file : Path)
    (id : Text) : ExceptT Failure m Report := do
  let catalog ← workspace.loadCatalog file
  match catalog.job id with
  | .error failure => throw failure
  | .ok job => workspace.run job

namespace Desk

/-- What was run came to no report. -/
def Failed (ended : Except Failure Report × Desk) : Prop := ∃ failure, ended.1 = .error failure

/-- Both runs failed, or both succeeded with the same report and left the same files. -/
def Agree (ended other : Except Failure Report × Desk) : Prop :=
  Failed ended ∧ Failed other ∨
    ∃ report, ended.1 = .ok report ∧ other.1 = .ok report ∧ ended.2.SameFiles other.2

variable {engine : Engine} {desk : Desk} {job other : Job} {file : Path} {id : Text} {catalog : Catalog}
  {ended ended' : Except Failure Report × Desk}

theorem failed_or_ok (ended : Except Failure Report × Desk) :
    Failed ended ∨ ∃ report, ended.1 = .ok report := by
  cases hresult : ended.1 with
  | error failure => exact .inl ⟨failure, hresult⟩
  | ok report => exact .inr ⟨report, rfl⟩

theorem not_failed_of_ok {report : Report} (h : ended.1 = .ok report) : ¬ Failed ended := by
  rintro ⟨failure, hfail⟩
  rw [h] at hfail
  cases hfail

/-- Of runs that agree one fails if the other does. -/
theorem Agree.failed_iff (h : Agree ended ended') : Failed ended ↔ Failed ended' := by
  rcases h with ⟨hfail, hfail'⟩ | ⟨report, hok, hok', -⟩
  · exact iff_of_true hfail hfail'
  · exact iff_of_false (not_failed_of_ok hok) (not_failed_of_ok hok')

theorem not_agree_of_failed {report : Report} (hfail : Failed ended) (hok : ended'.1 = .ok report) :
    ¬ Agree ended ended' := fun hagree => not_failed_of_ok hok (hagree.failed_iff.1 hfail)

/-- Whether runs agree is seen from their results and from the files that they leave. -/
theorem Agree.congr {first second : Except Failure Report × Desk} (h : Agree first second)
    (hresult : ended.1 = first.1) (hfiles : ended.2.SameFiles first.2)
    (hresult' : ended'.1 = second.1) (hfiles' : ended'.2.SameFiles second.2) :
    Agree ended ended' := by
  rcases h with ⟨⟨failure, hfail⟩, failure', hfail'⟩ | ⟨report, hok, hok', hsame⟩
  · exact .inl ⟨⟨failure, hresult.trans hfail⟩, failure', hresult'.trans hfail'⟩
  · exact .inr ⟨report, hresult.trans hok, hresult'.trans hok',
      (hfiles.trans hsame).trans hfiles'.symm⟩

/-- **Jobs that differ only in how their paths are spelled agree.** -/
theorem agree_of_respells (tree : desk.disk.IsTree)
    (hfolder : desk.disk.node? desk.folder = some .folder)
    (hjobs : job.Respells desk.disk desk.folder other) :
    Agree (((workspace engine).run job).run.run desk)
      (((workspace engine).run other).run.run desk) := by
  rcases failed_or_ok (((workspace engine).run job).run.run desk) with hfail | ⟨report, hok⟩
  · rcases failed_or_ok (((workspace engine).run other).run.run desk) with hfail' | ⟨report, hok'⟩
    · exact .inl ⟨hfail, hfail'⟩
    · -- what succeeds in the other spelling succeeds in this one
      obtain ⟨last, hrun, -⟩ :=
        run_respelled tree hfolder (hjobs.symm hfolder) (Prod.ext hok' rfl)
      rw [hrun] at hfail
      exact absurd hfail (not_failed_of_ok rfl)
  · obtain ⟨last, hrun, hfiles⟩ := run_respelled tree hfolder hjobs (Prod.ext hok rfl)
    rw [hrun]
    exact .inr ⟨report, hok, rfl, hfiles.symm⟩

/-- **Without a folder of the templates a run fails.** -/
theorem failed_of_templateFolder_nil (sound : desk.disk.Sound) (h : job.templateFolder = ⟨[]⟩) :
    Failed (((workspace engine).run job).run.run desk) := by
  rcases failed_or_ok (((workspace engine).run job).run.run desk) with hfail | ⟨report, hok⟩
  · exact hfail
  · obtain ⟨pattern, store, made, done, -, -, hlist, -⟩ := exists_rendering (Prod.ext hok rfl)
    obtain ⟨location, names, hlocate, -⟩ := filesAt_eq_ok sound hlist
    rw [h, Disk.locate_nil] at hlocate
    cases hlocate

/-- **A run that finds a folder in the place of the variables fails.** -/
theorem failed_of_variableFile_folder {location : Disk.Location}
    (hlocate : desk.disk.locate .find desk.folder job.variableFile = .ok location)
    (hfolder : desk.disk.node? location = some .folder) :
    Failed (((workspace engine).run job).run.run desk) := by
  rcases failed_or_ok (((workspace engine).run job).run.run desk) with hfail | ⟨report, hok⟩
  · exact hfail
  · obtain ⟨pattern, store, made, done, -, hsupplied, -⟩ := exists_rendering (Prod.ext hok rfl)
    cases hsupplied with
    | absent hgone =>
      rw [Disk.isPresent, hlocate] at hgone
      cases hgone
    | loaded hread _ _ =>
      obtain ⟨found, hfound, hfile⟩ := Disk.readBytes_eq_ok_iff.1 hread
      rw [hlocate] at hfound
      cases hfound
      rw [hfolder] at hfile
      cases hfile

/-- The job of an option is run at the desk that the loading of its catalog leaves. -/
theorem runOption_eq (engine : Engine) (file : Path) (id : Text) (desk : Desk) :
    ((workspace engine).runOption file id).run.run desk =
      match (((workspace engine).loadCatalog file).run.run desk).1 with
      | .error failure => (.error failure, (((workspace engine).loadCatalog file).run.run desk).2)
      | .ok catalog =>
        match catalog.job id with
        | .error failure => (.error failure, (((workspace engine).loadCatalog file).run.run desk).2)
        | .ok job =>
          ((workspace engine).run job).run.run
            (((workspace engine).loadCatalog file).run.run desk).2 := by
  unfold Workspace.runOption
  rw [run_bind]
  cases (((workspace engine).loadCatalog file).run.run desk).1 with
  | error failure => rfl
  | ok catalog =>
    dsimp only
    cases catalog.job id <;> rfl

/-- Without its catalog the job of an option is not run. -/
theorem failed_runOption
    (h : ∀ catalog, (((workspace engine).loadCatalog file).run.run desk).1 ≠ .ok catalog) :
    Failed (((workspace engine).runOption file id).run.run desk) := by
  rw [runOption_eq]
  cases hload : (((workspace engine).loadCatalog file).run.run desk).1 with
  | error failure => exact ⟨failure, rfl⟩
  | ok catalog => exact absurd hload (h catalog)

/-- **The job of an option comes to the end** that it comes to before its catalog is loaded. -/
theorem runOption_of_job (hload : (((workspace engine).loadCatalog file).run.run desk).1 = .ok catalog)
    (hjob : catalog.job id = .ok job) :
    (((workspace engine).runOption file id).run.run desk).1 =
      (((workspace engine).run job).run.run desk).1 ∧
      (((workspace engine).runOption file id).run.run desk).2.SameFiles
        (((workspace engine).run job).run.run desk).2 := by
  rw [runOption_eq, hload]
  dsimp only
  rw [hjob]
  exact run_eq_of_sameFiles engine (noted_loadCatalog engine file desk).toSameFiles job

end Desk

namespace Catalog

variable {base : Option Path} {document : Text} {settings : Settings} {catalog : Catalog}
  {entry : OptionEntry}

/-- Settings are a catalog as seen from one folder if they are one as seen from another. -/
theorem ofSettings_rebase (base' : Option Path) (h : ofSettings base settings = .ok catalog) :
    ofSettings base' settings = .ok ⟨catalog.delimiters, settings.options.map (optionOf base')⟩ := by
  obtain ⟨hpairs, hoptions⟩ := ofSettings_eq_ok_iff.1 h
  obtain ⟨hclean, hnew, -⟩ := optionsOf_eq_ok_iff.1 hoptions
  exact ofSettings_eq_ok_iff.2 ⟨hpairs, hclean.optionsOf_eq hnew⟩

/-- The job of an entry is found by its id. -/
theorem job_of_entry (h : ofSettings base settings = .ok catalog)
    (hentry : entry ∈ settings.options) :
    catalog.job entry.id.trim = .ok ((optionOf base entry).withDelimiters catalog.delimiters) := by
  obtain ⟨-, hoptions⟩ := ofSettings_eq_ok_iff.1 h
  obtain ⟨hnodup, -⟩ := optionsOf_eq_ok hoptions
  obtain ⟨-, -, hmap⟩ := optionsOf_eq_ok_iff.1 hoptions
  have hmem : optionOf base entry ∈ catalog.options := by
    rw [hmap]
    exact List.mem_map_of_mem hentry
  exact job_eq_ok_iff.2 ⟨optionOf base entry, find?_of_nodup hnodup hmem, rfl⟩

/-- A dot and a slash before them do not make the paths of an entry too long, nor those of its
templates and their outputs. -/
structure OptionEntry.HasRoom (entry : OptionEntry) (disk : Disk) (folder : Disk.Location) : Prop where
  templateFolder : Disk.HasRoom (.ofText entry.templateFolder)
  outputFolder : Disk.HasRoom (.ofText entry.outputFolder)
  variableFile : Disk.HasRoom (.ofText entry.variableFile)
  names : ∀ name, disk.Selects folder (.ofText entry.templateFolder) entry.searchPattern name →
    Disk.HasRoom (Path.join (.ofText entry.templateFolder) ⟨name⟩) ∧
    Disk.HasRoom (Path.join (.ofText entry.outputFolder) ⟨name⟩)

/-- **As seen from the dot the values are the same job in another spelling**, if they name a folder
of templates and a file of variables. -/
theorem OptionEntry.HasRoom.respells_dotted {disk : Disk} {folder : Disk.Location}
    (hroom : entry.HasRoom disk folder) (tree : disk.IsTree) (htemplates : entry.templateFolder ≠ [])
    (hvariables : entry.variableFile ≠ []) (delimiters : Delimiters) :
    ((optionOf none entry).withDelimiters delimiters).Respells disk folder
      ((optionOf (some (.ofText ['.'])) entry).withDelimiters delimiters) where
  searchPattern := rfl
  delimiters := rfl
  variableFile := Disk.sameRoute_dotted folder (Utf8.encode_injective.ne hvariables) hroom.variableFile
  templateFolder :=
    Disk.sameRoute_dotted folder (Utf8.encode_injective.ne htemplates) hroom.templateFolder
  makes _ hfolder := Disk.makeFolders_dotted hroom.outputFolder hfolder
  denotes _ _ hfolder := Disk.denotes_dotted_iff hroom.outputFolder hfolder
  names name hselects := by
    obtain ⟨htemplate, houtput⟩ := hroom.names name hselects
    have hname := hselects.isFileName tree
    have hjoined : ∀ base : Path, Disk.HasRoom (base.join ⟨name⟩) →
        Disk.SameRoute folder (base.join ⟨name⟩) (base.dotted.join ⟨name⟩) := by
      intro base hroom
      rw [Path.dotted_join base hname]
      exact Disk.sameRoute_dotted folder (Path.bytes_join_ne_nil base hname) hroom
    exact ⟨hjoined _ htemplate, hjoined _ houtput⟩

end Catalog

namespace Desk

variable {engine : Engine} {desk : Desk} {document : Text} {settings : Settings} {entry : OptionEntry}

/-- The catalog is read under both names. -/
theorem textAt_dotted (hfolder : desk.disk.node? desk.folder = some .folder)
    (hread : textAt (.ofText "Options.xml") desk.disk desk.folder = .ok document) :
    textAt (.ofText "./Options.xml") desk.disk desk.folder = .ok document := by
  have hroute : Disk.SameRoute desk.folder (.ofText "Options.xml") (Path.ofText "Options.xml").dotted :=
    Disk.sameRoute_dotted desk.folder (by decide) (by decide)
  have hdotted : (Path.ofText "Options.xml").dotted = (.ofText "./Options.xml") := by decide
  rw [hdotted] at hroute
  exact (hroute.textAt_eq hfolder).trans hread

/-- Under both names the catalog is refused, or both times the job of the entry is run, as it is
seen from nowhere or from the dot. -/
theorem runOption_dotted (hfolder : desk.disk.node? desk.folder = some .folder)
    (hread : textAt (.ofText "Options.xml") desk.disk desk.folder = .ok document)
    (hsettings : Settings.ofDocument document = .ok settings) (hentry : entry ∈ settings.options) :
    let alone := ((workspace engine).runOption (.ofText "Options.xml") entry.id.trim).run.run desk
    let dotted := ((workspace engine).runOption (.ofText "./Options.xml") entry.id.trim).run.run desk
    Failed alone ∧ Failed dotted ∨ ∃ delimiters,
      let job := (optionOf none entry).withDelimiters delimiters
      let job' := (optionOf (some (.ofText ['.'])) entry).withDelimiters delimiters
      alone.1 = (((workspace engine).run job).run.run desk).1 ∧
        alone.2.SameFiles (((workspace engine).run job).run.run desk).2 ∧
      dotted.1 = (((workspace engine).run job').run.run desk).1 ∧
        dotted.2.SameFiles (((workspace engine).run job').run.run desk).2 := by
  intro alone dotted
  have hload : ∀ catalog,
      (((workspace engine).loadCatalog (.ofText "Options.xml")).run.run desk).1 = .ok catalog ↔
      ofSettings none settings = .ok catalog := by
    intro catalog
    have hbase : (Path.parent? (.ofText "Options.xml")).filter (fun folder => !folder.bytes.isEmpty) =
        none := by decide
    rw [loadCatalog_eq_ok_iff hread, hbase, ofDocument, hsettings]
  have hload' : ∀ catalog,
      (((workspace engine).loadCatalog (.ofText "./Options.xml")).run.run desk).1 = .ok catalog ↔
        ofSettings (some (.ofText ['.'])) settings = .ok catalog := by
    intro catalog
    have hbase : (Path.parent? (.ofText "./Options.xml")).filter (fun folder => !folder.bytes.isEmpty) =
        some (.ofText ['.']) := by decide
    rw [loadCatalog_eq_ok_iff (textAt_dotted hfolder hread), hbase, ofDocument, hsettings]
  -- whether settings are a catalog does not depend on the folder that they are seen from
  by_cases hcatalog : ∃ catalog, ofSettings none settings = .ok catalog
  · obtain ⟨catalog, hcatalog⟩ := hcatalog
    have hcatalog' := ofSettings_rebase (some (.ofText ['.'])) hcatalog
    obtain ⟨hresult, hfiles⟩ := runOption_of_job ((hload _).2 hcatalog) (job_of_entry hcatalog hentry)
    obtain ⟨hresult', hfiles'⟩ :=
      runOption_of_job ((hload' _).2 hcatalog') (job_of_entry hcatalog' hentry)
    exact .inr ⟨catalog.delimiters, hresult, hfiles, hresult', hfiles'⟩
  · refine .inl ⟨failed_runOption fun catalog hloaded => ?_,
      failed_runOption fun catalog hloaded => ?_⟩
    · exact hcatalog ⟨catalog, (hload catalog).1 hloaded⟩
    · exact hcatalog ⟨_, ofSettings_rebase none ((hload' catalog).1 hloaded)⟩

/-- **When the two ways to name the catalog come to the same end**, on a disk that holds a tree
without links, for every option of the catalog whose paths do not get too long with a dot before
them: exactly if it is not for an empty value that one of them fails. Without a folder of templates
the option fails where the catalog is named alone, and without a file of variables it fails where it
is named after the dot. With both values the two agree, whatever the values are. -/
theorem agree_dotted_iff (tree : desk.disk.IsTree)
    (hfolder : desk.disk.node? desk.folder = some .folder)
    (hread : textAt (.ofText "Options.xml") desk.disk desk.folder = .ok document)
    (hsettings : Settings.ofDocument document = .ok settings) (hentry : entry ∈ settings.options)
    (hroom : entry.HasRoom desk.disk desk.folder) :
    let alone := ((workspace engine).runOption (.ofText "Options.xml") entry.id.trim).run.run desk
    let dotted := ((workspace engine).runOption (.ofText "./Options.xml") entry.id.trim).run.run desk
    (Agree alone dotted ↔ (entry.templateFolder = [] → Failed dotted) ∧
      (entry.variableFile = [] → Failed alone)) ∧
    (entry.templateFolder = [] → Failed alone) ∧ (entry.variableFile = [] → Failed dotted) := by
  intro alone dotted
  rcases runOption_dotted hfolder hread hsettings hentry with ⟨hfail, hfail'⟩ |
    ⟨delimiters, hresult, hfiles, hresult', hfiles'⟩
  · exact ⟨iff_of_true (.inl ⟨hfail, hfail'⟩) ⟨fun _ => hfail', fun _ => hfail⟩, fun _ => hfail,
      fun _ => hfail'⟩
  · have halone : entry.templateFolder = [] → Failed alone := by
      intro hnil
      have hfolder : ((optionOf none entry).withDelimiters delimiters).templateFolder = ⟨[]⟩ :=
        congrArg Path.ofText hnil
      obtain ⟨failure, hfail⟩ := failed_of_templateFolder_nil tree.toSound hfolder
      exact ⟨failure, hresult.trans hfail⟩
    have hdotted : entry.variableFile = [] → Failed dotted := by
      intro hnil
      have hfile : ((optionOf (some (.ofText ['.'])) entry).withDelimiters delimiters).variableFile =
          (⟨[]⟩ : Path).dotted := congrArg (fun text => (Path.ofText text).dotted) hnil
      have hlocate := Disk.stays_dotted_nil.locate_eq hfolder .find
      rw [← hfile] at hlocate
      obtain ⟨failure, hfail⟩ := failed_of_variableFile_folder hlocate hfolder
      exact ⟨failure, hresult'.trans hfail⟩
    refine ⟨⟨fun hagree => ⟨fun hnil => hagree.failed_iff.1 (halone hnil),
      fun hnil => hagree.failed_iff.2 (hdotted hnil)⟩, ?_⟩, halone, hdotted⟩
    -- where both values are given, the two jobs are one in two spellings
    rintro ⟨htemplates, hvariables⟩
    by_cases hnil : entry.templateFolder = []
    · exact .inl ⟨halone hnil, htemplates hnil⟩
    · by_cases hnil' : entry.variableFile = []
      · exact .inl ⟨hvariables hnil', hdotted hnil'⟩
      · have hjobs := hroom.respells_dotted tree hnil hnil' delimiters
        exact (agree_of_respells tree hfolder hjobs).congr hresult hfiles hresult' hfiles'

/-- The entry of an option without a folder of templates. -/
def baseEntry : OptionEntry := ⟨['1'], ['n'], [], ['o'], ['v'], ['v']⟩

/-- The entry of an option without an output folder, whose templates are in a folder that is spelled
with a dot. -/
def dotEntry : OptionEntry := ⟨[' ', '2'], ['n'], ['t', '/', '.'], [], ['v'], ['*']⟩

/-- A catalog of both options. -/
def spelledText : Text :=
  .concat ["<S><Options><Option Id=\"1\" Name=\"n\" TemplateFolder=\"\" OutputFolder=\"o\" ",
    "VariableFile=\"v\" SearchPattern=\"v\"/><Option Id=\" 2\" Name=\"n\" ",
    "TemplateFolder=\"t/.\" OutputFolder=\"\" VariableFile=\"v\" SearchPattern=\"*\"/>",
    "</Options></S>"]

/-- A desk with that catalog, with variables, and with a template in a folder. -/
def spelled : Desk where
  disk := ⟨[([Utf8.encode "Options.xml"], .file (Utf8.encode spelledText)),
    ([Utf8.encode ['v']], .file (Utf8.encode ['A', '=', '1'])),
    ([Utf8.encode ['t']], .folder),
    ([Utf8.encode ['a'], Utf8.encode ['t']],
      .file (Utf8.encode (Delimiters.standard.plain.wrap ['A'])))]⟩

theorem spelled_isTree : spelled.disk.IsTree :=
  Disk.isTree_of_entries (by decide) (by decide) (by simp [spelled])

theorem textAt_spelled : textAt (.ofText "Options.xml") spelled.disk spelled.folder =
    .ok spelledText := by
  decide +kernel

theorem ofDocument_spelledText :
    Settings.ofDocument spelledText = .ok ⟨[], [baseEntry, dotEntry]⟩ := by decide +kernel

theorem hasRoom_dotEntry : dotEntry.HasRoom spelled.disk spelled.folder where
  templateFolder := by decide +kernel
  outputFolder := by decide +kernel
  variableFile := by decide +kernel
  names := by
    rintro name ⟨source, pattern, content, hsource, -, -, hfile⟩
    have hplace : spelled.disk.locate .find spelled.folder (.ofText dotEntry.templateFolder) =
        .ok [Utf8.encode ['t']] := by decide +kernel
    rw [hplace] at hsource
    cases hsource
    have honly : ∀ entry ∈ spelled.disk.entries, entry.1.tail = [Utf8.encode ['t']] →
        entry.1 = [Utf8.encode ['a'], Utf8.encode ['t']] := by decide +kernel
    have hentry := honly _ (Disk.mem_entries_of_node? hfile) rfl
    obtain rfl : name = Utf8.encode ['a'] := (List.cons.inj hentry).1
    exact ⟨by decide +kernel, by decide +kernel⟩

/-- The option without an output folder comes to the same end for both names: the template is
rendered into the working folder. -/
theorem agree_dotted_iff_spelled :
    let alone :=
      ((workspace .unbounded).runOption (.ofText "Options.xml") dotEntry.id.trim).run.run spelled
    let dotted :=
      ((workspace .unbounded).runOption (.ofText "./Options.xml") dotEntry.id.trim).run.run spelled
    (spelled.disk.IsTree ∧ spelled.disk.node? spelled.folder = some .folder ∧
      textAt (.ofText "Options.xml") spelled.disk spelled.folder = .ok spelledText ∧
      Settings.ofDocument spelledText = .ok ⟨[], [baseEntry, dotEntry]⟩ ∧
      dotEntry.HasRoom spelled.disk spelled.folder) ∧
    alone.1 = .ok ⟨1, [(['a'], [])]⟩ ∧ Agree alone dotted := by
  intro alone dotted
  have hok : alone.1 = .ok ⟨1, [(['a'], [])]⟩ := by decide +kernel
  obtain ⟨hiff, -⟩ := agree_dotted_iff spelled_isTree rfl textAt_spelled ofDocument_spelledText
    (List.mem_cons_of_mem baseEntry List.mem_cons_self) hasRoom_dotEntry
  exact ⟨⟨spelled_isTree, rfl, textAt_spelled, ofDocument_spelledText, hasRoom_dotEntry⟩, hok,
    hiff.2 ⟨nofun, nofun⟩⟩

/-- The option with an output folder and without one of templates fails where the catalog is named
alone, and renders the file of the variables where it is named after the dot. -/
theorem not_agree_dotted :
    (spelled.disk.IsTree ∧ spelled.disk.node? spelled.folder = some .folder ∧
      textAt (.ofText "Options.xml") spelled.disk spelled.folder = .ok spelledText ∧
      Settings.ofDocument spelledText = .ok ⟨[], [baseEntry, dotEntry]⟩) ∧
    ¬ Agree
      (((workspace .unbounded).runOption (.ofText "Options.xml") baseEntry.id.trim).run.run spelled)
      (((workspace .unbounded).runOption (.ofText "./Options.xml") baseEntry.id.trim).run.run
        spelled) := by
  have hfail : (((workspace .unbounded).runOption (.ofText "Options.xml") baseEntry.id.trim).run.run
      spelled).1 = .error (.noTemplateFolder ⟨[]⟩) := by decide +kernel
  have hok : (((workspace .unbounded).runOption (.ofText "./Options.xml") baseEntry.id.trim).run.run
      spelled).1 = .ok ⟨1, [(['v'], [])]⟩ := by decide +kernel
  exact ⟨⟨spelled_isTree, rfl, textAt_spelled, ofDocument_spelledText⟩,
    not_agree_of_failed ⟨_, hfail⟩ hok⟩

end Desk

end Stencil
