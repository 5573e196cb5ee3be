import Stencil.Proofs.DottedFolders
import Stencil.Proofs.Repeating

/-!
# Jobs that are spelled otherwise

The paths of a job can be spelled in other ways. As long as they lead to the same places, and so do
those of the templates and of the outputs, the job comes to the same end: the same templates are
listed, the same outputs are put, and the same is said of them.

* `Job.Respells`: jobs that differ only in how their paths are spelled.
* `Rendered.moved`, `Check.moved`: what was done for one of them, as it is done for the other.
* `Faults.Prepares.respelled`, `Faults.Finishes.settles_respelled`: what one of them finds and what
  is settled for it, the other finds, and is settled for it.
* `Desk.run_respelled`: **jobs that differ only in their spelling come to the same end.**
-/

namespace Stencil

variable {engine : Engine} {folder source target : Disk.Location} {disk made after : Disk}
  {job other : Job} {path path' : Path} {pattern : Glob.Pattern} {store : Variables}
  {done : List Rendered} {checks : List Check}

theorem Disk.SameRoute.textAt_eq (h : SameRoute folder path path')
    (hfolder : disk.node? folder = some .folder) :
    Desk.textAt path' disk folder = Desk.textAt path disk folder := by
  simp only [Desk.textAt, h.readBytes_eq hfolder]

/-- In the folder at the end of the path there is a file of that name, which fits the pattern. -/
def Disk.Selects (disk : Disk) (folder : Location) (path : Path) (searchPattern : Text)
    (name : Bytes) : Prop :=
  ∃ source pattern content, disk.locate .find folder path = .ok source ∧
    Glob.Pattern.parse searchPattern = .ok pattern ∧ pattern.FitsName name ∧
      disk.node? (name :: source) = some (.file content)

theorem Disk.Selects.isFileName {searchPattern : Text} {name : Bytes}
    (h : disk.Selects folder path searchPattern name) (tree : disk.IsTree) : name.IsFileName := by
  obtain ⟨source, pattern, content, -, -, -, hfile⟩ := h
  exact tree.isFileName hfile

/-- **Jobs that differ only in how their paths are spelled**, as far as a disk is concerned: they
read the same variables, list the same folder and make the same one, and the paths of the templates
and of their outputs lead to the same places. -/
structure Job.Respells (disk : Disk) (folder : Disk.Location) (job other : Job) : Prop where
  searchPattern : other.searchPattern = job.searchPattern
  delimiters : other.delimiters = job.delimiters
  variableFile : Disk.SameRoute folder job.variableFile other.variableFile
  templateFolder : Disk.SameRoute folder job.templateFolder other.templateFolder
  makes : ∀ disk : Disk, disk.node? folder = some .folder →
    disk.makeFolders folder other.outputFolder = disk.makeFolders folder job.outputFolder
  denotes : ∀ (disk : Disk) (location : Disk.Location), disk.node? folder = some .folder →
    (disk.Denotes folder other.outputFolder location ↔ disk.Denotes folder job.outputFolder location)
  names : ∀ name, disk.Selects folder job.templateFolder job.searchPattern name →
    Disk.SameRoute folder (job.templateFolder.join ⟨name⟩) (other.templateFolder.join ⟨name⟩) ∧
    Disk.SameRoute folder (job.outputFolder.join ⟨name⟩) (other.outputFolder.join ⟨name⟩)

/-- Each is spelled otherwise than the other. -/
theorem Job.Respells.symm (h : job.Respells disk folder other)
    (hfolder : disk.node? folder = some .folder) : other.Respells disk folder job where
  searchPattern := h.searchPattern.symm
  delimiters := h.delimiters.symm
  variableFile := h.variableFile.symm
  templateFolder := h.templateFolder.symm
  makes disk hfolder := (h.makes disk hfolder).symm
  denotes disk location hfolder := (h.denotes disk location hfolder).symm
  names name hselects := by
    unfold Disk.Selects at hselects
    rw [h.templateFolder disk .find hfolder, h.searchPattern] at hselects
    obtain ⟨htemplate, houtput⟩ := h.names name hselects
    exact ⟨htemplate.symm, houtput.symm⟩

/-- A template that was rendered, as it is found in another folder. -/
def Rendered.moved (base : Path) (rendered : Rendered) : Rendered where
  template := base.join ⟨rendered.name⟩
  name := rendered.name
  text := rendered.text
  named := Path.fileName?_join base (Path.isFileName_of_fileName? rendered.named)

/-- A check that was made, as it is made of an output in another folder. -/
def Check.moved (base : Path) (check : Check) : Check where
  output := ⟨check.output.name, base.join ⟨check.output.name⟩⟩
  found := check.found

/-- What is said of the outputs does not depend on where they are. -/
theorem Report.ofChecks_moved (delimiters : Delimiters) (base : Path) (checks : List Check) :
    ofChecks delimiters (checks.map (Check.moved base)) = ofChecks delimiters checks := by
  rw [ofChecks, ofChecks, addChecks, addChecks, List.length_map, List.foldl_map]
  rfl

/-- What is loaded from one spelling of a file is loaded from another. -/
theorem Outlook.loaded_congr {outlook respelled : Outlook}
    (hpresent : respelled.present = outlook.present) (hcontent : respelled.content = outlook.content)
    (h : outlook.loaded job = .ok store) : respelled.loaded other = .ok store := by
  unfold loaded at h ⊢
  rw [hpresent, hcontent]
  split at h
  · next hthere =>
    rw [if_pos hthere]
    cases hread : outlook.content with
    | error cause =>
      rw [hread] at h
      cases h
    | ok content =>
      rw [hread] at h
      dsimp only at h ⊢
      cases hparse : Variables.parse content with
      | error fault =>
        rw [hparse] at h
        cases h
      | ok found =>
        rw [hparse] at h
        exact h
  · next hgone =>
    rw [if_neg hgone]
    exact h

/-- The templates of one folder are listed by the same names, however the folder is spelled. -/
theorem Desk.filesAt_respelled (tree : disk.IsTree) (hfolder : disk.node? folder = some .folder)
    (hroute : Disk.SameRoute folder path path')
    (hlist : Desk.filesAt path pattern disk folder = .ok (done.map Rendered.template)) :
    Desk.filesAt path' pattern disk folder =
      .ok ((done.map (Rendered.moved path')).map Rendered.template) := by
  obtain ⟨source, -, hsource, hthere, -⟩ := filesAt_eq_ok tree.toSound hlist
  have hsource' := (hroute disk .find hfolder).trans hsource
  rw [filesAt_of_folder hsource hthere, Except.ok.injEq] at hlist
  rw [filesAt_of_folder hsource' hthere, Except.ok.injEq]
  obtain ⟨hnames, -⟩ := Rendered.names_of_templates hlist.symm fun name hname => by
    obtain ⟨-, content, hfile⟩ := (mem_names_iff tree.toSound).1 hname
    exact tree.isFileName hfile
  rw [← hnames, List.map_map, List.map_map]
  rfl

namespace Rendered

variable {rendered : Rendered}

/-- The same file is put, wherever the template is found. -/
theorem file_moved (rendered : Rendered) (hdelimiters : other.delimiters = job.delimiters) :
    (rendered.moved other.templateFolder).file {} other store = rendered.file {} job store := by
  unfold file written
  rw [hdelimiters]
  rfl

/-- **A template that fits does so however its job is spelled.** -/
theorem Fits.moved (h : rendered.Fits {} job folder target disk)
    (hopens : disk.Opens job folder target) (hopens' : disk.Opens other folder target)
    (hfolder : disk.node? folder = some .folder)
    (htemplate : Disk.SameRoute folder rendered.template
      (other.templateFolder.join ⟨rendered.name⟩))
    (houtput : Disk.SameRoute folder (rendered.output job).path
      (other.outputFolder.join ⟨rendered.name⟩)) :
    (rendered.moved other.templateFolder).Fits {} other folder target disk := by
  have hname := Path.isFileName_of_fileName? rendered.named
  have hplace : disk.locate .create folder (rendered.output job).path =
      .ok (rendered.name :: target) :=
    (Disk.locate_create_join_iff hopens.plain hopens.stands hopens.isFolder hname).2
      ⟨h.usable, h.short, rfl⟩
  have hplace' := (houtput disk .create hfolder).trans hplace
  obtain ⟨husable, -, -⟩ :=
    (Disk.locate_create_join_iff hopens'.plain hopens'.stands hopens'.isFolder hname).1 hplace'
  refine ⟨?_, rfl, husable, h.short, h.free⟩
  have hread := (Faults.textAt_eq_ok_iff.1 h.readable).2
  exact Faults.textAt_eq_ok_iff.2 ⟨rfl, (htemplate.textAt_eq hfolder).trans hread⟩

end Rendered

/-- A check tells the same of an output, however its path is spelled. -/
theorem Check.Happens.moved {check : Check} {base : Path} (h : check.Happens {} folder disk)
    (hfolder : disk.node? folder = some .folder)
    (houtput : Disk.SameRoute folder check.output.path (base.join ⟨check.output.name⟩)) :
    (check.moved base).Happens {} folder disk := by
  have hpresent : ({} : Faults).presentAt (base.join ⟨check.output.name⟩) disk folder =
      ({} : Faults).presentAt check.output.path disk folder := houtput.isPresent_eq hfolder
  have hread : ({} : Faults).textAt (base.join ⟨check.output.name⟩) disk folder =
      ({} : Faults).textAt check.output.path disk folder := houtput.textAt_eq hfolder
  unfold Happens at h ⊢
  simp only [Check.moved] at h ⊢
  rw [hpresent, hread]
  exact h

namespace Faults

/-- The working folder is still there when the output folder is made. -/
theorem Prepares.node?_folder {templates : List Path}
    (h : ({} : Faults).Prepares engine job folder disk pattern store templates made target)
    (hfolder : disk.node? folder = some .folder) : made.node? folder = some .folder := by
  have hmade := Disk.makeFoldersFrom_keeps_folder hfolder folder
    (job.outputFolder :: job.outputFolder.parents)
  have hmakes : disk.makeFolders folder job.outputFolder = (.ok (), made) :=
    (making_eq_ok_iff.1 h.makes).2
  rwa [← Disk.makeFolders, hmakes] at hmade

/-- **What one job finds, the other finds.** -/
theorem Prepares.respelled (tree : disk.IsTree) (hfolder : disk.node? folder = some .folder)
    (hjobs : job.Respells disk folder other)
    (h : ({} : Faults).Prepares engine job folder disk pattern store (done.map Rendered.template) made
      target) :
    ({} : Faults).Prepares engine other folder disk pattern store
      ((done.map (Rendered.moved other.templateFolder)).map Rendered.template) made target where
  parsed := by
    rw [hjobs.searchPattern]
    exact h.parsed
  built := by
    rw [hjobs.delimiters]
    exact h.built
  loaded := by
    have hpresent : (({} : Faults).outlook other pattern disk folder).present =
        (({} : Faults).outlook job pattern disk folder).present :=
      hjobs.variableFile.isPresent_eq hfolder
    have hcontent : (({} : Faults).outlook other pattern disk folder).content =
        (({} : Faults).outlook job pattern disk folder).content :=
      hjobs.variableFile.textAt_eq hfolder
    exact Outlook.loaded_congr hpresent hcontent h.loaded
  listed := by
    obtain ⟨hthere, hlist⟩ := Outlook.listed_eq_ok_iff.1 h.listed
    exact Outlook.listed_eq_ok_iff.2 ⟨(hjobs.templateFolder.isFolder_eq hfolder).trans hthere,
      Desk.filesAt_respelled tree hfolder hjobs.templateFolder hlist⟩
  makes := making_eq_ok_iff.2 ⟨rfl,
    (hjobs.makes disk hfolder).trans (making_eq_ok_iff.1 h.makes).2⟩
  opens := ⟨h.opens.plain, (hjobs.denotes made target (h.node?_folder hfolder)).2 h.opens.stands,
    h.opens.isFolder⟩

namespace Finishes

variable {templates : List Path}
  (h : ({} : Faults).Finishes job folder store templates made target done checks after)
include h

/-- The checks are of the outputs, where the other job puts them. -/
theorem checked_moved :
    (checks.map (Check.moved other.outputFolder)).map Check.output =
      (done.map (Rendered.moved other.templateFolder)).map (Rendered.output other) := by
  have hchecked := congrArg (List.map fun output : Output =>
    (⟨output.name, other.outputFolder.join ⟨output.name⟩⟩ : Output)) h.checked
  simp only [List.map_map] at hchecked ⊢
  exact hchecked

variable (hdelimiters : other.delimiters = job.delimiters)
  (hfits : ∀ rendered ∈ done,
    (rendered.moved other.templateFolder).Fits {} other folder target made)
include hdelimiters hfits

/-- Templates that are rendered for the other job are those that were rendered for this one. -/
theorem eq_moved {found : List Rendered}
    (hfound : found.map Rendered.template =
      (done.map (Rendered.moved other.templateFolder)).map Rendered.template)
    (hfits' : ∀ rendered ∈ found, rendered.Fits {} other folder target made) :
    found = done.map (Rendered.moved other.templateFolder) ∧
      made.fill target (found.map (Rendered.file {} other store)) = after := by
  obtain rfl : found = done.map (Rendered.moved other.templateFolder) := by
    refine eq_of_map_eq Rendered.template hfound fun a ha b hb => ?_
    obtain ⟨rendered, hmem, rfl⟩ := List.mem_map.1 hb
    exact (hfits' a ha).unique (hfits rendered hmem)
  refine ⟨rfl, ?_⟩
  rw [h.filled, List.map_map]
  congr 1
  exact List.map_congr_left fun rendered _ => rendered.file_moved hdelimiters

variable (hchecks : ∀ check ∈ checks, (check.moved other.outputFolder).Happens {} folder after)
include hchecks

/-- **What is settled for one job is settled for the other.** -/
theorem settles_respelled (hnodup : (done.map Rendered.name).Nodup) :
    ({} : Faults).Settles other folder store
      ((done.map (Rendered.moved other.templateFolder)).map Rendered.template) made target where
  fits template hmem := by
    obtain ⟨moved, hmoved, rfl⟩ := List.mem_map.1 hmem
    obtain ⟨rendered, hrendered, rfl⟩ := List.mem_map.1 hmoved
    exact ⟨_, rfl, hfits rendered hrendered⟩
  nodup := by
    rw [Rendered.filterMap_fileName?, List.map_map]
    exact hnodup
  checks found hfound hfits' rendered hmem := by
    obtain ⟨rfl, hfilled⟩ := h.eq_moved hdelimiters hfits hfound hfits'
    have houtput : rendered.output other ∈
        (checks.map (Check.moved other.outputFolder)).map Check.output := by
      rw [h.checked_moved]
      exact List.mem_map_of_mem hmem
    obtain ⟨moved, hmoved, houtput⟩ := List.mem_map.1 houtput
    obtain ⟨check, hcheck, rfl⟩ := List.mem_map.1 hmoved
    rw [hfilled]
    exact ⟨_, houtput, hchecks check hcheck⟩

/-- **What the other job leaves is the same**, and so is what it says of the outputs. -/
theorem eq_respelled {found : List Rendered} {others : List Check} {last : Disk}
    (h' : ({} : Faults).Finishes other folder store
      ((done.map (Rendered.moved other.templateFolder)).map Rendered.template) made target found
      others last) :
    last = after ∧ Report.ofChecks other.delimiters others = Report.ofChecks job.delimiters checks := by
  obtain ⟨rfl, hfilled⟩ := h.eq_moved hdelimiters hfits h'.rendered h'.fitted
  obtain rfl : last = after := h'.filled.trans hfilled
  refine ⟨rfl, ?_⟩
  obtain rfl : others = checks.map (Check.moved other.outputFolder) := by
    refine eq_of_map_eq Check.output (h'.checked.trans h.checked_moved.symm) fun a ha b hb => ?_
    obtain ⟨check, hcheck, rfl⟩ := List.mem_map.1 hb
    exact (h'.happened a ha).unique (hchecks check hcheck)
  rw [Report.ofChecks_moved, hdelimiters]

end Finishes

end Faults

namespace Desk

/-- **Jobs that differ only in how their paths are spelled come to the same end**, on a disk that
holds a tree without links: where one succeeds so does the other, with the same report and the same
files. -/
theorem run_respelled {desk last : Desk} {report : Report} (tree : desk.disk.IsTree)
    (hfolder : desk.disk.node? desk.folder = some .folder)
    (hjobs : job.Respells desk.disk desk.folder other)
    (hrun : ((workspace engine).run job).run.run desk = (.ok report, last)) :
    ∃ last', ((workspace engine).run other).run.run desk = (.ok report, last') ∧
      last'.SameFiles last := by
  rw [← Workspace.withFaults_none (workspace engine)] at hrun ⊢
  obtain ⟨finish, made, target, hprepares, hfinishes, rfl, hstay⟩ :=
    Faults.exists_finish tree.plain hfolder hrun
  obtain ⟨-, hlist⟩ := Outlook.listed_eq_ok_iff.1 hprepares.listed
  obtain ⟨source, hsource, -, hnames, htemplates, hfiles⟩ := exists_source tree hlist
  have hnodup : (finish.listing.filterMap Path.fileName?).Nodup := by
    rw [Finish.listing, Rendered.filterMap_fileName?]
    exact hnames
  have h := hfinishes hnodup
  -- what was done for this job is moved, and then it settles the other one
  have hprepares' := Faults.Prepares.respelled tree hfolder hjobs hprepares
  have hmade := hprepares.node?_folder hfolder
  have hroutes : ∀ rendered ∈ finish.done,
      Disk.SameRoute desk.folder rendered.template (other.templateFolder.join ⟨rendered.name⟩) ∧
      Disk.SameRoute desk.folder (rendered.output job).path
        (other.outputFolder.join ⟨rendered.name⟩) := by
    intro rendered hmem
    obtain ⟨hfits, content, hfile⟩ := hfiles rendered hmem
    rw [htemplates rendered hmem]
    exact hjobs.names rendered.name
      ⟨source, finish.pattern, content, hsource, hprepares.parsed, hfits, hfile⟩
  have hfits : ∀ rendered ∈ finish.done, (rendered.moved other.templateFolder).Fits {} other
      desk.folder target made := fun rendered hmem =>
    (h.fitted rendered hmem).moved hprepares.opens hprepares'.opens hmade (hroutes rendered hmem).1
      (hroutes rendered hmem).2
  have hchecks : ∀ check ∈ finish.checks,
      (check.moved other.outputFolder).Happens {} desk.folder last.disk := by
    intro check hcheck
    have houtput : check.output ∈ finish.done.map (Rendered.output job) := by
      rw [← h.checked]
      exact List.mem_map_of_mem hcheck
    obtain ⟨rendered, hmem, houtput⟩ := List.mem_map.1 houtput
    refine (h.happened check hcheck).moved ?_ ?_
    · rw [h.filled]
      exact Disk.fill_keeps_folder h.vacant hmade
    · rw [← houtput]
      exact (hroutes rendered hmem).2
  obtain ⟨found, others, last', hrun', h', hstay'⟩ :=
    (h.settles_respelled hjobs.delimiters hfits hchecks hnames).run_eq_ok hprepares'
  obtain ⟨hdisk, hreport⟩ := h.eq_respelled hjobs.delimiters hfits hchecks h'
  rw [hrun', hreport]
  exact ⟨last', rfl, hdisk, hstay'.trans hstay.symm⟩

end Desk

end Stencil
