import Stencil.Proofs.Succeeding

/-!
# Running a job again

A run puts files into its output folder, and makes that folder. Where neither the templates nor the
variables are among these files, a second run finds what the first one found, and puts the same
files there again.

* `Faults.outlook_again`: **a second run finds what the first one found.**
* `Faults.Finishes.fits_again`, `Faults.Finishes.fill_again`: its templates fit, and their outputs
  are there already.
* `Desk.run_again`: **running a job again changes nothing.**
-/

namespace Stencil

variable {engine : Engine} {faults : Faults} {job : Job} {pattern : Glob.Pattern} {store : Variables}
  {folder source target : Disk.Location} {disk made after : Disk} {templates : List Path}
  {done : List Rendered} {checks : List Check}

/-- The outputs that were put are among those that were written. -/
theorem Finish.write_mem {calls : List Call} (finish : Finish engine job calls) {rendered : Rendered}
    (hmem : rendered ∈ finish.done) : rendered.write job finish.store ∈ calls := by
  obtain ⟨pattern, store, looking, done, checks, survey, checked, rfl⟩ := finish
  apply List.mem_append_right
  apply List.mem_cons_of_mem
  apply List.mem_append_left
  exact List.mem_flatMap.2 ⟨rendered, hmem, by simp [Rendered.calls]⟩

namespace Faults

namespace Finishes

variable (h : faults.Finishes job folder store templates made target done checks after)
include h

/-- The output folder is still there after the run. -/
theorem opens (hopens : made.Opens job folder target) : after.Opens job folder target := by
  rw [h.filled]
  exact hopens.fill h.vacant

/-- Every output is a file after the run. -/
theorem exists_output {rendered : Rendered} (hmem : rendered ∈ done) :
    ∃ content, after.node? (rendered.name :: target) = some (.file content) := by
  rw [h.filled]
  refine Disk.exists_file_of_fill made target ?_
  rw [Rendered.fst_files]
  exact List.mem_map_of_mem hmem

/-- Every output is found after the run. -/
theorem locate_output (hopens : made.Opens job folder target) {rendered : Rendered}
    (hmem : rendered ∈ done) : after.locate .find folder (rendered.output job).path =
      .ok (rendered.name :: target) := by
  have hfits := h.fitted rendered hmem
  have hafter := h.opens hopens
  have hname := Path.isFileName_of_fileName? rendered.named
  obtain ⟨content, hfile⟩ := h.exists_output hmem
  exact Disk.locate_find_join hafter.plain hafter.stands hafter.isFolder hname hfits.usable
    hfits.short hfile

/-- **The templates fit again**, if the outputs are put into another folder. -/
theorem fits_again (hopens : made.Opens job folder target)
    (hsource : made.Denotes folder job.templateFolder source) (hapart : source ≠ target)
    (htemplates : ∀ rendered ∈ done, rendered.template = job.templateFolder.join ⟨rendered.name⟩) :
    ∀ rendered ∈ done, rendered.Fits faults job folder target after := by
  intro rendered hmem
  have hfits := h.fitted rendered hmem
  have hname := Path.isFileName_of_fileName? rendered.named
  refine ⟨?_, hfits.writable, hfits.usable, hfits.short, ?_⟩
  · -- the template is in another folder than the outputs, so it is as it was
    obtain ⟨hreadable, htext⟩ := textAt_eq_ok_iff.1 hfits.readable
    obtain ⟨content, hread, htext⟩ := Desk.textAt_eq_ok_iff.1 htext
    obtain ⟨location, hlocate, hfile⟩ := Disk.readBytes_eq_ok_iff.1 hread
    obtain rfl : location = rendered.name :: source := by
      rw [htemplates rendered hmem] at hlocate
      exact Disk.eq_of_locate_join hopens.plain hsource hname hlocate
    refine textAt_eq_ok_iff.2 ⟨hreadable, Desk.textAt_eq_ok_iff.2 ⟨content, ?_, htext⟩⟩
    rw [h.filled]
    refine Disk.readBytes_fill hopens.plain h.vacant hlocate hfile fun name _ heq => ?_
    exact hapart (List.cons.inj heq).2
  · obtain ⟨content, hfile⟩ := h.exists_output hmem
    rw [Disk.hasFolder, hfile]
    rfl

/-- **The outputs are there already.** -/
theorem fill_again (hnodup : (done.map Rendered.name).Nodup) :
    after.fill target (done.map (Rendered.file faults job store)) = after := by
  apply Disk.fill_of_there
  intro file hfile
  rw [h.filled]
  refine Disk.fill_node?_of_mem ?_ hfile
  rw [Rendered.fst_files]
  exact hnodup

/-- **What was settled for a run stays settled**, if the templates fit again. -/
theorem settles_again (hnodup : (templates.filterMap Path.fileName?).Nodup)
    (hfits : ∀ rendered ∈ done, rendered.Fits faults job folder target after) :
    faults.Settles job folder store templates after target where
  fits template hmem := by
    rw [← h.rendered] at hmem
    obtain ⟨rendered, hrendered, rfl⟩ := List.mem_map.1 hmem
    exact ⟨rendered, rfl, hfits rendered hrendered⟩
  nodup := hnodup
  checks found hfound hfits' rendered hmem := by
    obtain rfl : found = done := by
      refine eq_of_map_eq Rendered.template (hfound.trans h.rendered.symm) ?_
      exact fun a ha b hb => (hfits' a ha).unique (hfits b hb)
    have houtput : rendered.output job ∈ checks.map Check.output := by
      rw [h.checked]
      exact List.mem_map_of_mem hmem
    obtain ⟨check, hcheck, heq⟩ := List.mem_map.1 houtput
    rw [h.fill_again (h.nodup_names hnodup)]
    exact ⟨check, heq, h.happened check hcheck⟩

/-- **A second run leaves what the first one left**, and makes the same checks. -/
theorem eq_again (hnodup : (templates.filterMap Path.fileName?).Nodup)
    (hfits : ∀ rendered ∈ done, rendered.Fits faults job folder target after)
    {found : List Rendered} {others : List Check} {last : Disk}
    (h' : faults.Finishes job folder store templates after target found others last) :
    last = after ∧ others = checks := by
  obtain rfl : found = done := by
    refine eq_of_map_eq Rendered.template (h'.rendered.trans h.rendered.symm) ?_
    exact fun a ha b hb => (h'.fitted a ha).unique (hfits b hb)
  obtain rfl : last = after := h'.filled.trans (h.fill_again (h.nodup_names hnodup))
  refine ⟨rfl, eq_of_map_eq Check.output (h'.checked.trans h.checked.symm) ?_⟩
  exact fun a ha b hb => (h'.happened a ha).unique (h.happened b hb)

end Finishes

section Looking

variable
  (hprepares : ({} : Faults).Prepares engine job folder disk pattern store templates made target)
  (h : ({} : Faults).Finishes job folder store templates made target done checks after)
include hprepares h

/-- A run makes folders and puts outputs, and nothing else. -/
theorem grows_of_prepares (plain : disk.Plain) :
    Disk.Grows folder (job.outputFolder :: job.outputFolder.parents) disk made ∧
      disk.KeepsRoutes after := by
  have hgrows := Disk.grows_makeFolders plain folder job.outputFolder
  rw [(making_eq_ok_iff.1 hprepares.makes).2] at hgrows
  refine ⟨hgrows, hgrows.toKeepsRoutes.trans ?_⟩
  rw [h.filled]
  exact Disk.keepsRoutes_fill hgrows.plain h.vacant

/-- The disk is still a tree after the run. -/
theorem sound_of_finishes (sound : disk.Sound) : after.Sound := by
  have hmade := Disk.sound_makeFolders sound folder job.outputFolder
  rw [(making_eq_ok_iff.1 hprepares.makes).2] at hmade
  rw [h.filled]
  exact Disk.sound_fill hmade hprepares.opens.isFolder h.vacant

/-- The variables are read again, if no output is in the place of their file. -/
theorem textAt_again (plain : disk.Plain) {file : Path} {text : Text}
    (htext : Desk.textAt file disk folder = .ok text)
    (hkept : ∀ location, disk.locate .find folder file = .ok location →
      ∀ name ∈ done.map Rendered.name, location ≠ name :: target) :
    Desk.textAt file after folder = .ok text := by
  obtain ⟨hgrows, -⟩ := grows_of_prepares hprepares h plain
  obtain ⟨content, hread, htext⟩ := Desk.textAt_eq_ok_iff.1 htext
  obtain ⟨location, hlocate, hfile⟩ := Disk.readBytes_eq_ok_iff.1 hread
  refine Desk.textAt_eq_ok_iff.2 ⟨content, ?_, htext⟩
  rw [h.filled]
  refine Disk.readBytes_fill hgrows.plain h.vacant (hgrows.leads hlocate) (hgrows.keeps hfile) ?_
  rw [Rendered.fst_files]
  exact hkept location hlocate

/-- The templates are listed again, if the outputs are put into another folder. -/
theorem filesAt_again (sound : disk.Sound) (plain : disk.Plain)
    (hsource : disk.locate .find folder job.templateFolder = .ok source)
    (hfolder : disk.node? source = some .folder) (hapart : source ≠ target) :
    Desk.filesAt job.templateFolder pattern after folder =
      Desk.filesAt job.templateFolder pattern disk folder := by
  obtain ⟨hgrows, hroutes⟩ := grows_of_prepares hprepares h plain
  have hsound := sound_of_finishes hprepares h sound
  have hstill : after.node? source = some .folder := by
    rw [h.filled]
    exact Disk.fill_keeps_folder h.vacant (hgrows.keeps hfolder)
  refine (Desk.filesAt_congr sound hsound hsource (hroutes.leads hsource) hfolder hstill ?_).symm
  intro name content
  have helsewhere : after.node? (name :: source) =
      made.node? (name :: source) := by
    rw [h.filled]
    exact Disk.fill_node?_of_ne fun other _ heq => hapart (List.cons.inj heq).2
  rw [helsewhere, hgrows.file_iff]

/-- **A second run finds what the first one found**, if the first one put its outputs into another
folder than that of the templates, and none of them in the place of the variables. -/
theorem outlook_again (sound : disk.Sound) (plain : disk.Plain)
    (hpresent : disk.isPresent folder job.variableFile = true)
    (hsource : disk.locate .find folder job.templateFolder = .ok source)
    (hfolder : disk.node? source = some .folder) (hapart : source ≠ target)
    (hkept : ∀ location, disk.locate .find folder job.variableFile = .ok location →
      ∀ name ∈ done.map Rendered.name, location ≠ name :: target) :
    ({} : Faults).outlook job pattern after folder = ({} : Faults).outlook job pattern disk folder := by
  obtain ⟨hgrows, hroutes⟩ := grows_of_prepares hprepares h plain
  have hlisting := filesAt_again hprepares h sound plain hsource hfolder hapart
  obtain ⟨content, hcontent⟩ := Outlook.exists_content hprepares.loaded hpresent
  have hread : Desk.textAt job.variableFile disk folder = .ok content := hcontent
  have hread' := textAt_again hprepares h plain hread hkept
  have hpresent' : after.isPresent folder job.variableFile = true := by
    obtain ⟨bytes, hbytes, -⟩ := Desk.textAt_eq_ok_iff.1 hread'
    exact Disk.isPresent_of_readBytes hbytes
  have hthere : disk.isFolder folder job.templateFolder = true :=
    Disk.isFolder_iff.2 ⟨source, hsource, hfolder⟩
  have hthere' : after.isFolder folder job.templateFolder = true := by
    refine Disk.isFolder_iff.2 ⟨source, hroutes.leads hsource, ?_⟩
    rw [h.filled]
    exact Disk.fill_keeps_folder h.vacant (hgrows.keeps hfolder)
  simp only [outlook, presentAt, folderAt, textAt, filesAt, Bool.false_eq_true, if_false,
    Option.elim_none, hpresent, hpresent', hread, hread', hthere, hthere', hlisting]

/-- A second run is prepared like the first one. The output folder is there already. -/
theorem prepares_again (houtlook : ({} : Faults).outlook job pattern after folder =
    ({} : Faults).outlook job pattern disk folder) :
    ({} : Faults).Prepares engine job folder after pattern store templates after target := by
  have hopens := h.opens hprepares.opens
  refine ⟨hprepares.parsed, hprepares.built, houtlook ▸ hprepares.loaded,
    houtlook ▸ hprepares.listed, ?_, hopens⟩
  have hmade := Disk.makeFolders_of_there hopens.plain hopens.stands hopens.isFolder
  exact making_eq_ok_iff.2 ⟨rfl, hmade⟩

end Looking

end Faults

namespace Desk

/-- Templates that were listed are files in the folder of the templates, by different names. -/
theorem exists_source (tree : disk.IsTree)
    (hlist : filesAt job.templateFolder pattern disk folder = .ok (done.map Rendered.template)) :
    ∃ source, disk.locate .find folder job.templateFolder = .ok source ∧
      disk.node? source = some .folder ∧ (done.map Rendered.name).Nodup ∧
      (∀ rendered ∈ done, rendered.template = job.templateFolder.join ⟨rendered.name⟩) ∧
      ∀ rendered ∈ done, pattern.FitsName rendered.name ∧
        ∃ content, disk.node? (rendered.name :: source) = some (.file content) := by
  obtain ⟨source, names, hsource, hfolder, htemplates, hsorted, hnames⟩ :=
    filesAt_eq_ok tree.toSound hlist
  have hproper : ∀ name ∈ names, name.IsFileName := by
    intro name hname
    obtain ⟨-, content, hfile⟩ := (hnames name).1 hname
    exact tree.isFileName hfile
  obtain ⟨rfl, hjoin⟩ := Rendered.names_of_templates htemplates hproper
  exact ⟨source, hsource, hfolder, Storage.nodup_of_increasing hsorted, hjoin,
    fun rendered hmem => (hnames _).1 (List.mem_map_of_mem hmem)⟩

/-- **Running a job again changes nothing**, on a disk that holds a tree without links: if the
variables are there before, the outputs are put into another folder than that of the templates, and
no output is in the place of the variables, then what succeeds once succeeds again, with the same
report and the same files. -/
theorem run_again {desk after later : Desk} {report : Report} (tree : desk.disk.IsTree)
    (hfolder : desk.disk.node? desk.folder = some .folder)
    (hpresent : desk.disk.isPresent desk.folder job.variableFile = true)
    (hrun : ((workspace engine).run job).run.run desk = (.ok report, after))
    (hapart : ∀ location, after.disk.Denotes desk.folder job.templateFolder location →
      ¬ after.disk.Denotes desk.folder job.outputFolder location)
    (hkept : ∀ path text, .writeText path text (.ok ()) ∈ ((workspace engine).history job desk).2 →
      after.disk.locate .find desk.folder path ≠
        after.disk.locate .find desk.folder job.variableFile)
    (hlater : later.SameFiles after) :
    ∃ last, ((workspace engine).run job).run.run later = (.ok report, last) ∧ last.SameFiles after := by
  rw [← Workspace.withFaults_none (workspace engine)] at hrun hkept ⊢
  obtain ⟨finish, made, target, hprepares, hfinishes, rfl, hstay⟩ :=
    Faults.exists_finish tree.plain hfolder hrun
  obtain ⟨-, hlist⟩ := Outlook.listed_eq_ok_iff.1 hprepares.listed
  obtain ⟨source, hsource, hsourceFolder, hnames, htemplates, -⟩ := exists_source tree hlist
  have hnodup : (finish.listing.filterMap Path.fileName?).Nodup := by
    rw [Finish.listing, Rendered.filterMap_fileName?]
    exact hnames
  have h := hfinishes hnodup
  obtain ⟨hgrows, hroutes⟩ := Faults.grows_of_prepares hprepares h tree.plain
  have hother : source ≠ target := by
    rintro rfl
    exact hapart source (.inr (hroutes.leads hsource)) (h.opens hprepares.opens).stands
  -- an output where the variables are would have been written there
  have hvariables : ∀ location, desk.disk.locate .find desk.folder job.variableFile = .ok location →
      ∀ name ∈ finish.done.map Rendered.name, location ≠ name :: target := by
    rintro location hlocate name hname rfl
    obtain ⟨rendered, hmem, rfl⟩ := List.mem_map.1 hname
    apply hkept _ _ (finish.write_mem hmem)
    rw [hroutes.leads hlocate]
    exact h.locate_output hprepares.opens hmem
  have hfits := h.fits_again hprepares.opens (.inr (hgrows.leads hsource)) hother htemplates
  have hsettles := h.settles_again hnodup hfits
  have hagain := Faults.prepares_again hprepares h <|
    Faults.outlook_again hprepares h tree.toSound tree.plain hpresent hsource hsourceFolder hother
      hvariables
  rw [← hstay, ← hlater.folder] at hsettles hagain
  rw [← hlater.disk] at hsettles hagain
  obtain ⟨found, others, last, hrun', h', hstay'⟩ := hsettles.run_eq_ok hagain
  rw [hlater.folder, hstay, hlater.disk] at h'
  obtain ⟨hdisk, hchecks⟩ := h.eq_again hnodup hfits h'
  rw [hrun', hchecks]
  exact ⟨last, rfl, hdisk, hstay'.trans hlater.folder⟩

theorem letters_isTree : letters.disk.IsTree :=
  Disk.isTree_of_entries (by decide) (by decide) (by simp [letters])

/-- The letters are rendered twice, and the second time nothing changes. -/
theorem run_again_letters :
    let after := (((workspace .unbounded).run lettersJob).run.run letters).2
    let report : Report := ⟨3, [(['a'], []), (['b'], []), (['c'], [])]⟩
    letters.disk.IsTree ∧ letters.disk.node? letters.folder = some .folder ∧
      letters.disk.isPresent letters.folder lettersJob.variableFile = true ∧
      ((workspace .unbounded).run lettersJob).run.run letters = (.ok report, after) ∧
      ∃ last, ((workspace .unbounded).run lettersJob).run.run after = (.ok report, last) ∧
        last.SameFiles after := by
  intro after report
  have hpresent : letters.disk.isPresent letters.folder lettersJob.variableFile = true := by
    decide +kernel
  have hresult : (((workspace .unbounded).run lettersJob).run.run letters).1 =
      .ok report := by decide +kernel
  have hrun : ((workspace .unbounded).run lettersJob).run.run letters = (.ok report, after) :=
    Prod.ext hresult rfl
  have htemplates : after.disk.locate .find letters.folder (.ofText ['t']) =
      .ok [Utf8.encode ['t']] := by
    decide +kernel
  have houtputs : after.disk.locate .find letters.folder (.ofText ['o']) = .ok [Utf8.encode ['o']] := by
    decide +kernel
  have hvariables : after.disk.locate .find letters.folder (.ofText ['v']) =
      .ok [Utf8.encode ['v']] := by
    decide +kernel
  have hapart : ∀ location, after.disk.Denotes letters.folder lettersJob.templateFolder location →
      ¬ after.disk.Denotes letters.folder lettersJob.outputFolder location := by
    rintro location (⟨hempty, -⟩ | hsource) (⟨hempty', -⟩ | htarget)
    · cases hempty
    · cases hempty
    · cases hempty'
    · cases htemplates.symm.trans hsource
      cases houtputs.symm.trans htarget
  have hwrites : (((workspace .unbounded).history lettersJob letters).2.all fun call =>
      match call with
      | .writeText path _ _ => decide (after.disk.locate .find letters.folder path ≠
        .ok [Utf8.encode ['v']])
      | _ => true) = true := by
    decide +kernel
  have hkept : ∀ path text, .writeText path text (.ok ()) ∈
      ((workspace .unbounded).history lettersJob letters).2 →
        after.disk.locate .find letters.folder path ≠
        after.disk.locate .find letters.folder lettersJob.variableFile := by
    intro path text hmem
    have hwrite := List.all_eq_true.1 hwrites _ hmem
    exact hvariables ▸ of_decide_eq_true hwrite
  exact ⟨letters_isTree, rfl, hpresent, hrun,
    run_again letters_isTree rfl hpresent hrun hapart hkept (.refl after)⟩

end Desk

end Stencil
