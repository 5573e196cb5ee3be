import Stencil.Proofs.Fitting
import Stencil.Proofs.ReadBack

/-!
# What lets a run succeed

A run succeeds exactly if it finds what it needs, its templates fit the output folder, and its
outputs can be checked. Each of these is settled by a disk: by that before the run, by that with the
output folder made, and by that with the outputs put there.

* `Check.Happens`: what a check tells of a disk.
* `ChecksAll.exists_happening`: **outputs that can be checked** are all checked.
* `Faults.Prepares`, `Faults.Settles`: what is found by a run, and what is settled before it
  renders.
* `Faults.exists_finish`: **what a run that succeeds has found and done.**
* `Faults.Settles.run_eq_ok`: **a run for which all is settled well succeeds.**
-/

namespace Stencil

variable {engine : Engine} {faults : Faults} {job : Job} {pattern : Glob.Pattern} {store : Variables}
  {folder target : Disk.Location} {disk made after : Disk} {templates : List Path}
  {calls : List Call}

/-- The disk answers the check so: nothing is seen at the output, or the text is read from it. -/
def Check.Happens (faults : Faults) (folder : Disk.Location) (disk : Disk) (check : Check) : Prop :=
  match check.found with
  | none => faults.presentAt check.output.path disk folder = false
  | some text => faults.presentAt check.output.path disk folder = true ∧
    faults.textAt check.output.path disk folder = .ok text

section Checking

variable {delimiters : Delimiters} {output : Output} {outputs : List Output}
  {files : List (Text × List Text)} {check other : Check} {checks : List Check}

theorem Check.leads_calls_iff : faults.Leads folder disk check.calls after ↔
    check.Happens faults folder disk ∧ after = disk := by
  obtain ⟨output, found⟩ := check
  unfold Check.calls Check.Happens
  cases found with
  | none =>
    constructor
    · rintro ⟨_, ⟨hgone, rfl⟩, rfl⟩
      exact ⟨hgone, rfl⟩
    · rintro ⟨hgone, rfl⟩
      exact ⟨_, ⟨hgone, rfl⟩, rfl⟩
  | some text =>
    constructor
    · rintro ⟨_, ⟨hpresent, rfl⟩, _, ⟨hread, rfl⟩, rfl⟩
      exact ⟨⟨hpresent, hread⟩, rfl⟩
    · rintro ⟨⟨hpresent, hread⟩, rfl⟩
      exact ⟨_, ⟨hpresent, rfl⟩, _, ⟨hread, rfl⟩, rfl⟩

/-- A disk answers a check only in one way. -/
theorem Check.Happens.unique (h : check.Happens faults folder disk)
    (h' : other.Happens faults folder disk) (houtput : check.output = other.output) :
    check = other := by
  obtain ⟨output, found⟩ := check
  obtain ⟨_, found'⟩ := other
  obtain rfl : output = _ := houtput
  unfold Happens at h h'
  cases found with
  | none =>
    cases found' with
    | none => rfl
    | some text' => cases h.symm.trans h'.1
  | some text =>
    cases found' with
    | none => cases h'.symm.trans h.1
    | some text' =>
      cases h.2.symm.trans h'.2
      rfl

/-- Checks that were made on a disk tell of it. -/
theorem happens_of_leads (h : faults.Leads folder disk (checks.flatMap Check.calls) after) :
    ∀ check ∈ checks, check.Happens faults folder disk := by
  induction checks with
  | nil => simp
  | cons first checks ih =>
    rw [List.flatMap_cons, Faults.leads_append_iff] at h
    obtain ⟨between, hfirst, hlater⟩ := h
    obtain ⟨hhappens, rfl⟩ := Check.leads_calls_iff.1 hfirst
    exact List.forall_mem_cons.2 ⟨hhappens, ih hlater⟩

/-- An output that can be checked does not end the run. -/
theorem Check.Happens.not_failed {failure : Failure} (h : check.Happens faults folder disk)
    (hcheck : Checks delimiters check.output calls (.error failure))
    (hleads : faults.Leads folder disk calls after) : False := by
  obtain ⟨output, found⟩ := check
  unfold Happens at h
  cases hcheck with
  | unreadable cause =>
    obtain ⟨_, ⟨hpresent, rfl⟩, _, ⟨hfail, -⟩, -⟩ := hleads
    cases found with
    | none => cases h.symm.trans hpresent
    | some text => cases h.2.symm.trans hfail

/-- **Outputs that can be checked are all checked.** -/
theorem ChecksAll.exists_happening {result : Except Failure (List (Text × List Text))}
    (h : ChecksAll delimiters files outputs calls result)
    (hleads : faults.Leads folder disk calls after)
    (hall : ∀ output ∈ outputs, ∃ check : Check, check.output = output ∧
      check.Happens faults folder disk) :
    ∃ checks : List Check, checks.map Check.output = outputs ∧
      (∀ check ∈ checks, check.Happens faults folder disk) ∧
      result = .ok (Report.addChecks delimiters files checks) := by
  induction h with
  | finished files => exact ⟨[], rfl, by simp, rfl⟩
  | stopped files outputs hcheck =>
    obtain ⟨check, rfl, hhappens⟩ := hall _ List.mem_cons_self
    exact (hhappens.not_failed hcheck hleads).elim
  | next hcheck later ih =>
    obtain ⟨check, rfl, rfl, rfl⟩ := hcheck.exists_check
    obtain ⟨between, hfirst, hlater⟩ := Faults.leads_append_iff.1 hleads
    obtain ⟨hhappens, rfl⟩ := Check.leads_calls_iff.1 hfirst
    obtain ⟨checks, rfl, hchecks, rfl⟩ :=
      ih hlater fun output hmem => hall output (List.mem_cons_of_mem _ hmem)
    exact ⟨check :: checks, rfl, List.forall_mem_cons.2 ⟨hhappens, hchecks⟩, rfl⟩

end Checking

namespace Faults

/-- A run finds the variables and the templates on the disk, and makes the output folder. -/
structure Prepares (faults : Faults) (engine : Engine) (job : Job) (folder : Disk.Location)
    (disk : Disk) (pattern : Glob.Pattern) (store : Variables) (templates : List Path) (made : Disk)
    (target : Disk.Location) : Prop where
  parsed : Glob.Pattern.parse job.searchPattern = .ok pattern
  built : engine.Builds job.delimiters
  loaded : (faults.outlook job pattern disk folder).loaded job = .ok store
  listed : (faults.outlook job pattern disk folder).listed job = .ok templates
  makes : faults.making job.outputFolder disk folder = (.ok (), made)
  opens : made.Opens job folder target

/-- A run that gets past the making of the output folder has found what there is. -/
theorem Prepares.eq_of_surveys
    (h : faults.Prepares engine job folder disk pattern store templates made target)
    {other : Glob.Pattern} {found : Variables} {listing : List Path} {looking rest : List Call}
    (hsurvey : Surveys engine job other found listing looking)
    (hleads : faults.Leads folder disk
      (looking ++ .createFolders job.outputFolder (.ok ()) :: rest) after) :
    found = store ∧ listing = templates ∧ faults.Leads folder made rest after := by
  obtain ⟨hparsed, -⟩ := hsurvey.passes
  rw [h.parsed] at hparsed
  cases hparsed
  obtain ⟨between, hlooking, _, hmake, hrest⟩ := leads_append_iff.1 hleads
  obtain ⟨hloaded, hlisted, rfl⟩ := outlook_of_surveys hsurvey hlooking
  rw [h.loaded] at hloaded
  rw [h.listed] at hlisted
  cases hloaded
  cases hlisted
  change faults.making _ _ _ = _ at hmake
  rw [h.makes] at hmake
  cases hmake
  exact ⟨rfl, rfl, hrest⟩

/-- What is settled of a run with its output folder made: its templates have different names and
fit, and its outputs can be checked where they are put. -/
structure Settles (faults : Faults) (job : Job) (folder : Disk.Location) (store : Variables)
    (templates : List Path) (made : Disk) (target : Disk.Location) : Prop where
  fits : ∀ template ∈ templates, ∃ rendered : Rendered, rendered.template = template ∧
    rendered.Fits faults job folder target made
  nodup : (templates.filterMap Path.fileName?).Nodup
  checks : ∀ done : List Rendered, done.map Rendered.template = templates →
    (∀ rendered ∈ done, rendered.Fits faults job folder target made) →
    ∀ rendered ∈ done, ∃ check : Check, check.output = rendered.output job ∧
      check.Happens faults folder (made.fill target (done.map (Rendered.file faults job store)))

/-- What a run has done that renders the templates and checks the outputs. -/
structure Finishes (faults : Faults) (job : Job) (folder : Disk.Location) (store : Variables)
    (templates : List Path) (made : Disk) (target : Disk.Location) (done : List Rendered)
    (checks : List Check) (after : Disk) : Prop where
  rendered : done.map Rendered.template = templates
  fitted : ∀ rendered ∈ done, rendered.Fits faults job folder target made
  filled : after = made.fill target (done.map (Rendered.file faults job store))
  checked : checks.map Check.output = done.map (Rendered.output job)
  happened : ∀ check ∈ checks, check.Happens faults folder after

section Finished

variable {done : List Rendered} {checks : List Check}
  (h : faults.Finishes job folder store templates made target done checks after)
include h

theorem Finishes.vacant :
    made.Vacant target ((done.map (Rendered.file faults job store)).map Prod.fst) :=
  Rendered.vacant_of_fits store h.fitted

/-- The checks are of files of the names of the templates. -/
theorem Finishes.names_checks :
    (checks.map fun check => check.output.name) = done.map Rendered.name := by
  have hnames := congrArg (List.map Output.name) h.checked
  rwa [List.map_map, List.map_map] at hnames

theorem Finishes.nodup_names (hnodup : (templates.filterMap Path.fileName?).Nodup) :
    (done.map Rendered.name).Nodup := by
  rw [← h.rendered, Rendered.filterMap_fileName?] at hnodup
  exact hnodup

end Finished

/-- **What a run that succeeds has found and done.** It has rendered the templates and checked the
outputs in the same way, if the templates have different names. -/
theorem exists_finish {desk last : Desk} {report : Report} (plain : desk.disk.Plain)
    (hfolder : desk.disk.node? desk.folder = some .folder)
    (hrun : (((Desk.workspace engine).withFaults faults).run job).run.run desk = (.ok report, last)) :
    ∃ finish : Finish engine job (((Desk.workspace engine).withFaults faults).history job desk).2,
      ∃ made target, faults.Prepares engine job desk.folder desk.disk finish.pattern finish.store
          finish.listing made target ∧
        ((finish.listing.filterMap Path.fileName?).Nodup →
          faults.Finishes job desk.folder finish.store finish.listing made target finish.done
            finish.checks last.disk) ∧
        report = Report.ofChecks job.delimiters finish.checks ∧ last.folder = desk.folder := by
  obtain ⟨hstay, hleads⟩ := faults.leads_history engine job desk
  have hruns : Runs engine job _ _ :=
    ((Desk.workspace engine).withFaults faults).runs_history job desk
  rw [hrun] at hruns hstay hleads
  obtain ⟨finish, hreport⟩ := hruns.exists_finish
  rw [finish.history] at hleads
  obtain ⟨_, hlooking, made, hmake, hrest⟩ := leads_append_iff.1 hleads
  obtain ⟨hloaded, hlisted, rfl⟩ := outlook_of_surveys finish.survey hlooking
  obtain ⟨rendered, hrendering, hchecking⟩ := leads_append_iff.1 hrest
  obtain rfl : last.disk = rendered := hchecking.eq_of_looks finish.checks_mutates_nil
  obtain ⟨hgrows, target, hstands, htarget⟩ :=
    Disk.makeFolders_eq_ok plain hfolder (making_eq_ok_iff.1 hmake).2
  have hopens : made.Opens job desk.folder target := ⟨hgrows.plain, hstands, htarget⟩
  refine ⟨finish, made, target,
    ⟨finish.survey.passes.1, finish.survey.passes.2, hloaded, hlisted, hmake, hopens⟩,
    fun hnodup => ?_, hreport, hstay⟩
  rw [Finish.listing, Rendered.filterMap_fileName?] at hnodup
  obtain ⟨hfits, hfilled⟩ := Rendered.fits_of_leads hopens hnodup hrendering
  exact ⟨rfl, hfits, hfilled, finish.checked, happens_of_leads hchecking⟩

/-- Where all is settled well, rendering does not fail, and neither do the checks after it. -/
theorem Settles.finishes (h : faults.Settles job folder store templates made target)
    (hopens : made.Opens job folder target) {rendering checking : List Call} {outputs : List Output}
    {result : Except Failure (List (Text × List Text))}
    (hrender : RendersAll job store templates rendering (.ok outputs))
    (hcheck : ChecksAll job.delimiters [] outputs checking result)
    (hleads : faults.Leads folder made (rendering ++ checking) after) :
    ∃ done checks, faults.Finishes job folder store templates made target done checks after ∧
      outputs.length = checks.length ∧
      result = .ok (Report.addChecks job.delimiters [] checks) := by
  obtain ⟨between, hrendering, hchecking⟩ := leads_append_iff.1 hleads
  obtain rfl : after = between := hchecking.eq_of_looks hcheck.mutates_nil
  obtain ⟨done, hdone, houtputs, hall, rfl⟩ :=
    hrender.exists_done hopens h.fits h.nodup hrendering
  cases houtputs
  have hready : ∀ output ∈ done.map (Rendered.output job), ∃ check : Check,
      check.output = output ∧ check.Happens faults folder
        (made.fill target (done.map (Rendered.file faults job store))) := by
    intro output hmem
    obtain ⟨rendered, hrendered, rfl⟩ := List.mem_map.1 hmem
    exact h.checks done hdone hall rendered hrendered
  obtain ⟨checks, hchecked, hhappened, rfl⟩ := hcheck.exists_happening hchecking hready
  refine ⟨done, checks, ⟨hdone, hall, rfl, hchecked, hhappened⟩, ?_, rfl⟩
  rw [← hchecked, List.length_map]

/-- **A run for which all is settled well succeeds.** It finds what it needs, renders the templates,
and reports on the checks of the outputs. -/
theorem Settles.run_eq_ok {desk : Desk}
    (h : faults.Settles job desk.folder store templates made target)
    (hprepares : faults.Prepares engine job desk.folder desk.disk pattern store templates made target) :
    ∃ done checks last, (((Desk.workspace engine).withFaults faults).run job).run.run desk =
        (.ok (Report.ofChecks job.delimiters checks), last) ∧
      faults.Finishes job desk.folder store templates made target done checks last.disk ∧
      last.folder = desk.folder := by
  obtain ⟨hstay, hleads⟩ := faults.leads_history engine job desk
  have hruns : Runs engine job _ _ :=
    ((Desk.workspace engine).withFaults faults).runs_history job desk
  generalize (((Desk.workspace engine).withFaults faults).history job desk).2 = calls at hleads hruns
  generalize (((Desk.workspace engine).withFaults faults).run job).run.run desk = ended at *
  obtain ⟨result, last⟩ := ended
  -- no history that ends in a failure agrees with what was settled
  cases hruns with
  | badPattern hpattern =>
    rw [hprepares.parsed] at hpattern
    cases hpattern
  | unmatched hpattern hfault =>
    cases (Engine.fault?_eq_none_iff.2 hprepares.built).symm.trans hfault
  | unloaded hpattern hmatchers hload =>
    have hloaded := hprepares.loaded
    rw [loaded_outlook hload hleads] at hloaded
    cases hloaded
  | unlisted hpattern hmatchers hload hlist =>
    rw [hprepares.parsed] at hpattern
    cases hpattern
    obtain ⟨between, hloading, hlisting⟩ := leads_append_iff.1 hleads
    obtain rfl := hloading.eq_of_looks hload.mutates_nil
    have hlisted := hprepares.listed
    rw [listed_outlook hlist hlisting] at hlisted
    cases hlisted
  | unmade survey cause =>
    obtain ⟨between, hlooking, _, hmake, -⟩ := leads_append_iff.1 hleads
    obtain rfl := hlooking.eq_of_looks survey.mutates_nil
    change faults.making _ _ _ = _ at hmake
    rw [hprepares.makes] at hmake
    cases hmake
  | unrendered survey hrender =>
    obtain ⟨rfl, rfl, hrendering⟩ := hprepares.eq_of_surveys survey hleads
    obtain ⟨done, -, hfail, -⟩ := hrender.exists_done hprepares.opens h.fits h.nodup hrendering
    cases hfail
  | unverified survey hrender hcheck =>
    obtain ⟨rfl, rfl, hrest⟩ := hprepares.eq_of_surveys survey hleads
    obtain ⟨done, checks, -, -, hfail⟩ := h.finishes hprepares.opens hrender hcheck hrest
    cases hfail
  | reported survey hrender hcheck =>
    obtain ⟨rfl, rfl, hrest⟩ := hprepares.eq_of_surveys survey hleads
    obtain ⟨done, checks, hfinishes, hlength, hfiles⟩ :=
      h.finishes hprepares.opens hrender hcheck hrest
    cases hfiles
    refine ⟨done, checks, last, ?_, hfinishes, hstay⟩
    rw [Report.ofChecks, hlength]

end Faults

end Stencil
