import Stencil.Proofs.Succeeding

/-!
# Templates in another order

The files of a folder can be enumerated in any order. What a run comes to does not depend on it: the
outputs are the same in every order, and the report is sorted.

* `Disk.fill_perm`: a folder is filled alike in every order.
* `Report.ofChecks_alike`, `Report.ofChecks_perm`: **a report on checks** says the same in every
  order of the files that have a base name of their own, and is the same if all have.
* `Faults.Finishes.settles_relisted`: what is settled in one order is settled in every other.
* `Desk.run_of_perm`: **a run does not depend on the order** in which the templates are listed.
-/

namespace Stencil

variable {folder location target : Disk.Location} {disk other : Disk} {path : Path}

namespace Disk

variable {purpose : Purpose} {steps : List Step} {files others : List (Bytes × Bytes)}

/-- A walk depends only on what is where. -/
theorem advance_congr (h : ∀ location, disk.node? location = other.node? location) :
    disk.advance purpose location steps = other.advance purpose location steps := by
  induction steps generalizing location with
  | nil => rfl
  | cons step rest ih => simp only [advance, h, ih]

theorem walk_congr (h : ∀ location, disk.node? location = other.node? location) (links : Nat) :
    disk.walk purpose links location steps = other.walk purpose links location steps := by
  induction links generalizing location steps with
  | zero =>
    unfold walk
    rw [advance_congr h]
  | succ links ih =>
    unfold walk
    rw [advance_congr h]
    simp only [ih]

/-- Where a path leads depends only on what is where. -/
theorem locate_congr (h : ∀ location, disk.node? location = other.node? location) :
    disk.locate purpose folder path = other.locate purpose folder path := by
  simp only [locate, walk_congr h]

theorem readBytes_congr (h : ∀ location, disk.node? location = other.node? location) :
    disk.readBytes folder path = other.readBytes folder path := by
  simp only [readBytes, locate_congr h, h]

/-- **A folder is filled alike in every order**, if the files have different names. -/
theorem fill_perm (hperm : files.Perm others) (hnodup : (files.map Prod.fst).Nodup)
    (location : Location) :
    (disk.fill target files).node? location = (disk.fill target others).node? location := by
  have hothers : (others.map Prod.fst).Nodup := (hperm.map Prod.fst).nodup_iff.1 hnodup
  by_cases hput : ∃ name ∈ files.map Prod.fst, location = name :: target
  · obtain ⟨name, hname, rfl⟩ := hput
    obtain ⟨⟨_, content⟩, hfile, rfl⟩ := List.mem_map.1 hname
    rw [fill_node?_of_mem hnodup hfile, fill_node?_of_mem hothers (hperm.subset hfile)]
  · have hfiles : ∀ name ∈ files.map Prod.fst, location ≠ name :: target :=
      fun name hname heq => hput ⟨name, hname, heq⟩
    rw [fill_node?_of_ne hfiles, fill_node?_of_ne fun name hname => hfiles name ?_]
    exact (hperm.map Prod.fst).symm.subset hname

end Disk

namespace Report

variable {delimiters : Delimiters} {checks others : List Check}

/-- Reports on files of these base names **say the same of every file that has a base name of its
own**: they are on equally many files, have entries for the same names, and the same one for a name
that only one of the files has. -/
structure Alike (names : List Text) (report other : Report) : Prop where
  filesProcessed : report.filesProcessed = other.filesProcessed
  named : ∀ name, (report.unresolved.lookup name).isSome = (other.unresolved.lookup name).isSome
  entry : ∀ name, names.count name = 1 →
    report.unresolved.lookup name = other.unresolved.lookup name

/-- **What is told of a name** is what the last of its checks found. -/
theorem lookup_addChecks (name : Text) (files : List (Text × List Text)) :
    (addChecks delimiters files checks).lookup name =
      ((checks.filter fun check => check.output.baseName == name).getLast?.map
        (Check.tokens delimiters)).or (files.lookup name) := by
  induction checks generalizing files with
  | nil => rfl
  | cons check checks ih =>
    have hstep : addChecks delimiters files (check :: checks) = addChecks delimiters
        (addFile check.output.baseName (check.tokens delimiters) files) checks := rfl
    rw [hstep, ih, lookup_addFile, List.filter_cons]
    by_cases h : check.output.baseName = name
    · rw [if_pos h.symm, if_pos (beq_iff_eq.2 h), List.getLast?_cons]
      cases (checks.filter fun check => check.output.baseName == name).getLast? <;> rfl
    · rw [if_neg (Ne.symm h), if_neg (by simpa using h)]

/-- **A report on checks says the same in every order** of the files that have a base name of their
own. -/
theorem ofChecks_alike (hperm : checks.Perm others) :
    Alike (checks.map fun check => check.output.baseName) (ofChecks delimiters checks)
      (ofChecks delimiters others) where
  filesProcessed := hperm.length_eq
  named name := by
    have hsame := (hperm.filter fun check => check.output.baseName == name).isEmpty_eq
    simp only [ofChecks, lookup_addChecks, List.lookup_nil, Option.or_none, Option.isSome_map]
    rw [Bool.eq_iff_iff, List.getLast?_isSome, List.getLast?_isSome, ne_eq, ne_eq,
      ← List.isEmpty_iff, ← List.isEmpty_iff, hsame]
  entry name hcount := by
    have hlength : (checks.filter fun check => check.output.baseName == name).length = 1 := by
      rwa [List.count_eq_countP, List.countP_map, List.countP_eq_length_filter] at hcount
    obtain ⟨check, hcheck⟩ := List.length_eq_one_iff.1 hlength
    have hother := hperm.filter fun check => check.output.baseName == name
    rw [hcheck, List.singleton_perm] at hother
    simp only [ofChecks, lookup_addChecks, hcheck, hother]

/-- **A report on checks is the same in every order**, if the files have different base names. -/
theorem ofChecks_perm (hperm : checks.Perm others)
    (hnodup : (checks.map fun check => check.output.baseName).Nodup) :
    ofChecks delimiters checks = ofChecks delimiters others := by
  have hothers : (others.map fun check => check.output.baseName).Nodup :=
    (hperm.map _).nodup_iff.1 hnodup
  have hfiles : (addChecks delimiters [] checks).Perm (addChecks delimiters [] others) := by
    have hfirst : (addChecks delimiters [] checks).Perm (checks.map (Check.entry delimiters) ++ []) :=
      addChecks_perm (by simpa using hnodup)
    have hsecond : (addChecks delimiters [] others).Perm
        (others.map (Check.entry delimiters) ++ []) := addChecks_perm (by simpa using hothers)
    exact (hfirst.trans ((hperm.map _).append_right [])).trans hsecond.symm
  -- both are sorted by the names, so they are one list
  have hequal : addChecks delimiters [] checks = addChecks delimiters [] others := by
    refine List.Perm.eq_of_pairwise (fun a b _ _ hab hba => ?_) (addChecks_pairwise .nil)
      (addChecks_pairwise .nil) hfiles
    simp only [Text.before, decide_eq_true_eq] at hab hba
    exact absurd (List.lt_trans hab hba) (List.lt_irrefl _)
  rw [ofChecks, ofChecks, hequal, hperm.length_eq]

end Report

/-- The faults with another listing. -/
def Faults.relisted (faults : Faults) (files : List Path) : Faults :=
  { faults with listing? := fun _ => some files }

variable {engine : Engine} {faults : Faults} {job : Job} {pattern : Glob.Pattern} {store : Variables}
  {made after : Disk} {templates files others : List Path} {done : List Rendered}
  {checks : List Check}

/-- Checks tell the same of disks with the same nodes. -/
theorem Check.Happens.congr {check : Check} (h : check.Happens faults folder disk)
    (hnodes : ∀ location, disk.node? location = other.node? location) :
    check.Happens faults folder other := by
  have hread : ∀ file, faults.textAt file other folder = faults.textAt file disk folder := by
    intro file
    simp only [Faults.textAt, Desk.textAt, Disk.readBytes_congr hnodes]
  have hpresent : ∀ path, faults.presentAt path other folder = faults.presentAt path disk folder := by
    intro path
    simp only [Faults.presentAt, Disk.isPresent, Disk.locate_congr hnodes]
  unfold Happens at h ⊢
  cases hfound : check.found with
  | none =>
    rw [hfound] at h
    exact (hpresent _).trans h
  | some text =>
    rw [hfound] at h
    exact ⟨(hpresent _).trans h.1, (hread _).trans h.2⟩

namespace Faults

/-- Rendering lists nothing, so a template fits with one listing as with another. -/
theorem fits_relisted {rendered : Rendered}
    (h : rendered.Fits (faults.relisted files) job folder target disk) (others : List Path) :
    rendered.Fits (faults.relisted others) job folder target disk :=
  ⟨h.readable, h.writable, h.usable, h.short, h.free⟩

/-- Checking lists nothing. -/
theorem happens_relisted {check : Check} (h : check.Happens (faults.relisted files) folder disk)
    (others : List Path) : check.Happens (faults.relisted others) folder disk := h

/-- The templates that are listed are those of the listing. -/
theorem listed_relisted_iff : ((faults.relisted files).outlook job pattern disk folder).listed job =
    .ok templates ↔ faults.folderAt job.templateFolder disk folder = true ∧
      faults.unlistable? job.templateFolder = none ∧ templates = files := by
  have hfiles : (faults.relisted files).filesAt job.templateFolder pattern disk folder =
      (faults.unlistable? job.templateFolder).elim (.ok files) .error := rfl
  rw [Outlook.listed_eq_ok_iff]
  refine and_congr .rfl ?_
  change (faults.relisted files).filesAt job.templateFolder pattern disk folder = _ ↔ _
  rw [hfiles]
  cases faults.unlistable? job.templateFolder with
  | none => simp [@eq_comm _ files templates]
  | some cause => simp

/-- A run finds the same with another listing, but for the templates. -/
theorem Prepares.relisted
    (h : (faults.relisted files).Prepares engine job folder disk pattern store templates made target)
    (others : List Path) : templates = files ∧
      (faults.relisted others).Prepares engine job folder disk pattern store others made target := by
  obtain ⟨hfolder, hlistable, rfl⟩ := listed_relisted_iff.1 h.listed
  exact ⟨rfl, h.parsed, h.built, h.loaded, listed_relisted_iff.2 ⟨hfolder, hlistable, rfl⟩, h.makes,
    h.opens⟩

/-- Templates that were rendered in one order and in another are the same templates. -/
theorem perm_of_fits {found : List Rendered}
    (hperm : (done.map Rendered.template).Perm (found.map Rendered.template))
    (hdone : ∀ rendered ∈ done, rendered.Fits faults job folder target disk)
    (hfound : ∀ rendered ∈ found, rendered.Fits faults job folder target disk) :
    done.Perm found :=
  perm_of_map_perm Rendered.template hperm fun rendered hmem other hother htemplate =>
    (hdone rendered hmem).unique (hfound other hother) htemplate

/-- The outputs are the same in every order. -/
theorem fill_of_perm {found : List Rendered} (hperm : done.Perm found)
    (hnodup : (done.map Rendered.name).Nodup) (location : Disk.Location) :
    (made.fill target (done.map (Rendered.file faults job store))).node? location =
      (made.fill target (found.map (Rendered.file faults job store))).node? location := by
  refine Disk.fill_perm (hperm.map _) ?_ location
  rw [Rendered.fst_files]
  exact hnodup

variable (h : (faults.relisted files).Finishes job folder store files made target done checks after)
  (hperm : files.Perm others) (hnodup : (files.filterMap Path.fileName?).Nodup)
include h hperm hnodup

/-- **What is settled in one order** is settled in every other. -/
theorem Finishes.settles_relisted :
    (faults.relisted others).Settles job folder store others made target where
  fits template hmem := by
    have hmem : template ∈ done.map Rendered.template := h.rendered ▸ hperm.symm.subset hmem
    obtain ⟨rendered, hrendered, rfl⟩ := List.mem_map.1 hmem
    exact ⟨rendered, rfl, fits_relisted (h.fitted rendered hrendered) others⟩
  nodup := (hperm.filterMap _).nodup_iff.1 hnodup
  checks found hfound hfits rendered hmem := by
    have hsame : done.Perm found := by
      refine perm_of_fits ?_ h.fitted fun rendered hmem => fits_relisted (hfits rendered hmem) files
      rw [h.rendered, hfound]
      exact hperm
    -- the output was checked after the first run, on a disk that is the same
    have houtput : rendered.output job ∈ checks.map Check.output := by
      rw [h.checked]
      exact List.mem_map_of_mem (hsame.symm.subset hmem)
    obtain ⟨check, hcheck, heq⟩ := List.mem_map.1 houtput
    have hhappens := h.happened check hcheck
    rw [h.filled] at hhappens
    exact ⟨check, heq, happens_relisted
      (hhappens.congr (fill_of_perm hsame (h.nodup_names hnodup))) others⟩

/-- Two runs on the templates in different orders leave the same, and make the same checks. -/
theorem Finishes.agree {found : List Rendered} {others' : List Check} {last : Disk}
    (h' : (faults.relisted others).Finishes job folder store others made target found others' last) :
    (∀ location, after.node? location = last.node? location) ∧ checks.Perm others' := by
  have hsame : done.Perm found := by
    refine perm_of_fits ?_ h.fitted fun rendered hmem =>
      fits_relisted (h'.fitted rendered hmem) files
    rw [h.rendered, h'.rendered]
    exact hperm
  have hnodes : ∀ location, after.node? location = last.node? location := by
    intro location
    rw [h.filled, h'.filled]
    exact fill_of_perm hsame (h.nodup_names hnodup) location
  refine ⟨hnodes, perm_of_map_perm Check.output ?_ fun check hcheck other hother houtput => ?_⟩
  · rw [h.checked, h'.checked]
    exact hsame.map _
  · have hbefore := happens_relisted ((h.happened check hcheck).congr hnodes) others
    exact hbefore.unique (h'.happened other hother) houtput

end Faults

namespace Desk

/-- A run that succeeds on one listing succeeds on every order of it. -/
theorem run_relisted {desk last : Desk} {report : Report} (plain : desk.disk.Plain)
    (hfolder : desk.disk.node? desk.folder = some .folder) (hperm : files.Perm others)
    (hnodup : (files.filterMap Path.fileName?).Nodup)
    (hrun : (((workspace engine).withFaults (faults.relisted files)).run job).run.run desk =
      (.ok report, last)) :
    ∃ report' other,
      (((workspace engine).withFaults (faults.relisted others)).run job).run.run desk =
        (.ok report', other) ∧
      (∀ location, last.disk.node? location = other.disk.node? location) ∧
      report.Alike (files.filterMap Path.baseName?) report' ∧
      ((files.filterMap Path.baseName?).Nodup → report = report') := by
  obtain ⟨finish, made, target, hprepares, hfinishes, rfl, -⟩ :=
    Faults.exists_finish plain hfolder hrun
  obtain ⟨hlisting, hprepares⟩ := hprepares.relisted others
  rw [hlisting] at hfinishes
  have hfinishes := hfinishes hnodup
  obtain ⟨found, checks, other, hother, hfinishes', -⟩ :=
    (hfinishes.settles_relisted hperm hnodup).run_eq_ok hprepares
  obtain ⟨hnodes, hchecks⟩ := hfinishes.agree hperm hnodup hfinishes'
  have hnames : files.filterMap Path.baseName? =
      finish.checks.map fun check => check.output.baseName := by
    have hnames := congrArg (List.filterMap id) finish.baseNames_checks
    rw [hlisting, List.filterMap_map, List.filterMap_map, List.filterMap_map] at hnames
    exact hnames.symm.trans (congrFun List.filterMap_eq_map finish.checks)
  rw [hnames]
  exact ⟨_, other, hother, hnodes, Report.ofChecks_alike hchecks, Report.ofChecks_perm hchecks⟩

/-- Two names that are no text have one base name. What the report says of it was found in the file
that was rendered last. -/
example :
    let token := Delimiters.standard.plain.wrap ['A']
    let desk : Desk := {
      disk := ⟨[([Utf8.encode ['w']], .folder),
        ([[0xFE], Utf8.encode ['w']], .file (Utf8.encode token)),
        ([[0xFF], Utf8.encode ['w']], .file [])]⟩ }
    let first := Path.join (.ofText ['w']) ⟨[0xFE]⟩
    let second := Path.join (.ofText ['w']) ⟨[0xFF]⟩
    let result (files : List Path) :=
      ((((workspace .unbounded).withFaults (Faults.relisted {} files)).run crowdedJob).run.run desk).1
    result [first, second] = .ok ⟨2, [(['\uFFFD'], [])]⟩ ∧
      result [second, first] = .ok ⟨2, [(['\uFFFD'], [token])]⟩ := by
  decide +kernel

end Desk

end Stencil
