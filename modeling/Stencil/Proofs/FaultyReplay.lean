import Stencil.Proofs.Rejection
import Stencil.Workspace.Faults

/-!
# Replaying calls with faults

At a desk with faults a call is answered on purpose, or by the disk. Which of the two it is depends
on the path of the call and not on what was done before, so the calls of a job still lead from disk
to disk.

* `Faults.textAt`, `Faults.filesAt`, `Faults.presentAt`, `Faults.folderAt`: what calls that look are
  answered.
* `Faults.writing`, `Faults.making`: the effect of calls that change something.
* `Faults.Happens`, `Faults.Leads`: what calls with their answers tell of the disks around them.
* `Faults.leads_history`: **a watched run at a desk with faults leads from disk to disk.**
* `Faults.outlook_of_surveys`: what a run finds before it changes anything is what the disk has to
  say.
-/

namespace Stencil

open Desk (Does Effect look)

theorem mapError_ok {ε ε' α : Type} (f : ε → ε') (a : α) :
    (Except.ok a).mapError f = .ok a := rfl

theorem mapError_error {ε ε' α : Type} (f : ε → ε') (cause : ε) :
    (Except.error cause : Except ε α).mapError f = .error (f cause) := rfl

namespace Outlook

variable {outlook : Outlook} {job : Job}

/-- What is loaded from a file that is there was read from it. -/
theorem exists_content {store : Variables} (h : outlook.loaded job = .ok store)
    (hpresent : outlook.present = true) : ∃ content, outlook.content = .ok content := by
  unfold loaded at h
  rw [if_pos hpresent] at h
  cases hcontent : outlook.content with
  | ok content => exact ⟨content, rfl⟩
  | error cause =>
    rw [hcontent] at h
    cases h

theorem listed_eq_ok_iff {templates : List Path} : outlook.listed job = .ok templates ↔
    outlook.folder = true ∧ outlook.listing = .ok templates := by
  unfold listed
  cases outlook.folder with
  | false => simp
  | true => cases outlook.listing <;> simp [mapError_ok, mapError_error]

end Outlook

namespace Faults

section Effects

section

variable {α : Type} {x : StateM Desk (Except IoError α)}

/-- A call that fails if there is a cause. -/
theorem does_failing {effect : Effect (Except IoError α)} (h : Does x effect)
    (cause? : Option IoError) :
    Does (failing cause? x) (cause?.elim effect fun cause => look fun _ _ => .error cause) := by
  cases cause? with
  | none => exact h
  | some cause => exact .pure _

/-- A call that looks and fails if there is a cause. -/
theorem does_failing_look {answer : Disk → Disk.Location → Except IoError α}
    (h : Does x (look answer)) (cause? : Option IoError) :
    Does (failing cause? x) (look fun disk folder => cause?.elim (answer disk folder) .error) := by
  cases cause? with
  | none => exact h
  | some cause => exact .pure _

end

variable (faults : Faults)

/-- What reading a text answers. -/
def textAt (file : Path) (disk : Disk) (folder : Disk.Location) : Except IoError Text :=
  (faults.unreadable? file).elim (Desk.textAt file disk folder) .error

/-- What listing the files of a folder answers. -/
def filesAt (path : Path) (pattern : Glob.Pattern) (disk : Disk) (folder : Disk.Location) :
    Except IoError (List Path) :=
  (faults.unlistable? path).elim
    ((faults.listing? path).elim (Desk.filesAt path pattern disk folder) .ok) .error

/-- What looking whether something is there answers. -/
def presentAt (path : Path) (disk : Disk) (folder : Disk.Location) : Bool :=
  if faults.hidden path then false else disk.isPresent folder path

/-- What looking whether a folder is there answers. -/
def folderAt (path : Path) (disk : Disk) (folder : Disk.Location) : Bool :=
  if faults.closed path then false else disk.isFolder folder path

/-- The effect of writing a text. -/
def writing (path : Path) (text : Text) : Effect (Except IoError Unit) :=
  (faults.unwritable? path).elim (Desk.writing path (text ++ faults.appended path))
    fun cause => look fun _ _ => .error cause

/-- The effect of making a folder. -/
def making (path : Path) : Effect (Except IoError Unit) :=
  (faults.uncreatable? path).elim (fun disk folder => disk.makeFolders folder path)
    fun cause => look fun _ _ => .error cause

variable (engine : Engine)

theorem does_readText (file : Path) :
    Does (((Desk.workspace engine).withFaults faults).readText file) (look (faults.textAt file)) :=
  does_failing_look (Desk.does_readText engine file) (faults.unreadable? file)

theorem does_listFiles (path : Path) (pattern : Glob.Pattern) :
    Does (((Desk.workspace engine).withFaults faults).listFiles path pattern)
      (look (faults.filesAt path pattern)) := by
  refine does_failing_look ?_ (faults.unlistable? path)
  cases faults.listing? path with
  | some files => exact .pure _
  | none => exact Desk.does_listFiles engine path pattern

theorem does_isPresent (path : Path) :
    Does (((Desk.workspace engine).withFaults faults).isPresent path)
      (look (faults.presentAt path)) := by
  unfold Workspace.withFaults presentAt
  cases hfault : faults.hidden path with
  | true =>
    simp only [hfault, if_true]
    exact .pure _
  | false =>
    simp only [hfault, Bool.false_eq_true, if_false]
    exact Desk.does_isPresent engine path

theorem does_isFolder (path : Path) :
    Does (((Desk.workspace engine).withFaults faults).isFolder path)
      (look (faults.folderAt path)) := by
  unfold Workspace.withFaults folderAt
  cases hfault : faults.closed path with
  | true =>
    simp only [hfault, if_true]
    exact .pure _
  | false =>
    simp only [hfault, Bool.false_eq_true, if_false]
    exact Desk.does_isFolder engine path

theorem does_writeText (path : Path) (text : Text) :
    Does (((Desk.workspace engine).withFaults faults).writeText path text)
      (faults.writing path text) :=
  does_failing (Desk.does_writeText engine path (text ++ faults.appended path))
    (faults.unwritable? path)

theorem does_createFolders (path : Path) :
    Does (((Desk.workspace engine).withFaults faults).createFolders path) (faults.making path) :=
  does_failing (Desk.does_createFolders engine path) (faults.uncreatable? path)

end Effects

variable {faults : Faults} {file path : Path} {text : Text} {pattern : Glob.Pattern}
  {disk after : Disk} {folder : Disk.Location}

/-- A text is read where no fault is, as the disk has it. -/
theorem textAt_eq_ok_iff : faults.textAt file disk folder = .ok text ↔
    faults.unreadable? file = none ∧ Desk.textAt file disk folder = .ok text := by
  unfold textAt
  cases faults.unreadable? file <;> simp

/-- A text is written where no fault is, with what is added to it. -/
theorem writing_eq_ok_iff : faults.writing path text disk folder = (.ok (), after) ↔
    faults.unwritable? path = none ∧
      disk.writeBytes folder path (Utf8.encode (text ++ faults.appended path)) = .ok after := by
  unfold writing
  cases faults.unwritable? path with
  | some cause => simp [look]
  | none =>
    simp only [Option.elim_none, true_and]
    unfold Desk.writing
    cases disk.writeBytes folder path (Utf8.encode (text ++ faults.appended path)) <;> simp

/-- A folder is made where no fault is. -/
theorem making_eq_ok_iff : faults.making path disk folder = (.ok (), after) ↔
    faults.uncreatable? path = none ∧ disk.makeFolders folder path = (.ok (), after) := by
  unfold making
  cases faults.uncreatable? path <;> simp [look]

section Calls

variable (faults)

/-- The call is answered so with the first disk, seen from the folder, and leaves the second. -/
def Happens (folder : Disk.Location) : Call → Disk → Disk → Prop
  | .readText file answer, disk, after => faults.textAt file disk folder = answer ∧ after = disk
  | .listFiles path pattern answer, disk, after =>
    faults.filesAt path pattern disk folder = answer ∧ after = disk
  | .isPresent path answer, disk, after => faults.presentAt path disk folder = answer ∧ after = disk
  | .isFolder path answer, disk, after => faults.folderAt path disk folder = answer ∧ after = disk
  | .writeText path text answer, disk, after => faults.writing path text disk folder = (answer, after)
  | .createFolders path answer, disk, after => faults.making path disk folder = (answer, after)

/-- The calls happen one after the other, and lead from one disk to another. -/
def Leads (folder : Disk.Location) : Disk → List Call → Disk → Prop
  | disk, [], after => after = disk
  | disk, call :: calls, after =>
    ∃ between, faults.Happens folder call disk between ∧ Leads folder between calls after

variable {faults} {call : Call} {calls first rest : List Call}

theorem leads_singleton_iff :
    faults.Leads folder disk [call] after ↔ faults.Happens folder call disk after := by
  simp [Leads]

/-- Calls can be cut anywhere. -/
theorem leads_append_iff : faults.Leads folder disk (first ++ rest) after ↔
    ∃ between, faults.Leads folder disk first between ∧ faults.Leads folder between rest after := by
  induction first generalizing disk with
  | nil => simp [Leads]
  | cons call first ih =>
    simp only [List.cons_append, Leads, ih]
    constructor
    · rintro ⟨next, hcall, between, hfirst, hrest⟩
      exact ⟨between, ⟨next, hcall, hfirst⟩, hrest⟩
    · rintro ⟨between, ⟨next, hcall, hfirst⟩, hrest⟩
      exact ⟨next, hcall, between, hfirst, hrest⟩

/-- A call that only looks leaves the disk as it is. -/
theorem Happens.eq_of_not_mutates (h : faults.Happens folder call disk after)
    (hlooks : call.mutates = false) : after = disk := by
  cases call with
  | readText file answer => exact h.2
  | listFiles path pattern answer => exact h.2
  | isPresent path answer => exact h.2
  | isFolder path answer => exact h.2
  | writeText path text answer => cases hlooks
  | createFolders path answer => cases hlooks

/-- Calls that only look leave the disk as it is. -/
theorem Leads.eq_of_looks (h : faults.Leads folder disk calls after)
    (hlooks : calls.filter Call.mutates = []) : after = disk := by
  rw [List.filter_eq_nil_iff] at hlooks
  induction calls generalizing disk with
  | nil => exact h
  | cons call calls ih =>
    obtain ⟨between, hcall, hcalls⟩ := h
    have hfirst : between = disk := hcall.eq_of_not_mutates (by simpa using hlooks call (by simp))
    have hrest : after = between := ih hcalls fun call hmem => hlooks call (by simp [hmem])
    rw [hrest, hfirst]

/-- What a call does at a desk leads from disk to disk. -/
theorem leads_of_does {α : Type} {x : StateM Desk α} {effect : Effect α} {call : α → Call}
    (h : Does x effect)
    (hcall : ∀ disk folder, faults.Happens folder (call (effect disk folder).1) disk
      (effect disk folder).2) (desk : Desk) :
    (x.run desk).2.folder = desk.folder ∧
      faults.Leads desk.folder desk.disk [call (x.run desk).1] (x.run desk).2.disk := by
  refine ⟨h.folder desk, ?_⟩
  rw [h.answer, h.disk]
  exact leads_singleton_iff.2 (hcall desk.disk desk.folder)

variable (faults)

/-- The calls at a desk with faults lead from disk to disk, and never leave the working folder. -/
def trail (engine : Engine) : Trail ((Desk.workspace engine).withFaults faults) where
  Leads desk calls after :=
    after.folder = desk.folder ∧ faults.Leads desk.folder desk.disk calls after.disk
  nil desk := ⟨rfl, rfl⟩
  append := by
    rintro desk between after first rest ⟨hfolder, hfirst⟩ ⟨hfolder', hrest⟩
    rw [hfolder] at hfolder' hrest
    exact ⟨hfolder', leads_append_iff.2 ⟨_, hfirst, hrest⟩⟩
  readText file := leads_of_does (faults.does_readText engine file) fun _ _ => ⟨rfl, rfl⟩
  writeText path text := leads_of_does (faults.does_writeText engine path text) fun _ _ => rfl
  listFiles path pattern :=
    leads_of_does (faults.does_listFiles engine path pattern) fun _ _ => ⟨rfl, rfl⟩
  isPresent path := leads_of_does (faults.does_isPresent engine path) fun _ _ => ⟨rfl, rfl⟩
  isFolder path := leads_of_does (faults.does_isFolder engine path) fun _ _ => ⟨rfl, rfl⟩
  createFolders path := leads_of_does (faults.does_createFolders engine path) fun _ _ => rfl
  note record desk :=
    ⟨(Desk.does_note engine record).folder desk, (Desk.does_note engine record).disk desk⟩

/-- **A watched run at a desk with faults** leads from disk to disk. -/
theorem leads_history (engine : Engine) (job : Job) (desk : Desk) :
    let workspace := (Desk.workspace engine).withFaults faults
    ((workspace.run job).run.run desk).2.folder = desk.folder ∧
      faults.Leads desk.folder desk.disk (workspace.history job desk).2
        ((workspace.run job).run.run desk).2.disk :=
  (Workspace.run_seen (faults.trail engine) job desk).2

end Calls

section Looking

variable (faults)

/-- What a disk has to say to a run that looks around. -/
def outlook (job : Job) (pattern : Glob.Pattern) (disk : Disk) (folder : Disk.Location) : Outlook where
  present := faults.presentAt job.variableFile disk folder
  content := faults.textAt job.variableFile disk folder
  folder := faults.folderAt job.templateFolder disk folder
  listing := faults.filesAt job.templateFolder pattern disk folder

variable {faults} {engine : Engine} {job : Job} {store : Variables} {templates : List Path}
  {calls : List Call}

/-- The variables are loaded as the disk says. -/
theorem loaded_outlook {result : Except Failure Variables} (h : Loads job.variableFile calls result)
    (hleads : faults.Leads folder disk calls after) :
    (faults.outlook job pattern disk folder).loaded job = result := by
  unfold Outlook.loaded outlook
  cases h with
  | absent =>
    obtain ⟨_, ⟨hpresent, -⟩, -⟩ := hleads
    simp [hpresent]
  | unreadable cause =>
    obtain ⟨_, ⟨hpresent, rfl⟩, _, ⟨hread, -⟩, -⟩ := hleads
    simp [hpresent, hread]
  | malformed hparse =>
    obtain ⟨_, ⟨hpresent, rfl⟩, _, ⟨hread, -⟩, -⟩ := hleads
    simp [hpresent, hread, hparse, mapError_error]
  | loaded hparse =>
    obtain ⟨_, ⟨hpresent, rfl⟩, _, ⟨hread, -⟩, -⟩ := hleads
    simp [hpresent, hread, hparse, mapError_ok]

/-- The templates are listed as the disk says. -/
theorem listed_outlook {result : Except Failure (List Path)} (h : Lists job pattern calls result)
    (hleads : faults.Leads folder disk calls after) :
    (faults.outlook job pattern disk folder).listed job = result := by
  unfold Outlook.listed outlook
  cases h with
  | noFolder =>
    obtain ⟨_, ⟨hfolder, -⟩, -⟩ := hleads
    simp [hfolder]
  | unlistable cause =>
    obtain ⟨_, ⟨hfolder, rfl⟩, _, ⟨hlist, -⟩, -⟩ := hleads
    simp [hfolder, hlist, mapError_error]
  | listed templates =>
    obtain ⟨_, ⟨hfolder, rfl⟩, _, ⟨hlist, -⟩, -⟩ := hleads
    simp [hfolder, hlist, mapError_ok]

/-- What a run finds before it changes anything is what the disk has to say. -/
theorem outlook_of_surveys (h : Surveys engine job pattern store templates calls)
    (hleads : faults.Leads folder disk calls after) :
    (faults.outlook job pattern disk folder).loaded job = .ok store ∧
      (faults.outlook job pattern disk folder).listed job = .ok templates ∧ after = disk := by
  have hstill := hleads.eq_of_looks h.mutates_nil
  cases h with
  | found hpattern hmatchers hload hlist =>
    obtain ⟨between, hloading, hlisting⟩ := leads_append_iff.1 hleads
    obtain rfl := hloading.eq_of_looks hload.mutates_nil
    exact ⟨loaded_outlook hload hloading, listed_outlook hlist hlisting, hstill⟩

end Looking

end Faults

end Stencil
