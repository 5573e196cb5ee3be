import Stencil.Proofs.AtDesk
import Stencil.Proofs.History

/-!
# Replaying calls on a disk

At a desk every call is answered by the disk, and only writing and making folders change it. So the
calls of a job lead from the disk before the job to the disk after it.

* `Call.Happens`: what a call with its answer tells of the disk before it and after it.
* `Replays`: calls that lead from one disk to another.
* `Replays.eq_of_looks`: **calls that only look leave the disk as it is.**
* `Desk.replays_history`: **a watched run at a desk is replayed by its calls.**
-/

namespace Stencil

open Desk

/-- The call is answered so by the first disk, seen from the folder, and leaves the second. -/
def Call.Happens (folder : Disk.Location) : Call → Disk → Disk → Prop
  | .readText file answer, disk, after => answer = textAt file disk folder ∧ after = disk
  | .writeText path text answer, disk, after => (answer, after) = writing path text disk folder
  | .listFiles path pattern answer, disk, after =>
    answer = filesAt path pattern disk folder ∧ after = disk
  | .isPresent path answer, disk, after => answer = disk.isPresent folder path ∧ after = disk
  | .isFolder path answer, disk, after => answer = disk.isFolder folder path ∧ after = disk
  | .createFolders path answer, disk, after => (answer, after) = disk.makeFolders folder path

/-- The calls happen one after the other, and lead from one disk to another. -/
inductive Replays (folder : Disk.Location) : Disk → List Call → Disk → Prop
  | nil (disk : Disk) : Replays folder disk [] disk
  | cons {disk between after : Disk} {call : Call} {calls : List Call}
      (h : call.Happens folder disk between) (later : Replays folder between calls after) :
      Replays folder disk (call :: calls) after

namespace Replays

variable {folder : Disk.Location} {disk between after : Disk} {call : Call}
  {calls first rest : List Call}

theorem append (h : Replays folder disk first between) (h' : Replays folder between rest after) :
    Replays folder disk (first ++ rest) after := by
  induction h with
  | nil disk => exact h'
  | cons hcall later ih => exact .cons hcall (ih h')

/-- What is replayed can be cut anywhere. -/
theorem exists_between (h : Replays folder disk (first ++ rest) after) :
    ∃ between, Replays folder disk first between ∧ Replays folder between rest after := by
  induction first generalizing disk with
  | nil => exact ⟨disk, .nil disk, h⟩
  | cons call first ih =>
    cases h with
    | cons hcall later =>
      obtain ⟨between, hfirst, hrest⟩ := ih later
      exact ⟨between, .cons hcall hfirst, hrest⟩

/-- A call that only looks leaves the disk as it is. -/
theorem eq_of_not_mutates (h : call.Happens folder disk after) (hlooks : call.mutates = false) :
    after = disk := by
  cases call with
  | readText file answer => exact h.2
  | listFiles path pattern answer => exact h.2
  | isPresent path answer => exact h.2
  | isFolder path answer => exact h.2
  | writeText path text answer => cases hlooks
  | createFolders path answer => cases hlooks

/-- **Calls that only look** leave the disk as it is. -/
theorem eq_of_looks (h : Replays folder disk calls after) (hlooks : calls.filter Call.mutates = []) :
    after = disk := by
  rw [List.filter_eq_nil_iff] at hlooks
  induction h with
  | nil disk => rfl
  | cons hcall later ih =>
    have hfirst := eq_of_not_mutates hcall (by simpa using hlooks _ List.mem_cons_self)
    rw [ih fun call hmem => hlooks call (List.mem_cons_of_mem _ hmem), hfirst]

end Replays

namespace Desk

variable {α : Type} {x : StateM Desk α} {effect : Effect α} {call : α → Call}

/-- A call with an effect is replayed by the answer that it gets. -/
theorem Does.replays (h : Does x effect)
    (hcall : ∀ disk folder, (call (effect disk folder).1).Happens folder disk (effect disk folder).2)
    (desk : Desk) : (x.run desk).2.folder = desk.folder ∧
      Replays desk.folder desk.disk [call (x.run desk).1] (x.run desk).2.disk := by
  refine ⟨h.folder desk, ?_⟩
  rw [h.answer, h.disk]
  exact .cons (hcall desk.disk desk.folder) (.nil _)

/-- The calls at a desk lead from disk to disk, and never leave the working folder. -/
def trail (engine : Engine) : Trail (workspace engine) where
  Leads desk calls after :=
    after.folder = desk.folder ∧ Replays desk.folder desk.disk calls after.disk
  nil desk := ⟨rfl, .nil desk.disk⟩
  append := by
    rintro desk between after first rest ⟨hfolder, hfirst⟩ ⟨hfolder', hrest⟩
    rw [hfolder] at hfolder' hrest
    exact ⟨hfolder', hfirst.append hrest⟩
  readText file := (does_readText engine file).replays fun _ _ => ⟨rfl, rfl⟩
  writeText path text := (does_writeText engine path text).replays fun _ _ => rfl
  listFiles path pattern := (does_listFiles engine path pattern).replays fun _ _ => ⟨rfl, rfl⟩
  isPresent path := (does_isPresent engine path).replays fun _ _ => ⟨rfl, rfl⟩
  isFolder path := (does_isFolder engine path).replays fun _ _ => ⟨rfl, rfl⟩
  createFolders path := (does_createFolders engine path).replays fun _ _ => rfl
  note record desk := ⟨(does_note engine record).folder desk, by
    rw [(does_note engine record).disk]
    exact .nil desk.disk⟩

/-- **A run at a desk** is replayed by the calls that can be seen of it. -/
theorem replays_history (engine : Engine) (job : Job) (desk : Desk) :
    (((workspace engine).run job).run.run desk).2.folder = desk.folder ∧
      Replays desk.folder desk.disk ((workspace engine).history job desk).2
        (((workspace engine).run job).run.run desk).2.disk :=
  (Workspace.run_seen (trail engine) job desk).2

end Desk

end Stencil
