import Stencil.Desk
import Stencil.Proofs.Likeness

/-!
# Calls at a desk

What a call of a job does at a desk is decided by the files of the desk: by its disk and its working
folder. The log and the output of the desk decide nothing.

* `Desk.Does`: what a computation answers, and the disk it leaves.
* `Desk.does_readText`, `Desk.does_writeText` and their like: the effect of each call.
* `Likeness.byFiles`, `Desk.run_eq_of_sameFiles`: **desks with the same files run a job to the same
  end.**
-/

namespace Stencil

namespace Desk

/-- The desks have the same files, seen from the same folder. -/
structure SameFiles (desk other : Desk) : Prop where
  disk : desk.disk = other.disk
  folder : desk.folder = other.folder

theorem SameFiles.refl (desk : Desk) : desk.SameFiles desk := ⟨rfl, rfl⟩

theorem SameFiles.symm {desk other : Desk} (h : desk.SameFiles other) : other.SameFiles desk :=
  ⟨h.disk.symm, h.folder.symm⟩

theorem SameFiles.trans {desk other third : Desk} (h : desk.SameFiles other)
    (h' : other.SameFiles third) : desk.SameFiles third :=
  ⟨h.disk.trans h'.disk, h.folder.trans h'.folder⟩

/-- The file can be read, and it holds the text. -/
def Holds (desk : Desk) (path : Path) (text : Text) : Prop :=
  desk.disk.readBytes desk.folder path = .ok (Utf8.encode text)

theorem SameFiles.holds_iff {desk other : Desk} (h : desk.SameFiles other) {path : Path}
    {text : Text} : desk.Holds path text ↔ other.Holds path text := by
  rw [Holds, Holds, h.disk, h.folder]

/-- An answer and the disk afterwards, by the disk and the working folder before. -/
abbrev Effect (α : Type) := Disk → Disk.Location → α × Disk

/-- What looks at the files and leaves them as they are. -/
def look {α : Type} (answer : Disk → Disk.Location → α) : Effect α :=
  fun disk folder => (answer disk folder, disk)

/-- The computation has the effect at every desk. It never leaves the working folder. -/
structure Does {α : Type} (x : StateM Desk α) (effect : Effect α) : Prop where
  answer : ∀ desk, (x.run desk).1 = (effect desk.disk desk.folder).1
  disk : ∀ desk, (x.run desk).2.disk = (effect desk.disk desk.folder).2
  folder : ∀ desk, (x.run desk).2.folder = desk.folder

namespace Does

variable {α β : Type} {x : StateM Desk α} {f : α → StateM Desk β} {effect : Effect α}
  {effects : α → Effect β}

theorem pure (a : α) : Does (Pure.pure a) (look fun _ _ => a) :=
  ⟨fun _ => rfl, fun _ => rfl, fun _ => rfl⟩

theorem bind (h : Does x effect) (hf : ∀ a, Does (f a) (effects a)) :
    Does (x >>= f) fun disk folder =>
      effects (effect disk folder).1 (effect disk folder).2 folder := by
  refine ⟨fun desk => ?_, fun desk => ?_, fun desk => ?_⟩
  · show ((f (x.run desk).1).run (x.run desk).2).1 = _
    rw [(hf _).answer, h.answer, h.disk, h.folder]
  · show ((f (x.run desk).1).run (x.run desk).2).2.disk = _
    rw [(hf _).disk, h.answer, h.disk, h.folder]
  · show ((f (x.run desk).1).run (x.run desk).2).2.folder = _
    rw [(hf _).folder, h.folder]

end Does

variable (engine : Engine)

/-- What reading a text answers. -/
def textAt (path : Path) (disk : Disk) (folder : Disk.Location) : Except IoError Text :=
  (disk.readBytes folder path).map Storage.textOf

/-- What listing the files of a folder answers. -/
def filesAt (path : Path) (pattern : Glob.Pattern) (disk : Disk) (folder : Disk.Location) :
    Except IoError (List Path) :=
  ((disk.listFolder folder path).map fun nodes => nodes.map entryOf).map
    (Storage.selectFiles path pattern)

/-- The effect of writing a text. -/
def writing (path : Path) (text : Text) : Effect (Except IoError Unit) := fun disk folder =>
  match disk.writeBytes folder path (Utf8.encode text) with
  | .ok after => (.ok (), after)
  | .error cause => (.error cause, disk)

theorem does_note (record : Record) : Does ((workspace engine).note record) (look fun _ _ => ()) :=
  ⟨fun _ => rfl, fun _ => rfl, fun _ => rfl⟩

theorem does_notes (records : List Record) :
    Does (records.forM (workspace engine).note) (look fun _ _ => ()) := by
  induction records with
  | nil => exact .pure ()
  | cons record records ih => exact (does_note engine record).bind fun _ => ih

theorem does_isPresent (path : Path) :
    Does ((workspace engine).isPresent path) (look fun disk folder => disk.isPresent folder path) :=
  ⟨fun _ => rfl, fun _ => rfl, fun _ => rfl⟩

theorem does_isFolder (path : Path) :
    Does ((workspace engine).isFolder path) (look fun disk folder => disk.isFolder folder path) :=
  ⟨fun _ => rfl, fun _ => rfl, fun _ => rfl⟩

theorem does_createFolders (path : Path) :
    Does ((workspace engine).createFolders path) fun disk folder => disk.makeFolders folder path :=
  ⟨fun _ => rfl, fun _ => rfl, fun _ => rfl⟩

theorem does_readText (file : Path) :
    Does ((workspace engine).readText file) (look (textAt file)) := by
  have hbytes : Does (storage.readBytes file)
      (look fun disk folder => disk.readBytes folder file) :=
    ⟨fun _ => rfl, fun _ => rfl, fun _ => rfl⟩
  refine hbytes.bind fun answer =>
    (show Does _ (look fun _ _ => answer.map Storage.textOf) from ?_)
  cases answer with
  | error cause => exact .pure _
  | ok content => exact (does_notes engine _).bind fun _ => .pure _

theorem does_listFiles (path : Path) (pattern : Glob.Pattern) :
    Does ((workspace engine).listFiles path pattern) (look (filesAt path pattern)) := by
  have hentries : Does (storage.listEntries path)
      (look fun disk folder => (disk.listFolder folder path).map fun nodes => nodes.map entryOf) :=
    ⟨fun _ => rfl, fun _ => rfl, fun _ => rfl⟩
  refine hentries.bind fun answer =>
    (show Does _ (look fun _ _ => answer.map (Storage.selectFiles path pattern)) from ?_)
  cases answer with
  | error cause => exact .pure _
  | ok entries => exact (does_notes engine _).bind fun _ => .pure _

theorem does_writeText (path : Path) (text : Text) :
    Does ((workspace engine).writeText path text) (writing path text) := by
  have hrun : ∀ desk : Desk, ((workspace engine).writeText path text).run desk =
      ((writing path text desk.disk desk.folder).1,
        { desk with disk := (writing path text desk.disk desk.folder).2 }) := by
    intro desk
    show (change (desk.disk.writeBytes desk.folder path (Utf8.encode text))).run desk = _
    unfold writing
    cases desk.disk.writeBytes desk.folder path (Utf8.encode text) <;> rfl
  exact ⟨fun desk => by rw [hrun], fun desk => by rw [hrun], fun desk => by rw [hrun]⟩

end Desk

open Desk in
/-- Computations at desks are alike if they have one effect. -/
def Likeness.byFiles : Likeness (StateM Desk) (StateM Desk) where
  Alike x y := ∃ effect, Does x effect ∧ Does y effect
  pure a := ⟨_, .pure a, .pure a⟩
  bind := by
    rintro α β x y f g ⟨effect, hx, hy⟩ h
    obtain ⟨effects, heffects⟩ := Classical.axiomOfChoice h
    exact ⟨_, hx.bind fun a => (heffects a).1, hy.bind fun a => (heffects a).2⟩

namespace Desk

theorem byFiles_answers (engine : Engine) :
    Likeness.byFiles.Answers (workspace engine) (workspace engine) where
  engine := rfl
  readText file := ⟨_, does_readText engine file, does_readText engine file⟩
  writeText path text := ⟨_, does_writeText engine path text, does_writeText engine path text⟩
  listFiles path pattern := ⟨_, does_listFiles engine path pattern, does_listFiles engine path pattern⟩
  isPresent path := ⟨_, does_isPresent engine path, does_isPresent engine path⟩
  isFolder path := ⟨_, does_isFolder engine path, does_isFolder engine path⟩
  createFolders path := ⟨_, does_createFolders engine path, does_createFolders engine path⟩
  note record := ⟨_, does_note engine record, does_note engine record⟩

/-- **Desks with the same files run a job to the same end**: to the same result, and to the same
files. -/
theorem run_eq_of_sameFiles (engine : Engine) {desk other : Desk} (h : desk.SameFiles other)
    (job : Job) :
    (((workspace engine).run job).run.run desk).1 = (((workspace engine).run job).run.run other).1 ∧
      (((workspace engine).run job).run.run desk).2.SameFiles
        (((workspace engine).run job).run.run other).2 := by
  obtain ⟨effect, hdoes, -⟩ := Likeness.run_alike (byFiles_answers engine) job
  refine ⟨?_, ?_, ?_⟩
  · rw [hdoes.answer, hdoes.answer, h.disk, h.folder]
  · rw [hdoes.disk, hdoes.disk, h.disk, h.folder]
  · rw [hdoes.folder, hdoes.folder, h.folder]

end Desk

end Stencil
