import Stencil.Proofs.AtDesk
import Stencil.Proofs.FolderMaking
import Stencil.Proofs.Tracing

/-!
# Watching a job at a desk

A job is watched at a desk from one call to the next. What has been written so far can always be
read, and once the writing is over nothing changes any more.

* `Scene.Legible`: every file that was written can be read as text.
* `Scene.run_legible`: **that is so throughout a run** on a disk without links.
* `Scene.Still`: nothing was written in between.
* `still_looks`: the calls that only look are still.
-/

namespace Stencil

/-- A computation at a desk with its calls recorded. -/
abbrev Watched := StateT (List Call) (StateM Desk)

/-- How far a watched job has come: the calls that were made, and the desk after them. -/
structure Scene where
  calls : List Call
  desk : Desk

/-- The path of a file that the call has written. -/
def Call.written? : Call → Option Path
  | .writeText path _ (.ok ()) => some path
  | _ => none

/-- Lets a watched computation go on from a scene. -/
def Watched.play {α : Type} (x : Watched α) (scene : Scene) : α × Scene :=
  let ((answer, calls), desk) := (x.run scene.calls).run scene.desk
  (answer, ⟨calls, desk⟩)

namespace Watched

variable {α β : Type}

theorem play_recorded (call : α → Call) (x : StateM Desk α) (scene : Scene) :
    play (recorded call x) scene =
      ((x.run scene.desk).1, ⟨scene.calls ++ [call (x.run scene.desk).1], (x.run scene.desk).2⟩) :=
  rfl

variable {x : ExceptT Failure Watched α} {f : α → ExceptT Failure Watched β} {a : α} {b : β}
  {scene after : Scene}

/-- What comes to a result comes to one at every step. -/
theorem play_bind_ok (h : play (x >>= f).run scene = (.ok b, after)) :
    ∃ a between, play x.run scene = (.ok a, between) ∧ play (f a).run between = (.ok b, after) := by
  have hbind : play (x >>= f).run scene =
      play (ExceptT.bindCont f (play x.run scene).1) (play x.run scene).2 := rfl
  rw [hbind] at h
  cases hx : play x.run scene with
  | mk result between =>
    rw [hx] at h
    cases result with
    | error failure => cases h
    | ok a => exact ⟨a, between, rfl, h⟩

theorem play_lift_ok {x : Watched α}
    (h : play (monadLift x : ExceptT Failure Watched α).run scene = (.ok a, after)) :
    play x scene = (a, after) := by
  have hlift : play (monadLift x : ExceptT Failure Watched α).run scene =
      (.ok (play x scene).1, (play x scene).2) := rfl
  rw [hlift] at h
  cases h
  rfl

theorem play_attempt_ok {activity : Activity} {path : Path} {x : Watched (Except IoError α)}
    (h : play (attempt activity path x).run scene = (.ok a, after)) :
    play x scene = (.ok a, after) := by
  obtain ⟨answer, between, hx, h⟩ := play_bind_ok h
  cases answer with
  | error cause => cases h
  | ok value =>
    cases h
    exact play_lift_ok hx

end Watched

open Watched

/-- A relation between scenes that every step of a computation keeps. -/
def Likeness.keeping (R : Scene → Scene → Prop) (refl : ∀ scene, R scene scene)
    (trans : ∀ {a b c}, R a b → R b c → R a c) : Likeness Watched Watched where
  Alike x _ := ∀ scene, R scene (play x scene).2
  pure _ scene := refl scene
  bind hx hf scene := trans (hx scene) (hf _ _)

namespace Scene

/-- The files that were written so far. -/
def written (scene : Scene) : List Path := scene.calls.filterMap Call.written?

/-- There are no links, and every file that was written can be read as text. -/
structure Legible (scene : Scene) : Prop where
  plain : scene.desk.disk.Plain
  holds : ∀ path ∈ scene.written, ∃ text, scene.desk.Holds path text

/-- Nothing was written in between, and the files are the same. -/
structure Still (scene after : Scene) : Prop where
  written : after.written = scene.written
  files : after.desk.SameFiles scene.desk

theorem Still.refl (scene : Scene) : scene.Still scene := ⟨rfl, .refl _⟩

theorem Still.trans {scene between after : Scene} (h : scene.Still between)
    (h' : between.Still after) : scene.Still after :=
  ⟨h'.written.trans h.written, h'.files.trans h.files⟩

theorem Still.legible {scene after : Scene} (h : scene.Still after) (legible : scene.Legible) :
    after.Legible := by
  refine ⟨h.files.disk ▸ legible.plain, fun path hpath => ?_⟩
  rw [h.written] at hpath
  obtain ⟨text, htext⟩ := legible.holds path hpath
  exact ⟨text, h.files.holds_iff.2 htext⟩

theorem written_append (calls : List Call) (call : Call) (desk : Desk) :
    (Scene.mk (calls ++ [call]) desk).written =
      calls.filterMap Call.written? ++ call.written?.toList := by
  rw [written, List.filterMap_append]
  cases h : call.written? <;> simp [h]

/-- A call that looks is still. -/
theorem still_recorded {α : Type} {call : α → Call} {x : StateM Desk α}
    {answer : Disk → Disk.Location → α} (does : Desk.Does x (Desk.look answer))
    (hcall : ∀ a, (call a).written? = none) (scene : Scene) :
    scene.Still (play (recorded call x) scene).2 := by
  rw [play_recorded]
  refine ⟨?_, ⟨does.disk _, does.folder _⟩⟩
  rw [written_append, hcall]
  simp [written]

/-- What a call that looks answers. -/
theorem answer_recorded {α : Type} {call : α → Call} {x : StateM Desk α}
    {answer : Disk → Disk.Location → α} (does : Desk.Does x (Desk.look answer)) {a : α}
    {scene after : Scene} (h : play (recorded call x) scene = (a, after)) :
    a = answer scene.desk.disk scene.desk.folder := by
  rw [play_recorded] at h
  cases h
  exact does.answer _

/-- The likeness of computations during which nothing is written. -/
def stillness : Likeness Watched Watched := .keeping Still Still.refl Still.trans

open Desk

variable {engine : Engine}

theorem still_looks : stillness.Looks (workspace engine).traced
    (workspace engine).traced where
  readText file := still_recorded (does_readText engine file) fun _ => rfl
  listFiles path pattern := still_recorded (does_listFiles engine path pattern) fun _ => rfl
  isPresent path := still_recorded (does_isPresent engine path) fun _ => rfl
  isFolder path := still_recorded (does_isFolder engine path) fun _ => rfl
  note record _ := ⟨rfl, ⟨(does_note engine record).disk _, (does_note engine record).folder _⟩⟩

/-- The likeness of computations after which what was written can be read. -/
def legibility : Likeness Watched Watched :=
  .keeping (fun scene after => scene.Legible → after.Legible) (fun _ h => h)
    fun h h' legible => h' (h legible)

/-- A file is written, or the call fails and all is still. -/
theorem writeText_cases {path : Path} {text : Text} {scene after : Scene}
    {answer : Except IoError Unit}
    (h : play ((workspace engine).traced.writeText path text) scene = (answer, after)) :
    (answer = .ok () ∧ after.written = scene.written ++ [path] ∧
      after.desk.folder = scene.desk.folder ∧
      scene.desk.disk.writeBytes scene.desk.folder path (Utf8.encode text) = .ok after.desk.disk) ∨
    ((∃ cause, answer = .error cause) ∧ scene.Still after) := by
  have hplay := play_recorded (.writeText path text) ((workspace engine).writeText path text) scene
  have does := does_writeText engine path text
  have hanswer := does.answer scene.desk
  have hdisk := does.disk scene.desk
  have hfolder := does.folder scene.desk
  cases hplay.symm.trans h
  -- the disk decides whether the file is written
  unfold writing at hanswer hdisk
  cases hwrite : scene.desk.disk.writeBytes scene.desk.folder path (Utf8.encode text) with
  | ok disk =>
    rw [hwrite] at hanswer hdisk
    refine .inl ⟨hanswer, ?_, hfolder, congrArg Except.ok hdisk.symm⟩
    rw [written_append, hanswer]
    rfl
  | error cause =>
    rw [hwrite] at hanswer hdisk
    refine .inr ⟨⟨cause, hanswer⟩, ?_, hdisk, hfolder⟩
    rw [written_append, hanswer]
    simp [Call.written?, written]

/-- What is written can be read, and so can be what was written before. -/
theorem legible_writeText (path : Path) (text : Text) {scene : Scene} (legible : scene.Legible) :
    (play ((workspace engine).traced.writeText path text) scene).2.Legible := by
  rcases writeText_cases (Prod.eta (play ((workspace engine).traced.writeText path text) scene)).symm
    with ⟨-, hwritten, hfolder, hwrite⟩ | ⟨-, still⟩
  · refine ⟨Disk.plain_of_writeBytes legible.plain hwrite, fun other hother => ?_⟩
    rw [hwritten, List.mem_append, List.mem_singleton] at hother
    unfold Holds
    rw [hfolder]
    rcases hother with hbefore | rfl
    · obtain ⟨old, hold⟩ := legible.holds other hbefore
      -- the file may be the one that is written now
      rcases Disk.readBytes_of_writeBytes_other legible.plain hwrite hold with hread | hread
      · exact ⟨old, hread⟩
      · exact ⟨text, hread⟩
    · exact ⟨text, Disk.readBytes_of_writeBytes legible.plain hwrite⟩
  · exact still.legible legible

theorem written_createFolders (engine : Engine) (folder : Path) (scene : Scene) :
    (play ((workspace engine).traced.createFolders folder) scene).2.written = scene.written := by
  have hplay : play ((workspace engine).traced.createFolders folder) scene = _ :=
    play_recorded (.createFolders folder) ((workspace engine).createFolders folder) scene
  rw [hplay, written_append]
  simp [Call.written?, written]

/-- Making folders leaves what was written as it is. -/
theorem legible_createFolders (engine : Engine) (folder : Path) {scene : Scene}
    (legible : scene.Legible) :
    (play ((workspace engine).traced.createFolders folder) scene).2.Legible := by
  have does := does_createFolders engine folder
  have hdisk : (play ((workspace engine).traced.createFolders folder) scene).2.desk.disk =
      (scene.desk.disk.makeFolders scene.desk.folder folder).2 := does.disk scene.desk
  have hfolder : (play ((workspace engine).traced.createFolders folder) scene).2.desk.folder =
      scene.desk.folder := does.folder scene.desk
  have hextends := Disk.extends_makeFolders legible.plain scene.desk.folder folder
  refine ⟨hdisk ▸ hextends.plain, fun path hpath => ?_⟩
  -- no file was written, so those to be read are the ones from before
  rw [written_createFolders engine] at hpath
  obtain ⟨text, htext⟩ := legible.holds path hpath
  refine ⟨text, ?_⟩
  rw [Holds, hdisk, hfolder]
  exact hextends.reads _ _ _ htext

theorem legible_answers : legibility.Answers (workspace engine).traced
    (workspace engine).traced where
  engine := rfl
  readText file scene := (still_looks.readText file scene).legible
  listFiles path pattern scene := (still_looks.listFiles path pattern scene).legible
  isPresent path scene := (still_looks.isPresent path scene).legible
  isFolder path scene := (still_looks.isFolder path scene).legible
  note record scene := (still_looks.note record scene).legible
  writeText path text _ := legible_writeText path text
  createFolders folder _ := legible_createFolders engine folder

/-- **Throughout a run** what was written can be read. -/
theorem run_legible (job : Job) {scene : Scene} (legible : scene.Legible) :
    (play ((workspace engine).traced.run job).run scene).2.Legible :=
  Likeness.run_alike legible_answers job scene legible

end Scene

end Stencil
