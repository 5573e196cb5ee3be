import Stencil.Run

/-!
# Jobs in workspaces that answer alike

A job sees its workspace only through the answers of calls. So what relates the answers of two
workspaces, in whatever monads, relates the runs of a job in them.

* `Likeness`: a relation between computations that returning and binding keep.
* `loadVariables_alike`, `verifyAll_alike`: a part of a job that only looks needs alike answers only
  to calls that look.
* `Likeness.run_alike`: **a job runs alike in workspaces that answer alike.**
-/

namespace Stencil

/-- A relation between computations of two monads that returning and binding keep. -/
structure Likeness (m n : Type → Type) [Monad m] [Monad n] where
  Alike : {α : Type} → m α → n α → Prop
  pure : ∀ {α : Type} (a : α), Alike (Pure.pure a) (Pure.pure a)
  bind : ∀ {α β : Type} {x : m α} {y : n α} {f : α → m β} {g : α → n β},
    Alike x y → (∀ a, Alike (f a) (g a)) → Alike (x >>= f) (y >>= g)

namespace Likeness

variable {m n : Type → Type} [Monad m] [Monad n] (like : Likeness m n)

/-- The workspaces answer alike to every call that only looks. -/
structure Looks (w : Workspace m) (v : Workspace n) : Prop where
  readText : ∀ file, like.Alike (w.readText file) (v.readText file)
  listFiles : ∀ folder pattern, like.Alike (w.listFiles folder pattern) (v.listFiles folder pattern)
  isPresent : ∀ path, like.Alike (w.isPresent path) (v.isPresent path)
  isFolder : ∀ path, like.Alike (w.isFolder path) (v.isFolder path)
  note : ∀ record, like.Alike (w.note record) (v.note record)

/-- The workspaces have one engine and answer alike to every call. -/
structure Answers (w : Workspace m) (v : Workspace n) : Prop extends like.Looks w v where
  engine : w.engine = v.engine
  writeText : ∀ file text, like.Alike (w.writeText file text) (v.writeText file text)
  createFolders : ∀ folder, like.Alike (w.createFolders folder) (v.createFolders folder)

/-- Computations that may fail are alike if they are alike with their failures as values. -/
def AlikeOrFail {α : Type} (x : ExceptT Failure m α) (y : ExceptT Failure n α) : Prop :=
  like.Alike x.run y.run

variable {like}

theorem pure_alike {α : Type} (a : α) :
    like.AlikeOrFail (Pure.pure a : ExceptT Failure m α) (Pure.pure a) :=
  like.pure (Except.ok a)

theorem throw_alike {α : Type} (failure : Failure) :
    like.AlikeOrFail (throw failure : ExceptT Failure m α) (throw failure) :=
  like.pure (Except.error failure)

theorem bind_alike {α β : Type} {x : ExceptT Failure m α} {y : ExceptT Failure n α}
    {f : α → ExceptT Failure m β} {g : α → ExceptT Failure n β} (h : like.AlikeOrFail x y)
    (hf : ∀ a, like.AlikeOrFail (f a) (g a)) : like.AlikeOrFail (x >>= f) (y >>= g) := by
  refine like.bind h fun result => ?_
  cases result with
  | ok a => exact hf a
  | error failure => exact like.pure (Except.error failure)

theorem forM_alike {α : Type} {f : α → ExceptT Failure m Unit} {g : α → ExceptT Failure n Unit}
    (h : ∀ a, like.AlikeOrFail (f a) (g a)) (items : List α) :
    like.AlikeOrFail (items.forM f) (items.forM g) := by
  induction items with
  | nil => exact pure_alike ()
  | cons a items ih => exact bind_alike (h a) fun _ => ih

variable [LawfulMonad m] [LawfulMonad n]

theorem lift_alike {α : Type} {x : m α} {y : n α} (h : like.Alike x y) :
    like.AlikeOrFail (monadLift x : ExceptT Failure m α) (monadLift y) := by
  show like.Alike (Except.ok <$> x) (Except.ok <$> y)
  rw [map_eq_pure_bind, map_eq_pure_bind]
  exact like.bind h fun a => like.pure (Except.ok a)

theorem attempt_alike {α : Type} (activity : Activity) (path : Path) {x : m (Except IoError α)}
    {y : n (Except IoError α)} (h : like.Alike x y) :
    like.AlikeOrFail (attempt activity path x) (attempt activity path y) := by
  refine bind_alike (lift_alike h) fun answer => ?_
  cases answer with
  | ok a => exact pure_alike a
  | error cause => exact throw_alike _

variable {w : Workspace m} {v : Workspace n}

section Looking

variable (h : like.Looks w v)
include h

theorem log_alike (level : Level) (topic : Topic) (parts : List Text) :
    like.AlikeOrFail (w.log level topic parts) (v.log level topic parts) :=
  lift_alike (h.note _)

theorem loadVariables_alike (file : Path) :
    like.AlikeOrFail (w.loadVariables file) (v.loadVariables file) := by
  refine bind_alike (lift_alike (h.isPresent file)) fun present => ?_
  cases present with
  | false => exact bind_alike (log_alike h _ _ _) fun _ => pure_alike _
  | true =>
    refine bind_alike (attempt_alike _ _ (h.readText file)) fun content => ?_
    refine bind_alike (forM_alike (fun record => lift_alike (h.note record)) _) fun _ => ?_
    cases Variables.parse content with
    | error fault => exact throw_alike _
    | ok store => exact bind_alike (log_alike h _ _ _) fun _ => pure_alike _

theorem listTemplates_alike (job : Job) (pattern : Glob.Pattern) :
    like.AlikeOrFail (w.listTemplates job pattern) (v.listTemplates job pattern) := by
  refine bind_alike (lift_alike (h.isFolder job.templateFolder)) fun folder => ?_
  cases folder with
  | false => exact throw_alike _
  | true => exact attempt_alike _ _ (h.listFiles _ _)

theorem leftIn_alike (delimiters : Delimiters) (output : Output) :
    like.AlikeOrFail (w.leftIn delimiters output) (v.leftIn delimiters output) := by
  refine bind_alike (lift_alike (h.isPresent output.path)) fun present => ?_
  cases present with
  | false => exact bind_alike (log_alike h _ _ _) fun _ => pure_alike _
  | true => exact bind_alike (attempt_alike _ _ (h.readText _)) fun text => pure_alike _

theorem verifyAll_alike (delimiters : Delimiters) (files : List (Text × List Text))
    (outputs : List Output) :
    like.AlikeOrFail (w.verifyAll delimiters files outputs)
      (v.verifyAll delimiters files outputs) := by
  induction outputs generalizing files with
  | nil => exact pure_alike files
  | cons output outputs ih =>
    refine bind_alike (leftIn_alike h delimiters output) fun tokens => ?_
    cases tokens with
    | nil => exact ih _
    | cons token tokens => exact bind_alike (log_alike h _ _ _) fun _ => ih _

end Looking

section Writing

variable (h : like.Answers w v)
include h

theorem renderFile_alike (job : Job) (store : Variables) (template : Path) :
    like.AlikeOrFail (w.renderFile job store template) (v.renderFile job store template) := by
  unfold Workspace.renderFile
  cases template.fileName? with
  | none => exact throw_alike _
  | some name =>
    refine bind_alike (lift_alike (h.readText template)) fun answer => ?_
    cases answer with
    | error cause => exact bind_alike (log_alike h.toLooks _ _ _) fun _ => throw_alike _
    | ok text =>
      refine bind_alike (lift_alike (h.writeText _ _)) fun answer => ?_
      cases answer with
      | error cause => exact bind_alike (log_alike h.toLooks _ _ _) fun _ => throw_alike _
      | ok _ => exact bind_alike (log_alike h.toLooks _ _ _) fun _ => pure_alike _

theorem renderAll_alike (job : Job) (store : Variables) (templates : List Path) :
    like.AlikeOrFail (w.renderAll job store templates) (v.renderAll job store templates) := by
  induction templates with
  | nil => exact pure_alike []
  | cons template templates ih =>
    refine bind_alike (renderFile_alike h job store template) fun output => ?_
    exact bind_alike ih fun outputs => pure_alike _

theorem runWith_alike (job : Job) (pattern : Glob.Pattern) :
    like.AlikeOrFail (w.runWith job pattern) (v.runWith job pattern) := by
  refine bind_alike (log_alike h.toLooks _ _ _) fun _ => ?_
  refine bind_alike (loadVariables_alike h.toLooks _) fun store => ?_
  refine bind_alike (log_alike h.toLooks _ _ _) fun _ => ?_
  refine bind_alike (listTemplates_alike h.toLooks job pattern) fun templates => ?_
  refine bind_alike (log_alike h.toLooks _ _ _) fun _ => ?_
  refine bind_alike (attempt_alike _ _ (h.createFolders _)) fun _ => ?_
  refine bind_alike (renderAll_alike h job store templates) fun outputs => ?_
  refine bind_alike (verifyAll_alike h.toLooks job.delimiters [] outputs) fun files => ?_
  exact bind_alike (log_alike h.toLooks _ _ _) fun _ => pure_alike _

/-- **A job runs alike in workspaces that answer alike.** -/
theorem run_alike (job : Job) : like.AlikeOrFail (w.run job) (v.run job) := by
  unfold Workspace.run
  cases Glob.Pattern.parse job.searchPattern with
  | error fault => exact throw_alike _
  | ok pattern =>
    rw [h.engine]
    cases v.engine.fault? job.delimiters with
    | some fault => exact throw_alike _
    | none => exact runWith_alike h job pattern

end Writing

end Likeness

end Stencil
