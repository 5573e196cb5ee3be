import Stencil.Proofs.Likeness

/-!
# The calls of a job

A workspace can be watched: every call is recorded with its answer. Watching changes nothing, so
what is found out about the calls of a watched job is true of the job.

* `Workspace.traced`: a workspace with its calls recorded.
* `Workspace.fst_run_traced`: **watching changes nothing**.
* `Likeness.erasure`: a watched computation is like one that is not watched.
-/

namespace Stencil

/-- A call of a workspace with its answer. Notes in the log are no calls. -/
inductive Call where
  | readText (file : Path) (answer : Except IoError Text)
  | writeText (file : Path) (text : Text) (answer : Except IoError Unit)
  | listFiles (folder : Path) (pattern : Glob.Pattern) (answer : Except IoError (List Path))
  | isPresent (path : Path) (answer : Bool)
  | isFolder (path : Path) (answer : Bool)
  | createFolders (folder : Path) (answer : Except IoError Unit)
  deriving DecidableEq

variable {m : Type → Type} [Monad m]

/-- Makes a call and records it after those before it. -/
def recorded {α : Type} (call : α → Call) (x : m α) : StateT (List Call) m α := do
  let answer ← monadLift x
  modify fun calls => calls ++ [call answer]
  return answer

/-- The workspace with its calls recorded. -/
def Workspace.traced (workspace : Workspace m) : Workspace (StateT (List Call) m) where
  engine := workspace.engine
  readText file := recorded (.readText file) (workspace.readText file)
  writeText file text := recorded (.writeText file text) (workspace.writeText file text)
  listFiles folder pattern :=
    recorded (.listFiles folder pattern) (workspace.listFiles folder pattern)
  isPresent path := recorded (.isPresent path) (workspace.isPresent path)
  isFolder path := recorded (.isFolder path) (workspace.isFolder path)
  createFolders folder := recorded (.createFolders folder) (workspace.createFolders folder)
  note record := monadLift (workspace.note record)

variable [LawfulMonad m]

theorem recorded_run {α : Type} (call : α → Call) (x : m α) (calls : List Call) :
    (recorded call x).run calls = x >>= fun answer => pure (answer, calls ++ [call answer]) := by
  simp [recorded]

namespace Likeness

/-- A watched computation is like one that gives the same without being watched. -/
def erasure (m : Type → Type) [Monad m] [LawfulMonad m] : Likeness (StateT (List Call) m) m where
  Alike x y := ∀ calls, Prod.fst <$> x.run calls = y
  pure a calls := by simp
  bind {α β x y f g} h hf calls := by
    rw [← h calls, StateT.run_bind, map_bind, bind_map_left]
    exact bind_congr fun p => hf p.1 p.2

theorem recorded_erasure {α : Type} (call : α → Call) (x : m α) :
    (erasure m).Alike (recorded call x) x := by
  intro calls
  rw [recorded_run, map_bind]
  simp

theorem erasure_answers (w : Workspace m) : (erasure m).Answers w.traced w where
  engine := rfl
  readText _ := recorded_erasure _ _
  writeText _ _ := recorded_erasure _ _
  listFiles _ _ := recorded_erasure _ _
  isPresent _ := recorded_erasure _ _
  isFolder _ := recorded_erasure _ _
  createFolders _ := recorded_erasure _ _
  note record calls := by simp [Workspace.traced]

end Likeness

/-- **Watching changes nothing.** -/
theorem Workspace.fst_run_traced (workspace : Workspace m) (job : Job) (calls : List Call) :
    Prod.fst <$> (workspace.traced.run job).run.run calls = (workspace.run job).run :=
  Likeness.run_alike (Likeness.erasure_answers workspace) job calls

end Stencil
