import Stencil.Proofs.Tracing

/-!
# What a job can be seen to do

A job is run in a workspace of which nothing is known: any call can have any answer. What it can be
seen to do there, call by call, is what it does in every workspace.

* `Histories`: what can be seen of a computation, as a set of histories.
* `Workspace.history`: the calls that a job makes, and its result.
* `Trail`: what the calls of a workspace do to its state.
* `Workspace.run_seen`: **a watched run is one of the histories**, and its calls lead to the state
  in which it ends.
-/

namespace Stencil

/-- Whether a call can change something. -/
def Call.mutates : Call → Bool
  | .writeText .. | .createFolders .. => true
  | _ => false

/-- The file that a call reads. -/
def Call.readFile? : Call → Option Path
  | .readText file _ => some file
  | _ => none

/-- What can be seen of a computation: the calls that it makes, and what it comes to. -/
def Histories (α : Type) : Type := List Call → α → Prop

namespace Histories

instance : Monad Histories where
  pure a := fun calls b => calls = [] ∧ b = a
  bind x f := fun calls b => ∃ first a rest, x first a ∧ f a rest b ∧ calls = first ++ rest

variable {α β : Type}

theorem ext {x y : Histories α} (h : ∀ calls a, x calls a ↔ y calls a) : x = y :=
  funext fun calls => funext fun a => propext (h calls a)

protected theorem id_map (x : Histories α) : id <$> x = x := by
  refine ext fun calls a => ⟨?_, fun h => ?_⟩
  · rintro ⟨first, b, rest, h, ⟨rfl, rfl⟩, rfl⟩
    rw [List.append_nil]
    exact h
  · exact ⟨calls, a, [], h, ⟨rfl, rfl⟩, (List.append_nil calls).symm⟩

protected theorem pure_bind (a : α) (f : α → Histories β) : pure a >>= f = f a := by
  refine ext fun calls b => ⟨?_, fun h => ?_⟩
  · rintro ⟨first, a, rest, ⟨rfl, rfl⟩, h, rfl⟩
    exact h
  · exact ⟨[], a, calls, ⟨rfl, rfl⟩, h, rfl⟩

protected theorem bind_assoc {γ : Type} (x : Histories α) (f : α → Histories β) (g : β → Histories γ) :
    x >>= f >>= g = x >>= fun a => f a >>= g := by
  refine ext fun calls c => ⟨?_, ?_⟩
  · rintro ⟨_, b, third, ⟨first, a, second, hx, hf, rfl⟩, hg, rfl⟩
    exact ⟨first, a, second ++ third, hx, ⟨second, b, third, hf, hg, rfl⟩,
      List.append_assoc first second third⟩
  · rintro ⟨first, a, _, hx, ⟨second, b, third, hf, hg, rfl⟩, rfl⟩
    exact ⟨first ++ second, b, third, ⟨first, a, second, hx, hf, rfl⟩, hg,
      (List.append_assoc first second third).symm⟩

instance : LawfulMonad Histories := .mk' Histories Histories.id_map Histories.pure_bind
  Histories.bind_assoc

/-- A call that can have any answer. -/
def asking (call : α → Call) : Histories α := fun calls answer => calls = [call answer]

end Histories

open Histories

/-- The workspace of which nothing is known but its engine. -/
def Workspace.any (engine : Engine) : Workspace Histories where
  engine := engine
  readText file := asking (.readText file)
  writeText file text := asking (.writeText file text)
  listFiles folder pattern := asking (.listFiles folder pattern)
  isPresent path := asking (.isPresent path)
  isFolder path := asking (.isFolder path)
  createFolders folder := asking (.createFolders folder)
  note _ := pure ()

section Watching

variable {σ : Type}

/-- What the calls of a workspace do to its state. Calls after one another lead from state to
state, and a note in the log leads nowhere else. -/
structure Trail (workspace : Workspace (StateM σ)) where
  Leads : σ → List Call → σ → Prop
  nil : ∀ s, Leads s [] s
  append : ∀ {s t u first rest}, Leads s first t → Leads t rest u → Leads s (first ++ rest) u
  readText : ∀ file s, Leads s [.readText file ((workspace.readText file).run s).1]
    ((workspace.readText file).run s).2
  writeText : ∀ file text s, Leads s [.writeText file text ((workspace.writeText file text).run s).1]
    ((workspace.writeText file text).run s).2
  listFiles : ∀ folder pattern s,
    Leads s [.listFiles folder pattern ((workspace.listFiles folder pattern).run s).1]
      ((workspace.listFiles folder pattern).run s).2
  isPresent : ∀ path s, Leads s [.isPresent path ((workspace.isPresent path).run s).1]
    ((workspace.isPresent path).run s).2
  isFolder : ∀ path s, Leads s [.isFolder path ((workspace.isFolder path).run s).1]
    ((workspace.isFolder path).run s).2
  createFolders : ∀ folder s,
    Leads s [.createFolders folder ((workspace.createFolders folder).run s).1]
      ((workspace.createFolders folder).run s).2
  note : ∀ record s, Leads s [] ((workspace.note record).run s).2

/-- The trail that tells nothing of the state. -/
def Trail.silent (workspace : Workspace (StateM σ)) : Trail workspace where
  Leads _ _ _ := True
  nil _ := trivial
  append _ _ := trivial
  readText _ _ := trivial
  writeText _ _ _ := trivial
  listFiles _ _ _ := trivial
  isPresent _ _ := trivial
  isFolder _ _ := trivial
  createFolders _ _ := trivial
  note _ _ := trivial

variable {workspace : Workspace (StateM σ)} (trail : Trail workspace)

/-- A watched computation is like its histories if its calls and its result are one of them. -/
def Likeness.seen : Likeness (StateT (List Call) (StateM σ)) Histories where
  Alike x y := ∀ past s, ∃ calls, ((x.run past).run s).1.2 = past ++ calls ∧
    y calls ((x.run past).run s).1.1 ∧ trail.Leads s calls ((x.run past).run s).2
  pure a past s := ⟨[], (List.append_nil past).symm, ⟨rfl, rfl⟩, trail.nil s⟩
  bind {α β x y f g} hx hf past s := by
    obtain ⟨first, hpast, hseen, hleads⟩ := hx past s
    obtain ⟨rest, hpast', hseen', hleads'⟩ :=
      hf ((x.run past).run s).1.1 ((x.run past).run s).1.2 ((x.run past).run s).2
    refine ⟨first ++ rest, ?_, ⟨first, _, rest, hseen, hseen', rfl⟩, trail.append hleads hleads'⟩
    rw [← List.append_assoc, ← hpast]
    exact hpast'

theorem seen_answers :
    (Likeness.seen trail).Answers workspace.traced (.any workspace.engine) where
  engine := rfl
  readText file _ s := ⟨_, rfl, rfl, trail.readText file s⟩
  writeText file text _ s := ⟨_, rfl, rfl, trail.writeText file text s⟩
  listFiles folder pattern _ s := ⟨_, rfl, rfl, trail.listFiles folder pattern s⟩
  isPresent path _ s := ⟨_, rfl, rfl, trail.isPresent path s⟩
  isFolder path _ s := ⟨_, rfl, rfl, trail.isFolder path s⟩
  createFolders folder _ s := ⟨_, rfl, rfl, trail.createFolders folder s⟩
  note record past s :=
    ⟨[], (List.append_nil past).symm, ⟨rfl, rfl⟩, trail.note record s⟩

/-- The result of a job that is run from the state, and the calls that it makes. -/
def Workspace.history (workspace : Workspace (StateM σ)) (job : Job) (state : σ) :
    Except Failure Report × List Call :=
  (((workspace.traced.run job).run.run []).run state).1

/-- The result of a watched run is that of the run itself. -/
theorem Workspace.history_result (workspace : Workspace (StateM σ)) (job : Job) (state : σ) :
    (workspace.history job state).1 = ((workspace.run job).run.run state).1 := by
  rw [← workspace.fst_run_traced job []]
  rfl

/-- The state after a watched run is that after the run itself. -/
theorem Workspace.history_state (workspace : Workspace (StateM σ)) (job : Job) (state : σ) :
    (((workspace.traced.run job).run.run []).run state).2 =
      ((workspace.run job).run.run state).2 := by
  rw [← workspace.fst_run_traced job []]
  rfl

/-- **A watched run is one of the histories** of the job. -/
theorem Workspace.run_seen (job : Job) (state : σ) :
    ((Workspace.any workspace.engine).run job).run (workspace.history job state).2
        (workspace.history job state).1 ∧
      trail.Leads state (workspace.history job state).2 ((workspace.run job).run.run state).2 := by
  obtain ⟨calls, hcalls, hseen, hleads⟩ :=
    Likeness.run_alike (seen_answers trail) job [] state
  rw [List.nil_append] at hcalls
  rw [← workspace.history_state]
  refine ⟨?_, ?_⟩
  · exact hcalls ▸ hseen
  · exact hcalls ▸ hleads

end Watching

end Stencil
