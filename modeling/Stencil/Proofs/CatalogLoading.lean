import Stencil.Console
import Stencil.Proofs.RunHistory

/-!
# Catalogs that are loaded

A catalog is refused if two of its options have one id, or if an id is the letter for cancelling. So
every option of a catalog that is loaded is found by its id, and the delimiters of its job are those
of the catalog.

* `Catalog.Coherent`: every id is that of one option, and none cancels.
* `Catalog.optionsOf_eq_map`: entries with ids of their own are options.
* `Catalog.coherent_of_ofDocument`: **a catalog of a document is coherent.**
* `Catalog.Coherent.job_eq`: an option is found by its id.
* `Workspace.coherent_of_loadCatalog`: so it is in whatever workspace a catalog is loaded.
-/

namespace Stencil

namespace Catalog

/-- No two options have one id, and no id is the letter for cancelling. -/
structure Coherent (catalog : Catalog) : Prop where
  nodup : (catalog.options.map NamedJob.id).Nodup
  not_cancel : ∀ option ∈ catalog.options, isCancel option.id = false

variable {base : Option Path} {seen : List Text} {entry : OptionEntry} {entries : List OptionEntry}
  {options : List NamedJob} {catalog : Catalog}

/-- An id without a fault neither cancels nor is taken. -/
theorem of_idFault?_eq_none (h : idFault? seen entry = none) :
    isCancel entry.id.trim = false ∧ entry.id.trim ∉ seen := by
  unfold idFault? at h
  dsimp only at h
  split at h
  · cases h
  · split at h
    · cases h
    · next hcancel =>
      split at h
      · cases h
      · next hseen => exact ⟨by simpa using hcancel, by simpa using hseen⟩

/-- The options of entries without a fault have ids that are not taken, and each its own. -/
theorem optionsOf_eq_ok (h : optionsOf base seen entries = .ok options) :
    (options.map NamedJob.id).Nodup ∧
      ∀ option ∈ options, option.id ∉ seen ∧ isCancel option.id = false := by
  induction entries generalizing seen options with
  | nil =>
    cases h
    exact ⟨List.nodup_nil, nofun⟩
  | cons entry entries ih =>
    unfold optionsOf at h
    split at h
    · cases h
    · next hfault =>
      obtain ⟨hcancel, hseen⟩ := of_idFault?_eq_none hfault
      cases hlater : optionsOf base (entry.id.trim :: seen) entries with
      | error fault =>
        rw [hlater] at h
        cases h
      | ok later =>
        rw [hlater] at h
        cases h
        obtain ⟨hnodup, hids⟩ := ih hlater
        constructor
        · rw [List.map_cons, List.nodup_cons]
          refine ⟨fun hmem => ?_, hnodup⟩
          -- the ids after this one were checked against it
          obtain ⟨option, hoption, hid⟩ := List.mem_map.1 hmem
          exact (hids option hoption).1 (hid ▸ List.mem_cons_self)
        · intro option hoption
          rcases List.mem_cons.1 hoption with rfl | hoption
          · exact ⟨hseen, hcancel⟩
          · obtain ⟨hother, hsound⟩ := hids option hoption
            exact ⟨fun hmem => hother (List.mem_cons_of_mem _ hmem), hsound⟩

/-- **Entries with ids of their own are options**, in their order. -/
theorem optionsOf_eq_map
    (hids : ∀ entry ∈ entries, entry.id.trim ≠ [] ∧ isCancel entry.id.trim = false)
    (hnodup : (entries.map fun entry => entry.id.trim).Nodup)
    (hnew : ∀ entry ∈ entries, entry.id.trim ∉ seen) :
    optionsOf base seen entries = .ok (entries.map (optionOf base)) := by
  induction entries generalizing seen with
  | nil => rfl
  | cons entry entries ih =>
    obtain ⟨⟨hne, hcancel⟩, hidsLater⟩ := List.forall_mem_cons.1 hids
    obtain ⟨hnewEntry, hnewLater⟩ := List.forall_mem_cons.1 hnew
    rw [List.map_cons, List.nodup_cons] at hnodup
    have hfault : idFault? seen entry = none := by
      simp [idFault?, hne, hcancel, hnewEntry]
    have hlater : ∀ other ∈ entries, other.id.trim ∉ entry.id.trim :: seen := by
      intro other hother hmem
      rcases List.mem_cons.1 hmem with heq | hmem
      · exact hnodup.1 (heq ▸ List.mem_map_of_mem (f := fun entry => entry.id.trim) hother)
      · exact hnewLater other hother hmem
    have hrest := ih hidsLater hnodup.2 hlater
    rw [optionsOf, hfault]
    simp only [hrest]
    rfl

/-- **A catalog of a document is coherent.** -/
theorem coherent_of_ofDocument {document : Text} (h : ofDocument base document = .ok catalog) :
    catalog.Coherent := by
  unfold ofDocument at h
  split at h
  · cases h
  · unfold ofSettings at h
    dsimp only at h
    split at h
    · cases h
    · split at h
      · cases h
      · next hoptions =>
        cases h
        obtain ⟨hnodup, hids⟩ := optionsOf_eq_ok hoptions
        exact ⟨hnodup, fun option hoption => (hids option hoption).2⟩

/-- Where every id is that of one option, the option is found by it. -/
theorem find?_of_nodup (hnodup : (options.map NamedJob.id).Nodup) {option : NamedJob}
    (h : option ∈ options) : options.find? (·.id == option.id) = some option := by
  induction options with
  | nil => cases h
  | cons first options ih =>
    rw [List.map_cons, List.nodup_cons] at hnodup
    rcases List.mem_cons.1 h with rfl | h
    · rw [List.find?_cons_of_pos (by simp)]
    · have hne : first.id ≠ option.id := fun heq => hnodup.1 (heq ▸ List.mem_map_of_mem h)
      rw [List.find?_cons_of_neg (by simpa using hne)]
      exact ih hnodup.2 h

/-- **An option is found by its id**, with the delimiters of the catalog. -/
theorem Coherent.job_eq (coherent : catalog.Coherent) {option : NamedJob}
    (h : option ∈ catalog.options) :
    catalog.job option.id = .ok (option.withDelimiters catalog.delimiters) := by
  rw [job_eq_ok_iff]
  exact ⟨option, find?_of_nodup coherent.nodup h, rfl⟩

end Catalog

section Loading

variable {m n : Type → Type} [Monad m] [Monad n] [LawfulMonad m] [LawfulMonad n]
  {like : Likeness m n} {w : Workspace m} {v : Workspace n}

/-- A catalog is loaded alike in workspaces that answer alike to calls that look. -/
theorem Likeness.loadCatalog_alike (h : like.Looks w v) (file : Path) :
    like.AlikeOrFail (w.loadCatalog file) (v.loadCatalog file) := by
  refine bind_alike (attempt_alike _ _ (h.readText file)) fun document => ?_
  refine bind_alike (forM_alike (fun record => lift_alike (h.note record)) _) fun _ => ?_
  dsimp only
  split
  · exact pure_alike _
  · exact throw_alike _
  · exact throw_alike _

end Loading

/-- A computation is like its histories if its result is that of one of them. -/
def Likeness.possible (σ : Type) : Likeness (StateM σ) Histories where
  Alike x y := ∀ s, ∃ calls, y calls (x.run s).1
  pure a s := ⟨[], rfl, rfl⟩
  bind {α β x y f g} hx hf s := by
    obtain ⟨first, hfirst⟩ := hx s
    obtain ⟨rest, hrest⟩ := hf (x.run s).1 (x.run s).2
    exact ⟨first ++ rest, first, _, rest, hfirst, hrest, rfl⟩

theorem possible_looks {σ : Type} (workspace : Workspace (StateM σ)) :
    (Likeness.possible σ).Looks workspace (.any workspace.engine) where
  readText _ _ := ⟨_, rfl⟩
  listFiles _ _ _ := ⟨_, rfl⟩
  isPresent _ _ := ⟨_, rfl⟩
  isFolder _ _ := ⟨_, rfl⟩
  note _ _ := ⟨[], rfl, rfl⟩

/-- A catalog that is loaded is one of a document. -/
theorem loadCatalog_seen {engine : Engine} {file : Path} {catalog : Catalog} {calls : List Call}
    (h : ((Workspace.any engine).loadCatalog file).run calls (.ok catalog)) : catalog.Coherent := by
  rcases bind_seen h with ⟨failure, -, hfail⟩ | ⟨first, document, rest, -, hdocument, -⟩
  · cases hfail
  · have hloaded := notes_bind_seen hdocument
    dsimp only at hloaded
    split at hloaded
    · next hdocument =>
      obtain ⟨-, hok⟩ := hloaded
      cases hok
      exact Catalog.coherent_of_ofDocument hdocument
    · obtain ⟨-, hfail⟩ := hloaded
      cases hfail
    · obtain ⟨-, hfail⟩ := hloaded
      cases hfail

/-- **A catalog that is loaded is coherent**, in whatever workspace. -/
theorem Workspace.coherent_of_loadCatalog {σ : Type} (workspace : Workspace (StateM σ)) {file : Path}
    {state : σ} {catalog : Catalog}
    (h : ((workspace.loadCatalog file).run.run state).1 = .ok catalog) : catalog.Coherent := by
  obtain ⟨calls, hseen⟩ := Likeness.loadCatalog_alike (possible_looks workspace) file state
  rw [h] at hseen
  exact loadCatalog_seen hseen

end Stencil
