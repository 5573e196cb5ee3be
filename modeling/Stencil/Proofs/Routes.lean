import Stencil.Proofs.DiskWriting
import Stencil.Proofs.FileNames

/-!
# Routes to the files of a folder

The route to a name in a folder is the route to the folder and one step more.

* `advance_append`, `exists_between_of_advance`: a walk is cut anywhere before its last step.
* `stepsOf_join`: the steps of a path with a name below it.
* `Disk.Denotes`: the place that a path stands for.
* `eq_of_locate_join`: **a name joined to a path is found in the folder that the path stands for.**
-/

namespace Stencil.Disk

variable {disk : Disk} {folder location found : Location} {base path : Path} {name : Bytes}
  {purpose : Purpose} {first rest : List Step}

/-- The rest of a walk, after its first steps were walked. -/
def resume (disk : Disk) (purpose : Purpose) (rest : List Step) : Stop → Except IoError Stop
  | .at location => disk.advance purpose location rest
  | .link folder target steps => .ok (.link folder target (steps ++ rest))

/-- **A walk is cut anywhere before its last step.** What it is for matters only after the cut. -/
theorem advance_append (hrest : purpose = .create → rest ≠ [] ∧ rest ≠ [.slash]) :
    disk.advance purpose location (first ++ rest) =
      disk.advance .find location first >>= disk.resume purpose rest := by
  induction first generalizing location with
  | nil => rfl
  | cons step first ih =>
    rw [List.cons_append]
    unfold advance
    by_cases hhere : disk.node? location ≠ some .folder
    · rw [if_pos hhere, if_pos hhere]
      rfl
    · rw [if_neg hhere, if_neg hhere]
      cases step with
      | here => exact ih
      | slash => exact ih
      | up => exact ih
      | name name =>
        have hlast : ¬ (purpose = .create ∧ first ++ rest = [.slash]) := by
          rintro ⟨hcreate, happend⟩
          rcases List.append_eq_singleton_iff.1 happend with ⟨-, hslash⟩ | ⟨-, hnil⟩
          · exact (hrest hcreate).2 hslash
          · exact (hrest hcreate).1 hnil
        have hroom : ¬ (purpose = .create ∧ first ++ rest = []) := by
          rintro ⟨hcreate, happend⟩
          exact (hrest hcreate).1 (List.append_eq_nil_iff.1 happend).2
        simp only [hlast, hroom, if_false, reduceCtorEq, false_and]
        split
        · rfl
        · split
          · rfl
          · rfl
          · exact ih

/-- On a disk without links a walk can be cut anywhere. -/
theorem exists_between_of_advance (plain : disk.Plain)
    (h : disk.advance .find location (first ++ rest) = .ok (.at found)) :
    ∃ between, disk.advance .find location first = .ok (.at between) ∧
      disk.advance .find between rest = .ok (.at found) := by
  rw [advance_append (by simp)] at h
  cases hfirst : disk.advance .find location first with
  | error cause =>
    rw [hfirst] at h
    cases h
  | ok stop =>
    rw [hfirst] at h
    cases stop with
    | «at» between => exact ⟨between, rfl, h⟩
    | link around target steps => exact absurd hfirst (advance_ne_link plain)

/-- A walk to a name ends at that name. -/
theorem eq_of_advance_name {name : Name}
    (h : disk.advance purpose location [.name name] = .ok (.at found)) :
    found = name :: location := by
  simp only [advance] at h
  grind

/-- A walk that ends with a slash ends where it ends without. -/
theorem advance_of_append_slash
    (h : disk.advance .find location (first ++ [.slash]) = .ok (.at found)) :
    disk.advance .find location first = .ok (.at found) := by
  rw [advance_append (by simp)] at h
  cases hfirst : disk.advance .find location first with
  | error cause =>
    rw [hfirst] at h
    cases h
  | ok stop =>
    rw [hfirst] at h
    cases stop with
    | link around target steps => cases h
    | «at» place =>
      change disk.advance .find place [.slash] = .ok (.at found) at h
      unfold advance at h
      split at h
      · cases h
      · exact h

/-- A path with a name below it does not end with a slash. -/
theorem getLast?_join_ne (base : Path) (h : name.IsFileName) :
    (base.join ⟨name⟩).bytes.getLast? ≠ some Path.slash := by
  have hend : ∃ before, (base.join ⟨name⟩).bytes = before ++ name := by
    rcases Path.join_cases base h with ⟨-, hbytes⟩ | ⟨front, -, hbytes⟩ | ⟨-, hbytes⟩
    · exact ⟨[], hbytes⟩
    · exact ⟨front ++ [Path.slash], by simpa using hbytes⟩
    · exact ⟨base.bytes ++ [Path.slash], by simpa using hbytes⟩
  obtain ⟨before, hbytes⟩ := hend
  intro hslash
  rw [hbytes, List.getLast?_append, List.getLast?_eq_some_getLast h.ne_nil] at hslash
  have hlast : name.getLast h.ne_nil = Path.slash := Option.some.inj hslash
  exact h.no_slash (hlast ▸ List.getLast_mem h.ne_nil)

/-- **The steps of a path with a name below it** are those of the path and the name. -/
theorem stepsOf_join (base : Path) (h : name.IsFileName) :
    ∃ steps, stepsOf (base.join ⟨name⟩).bytes = steps ++ [.name name] ∧
      (stepsOf base.bytes = steps ∨ stepsOf base.bytes = steps ++ [.slash]) := by
  obtain ⟨pieces, hjoin, hbase⟩ := Path.pieces_join base h
  have hparts : (splitAt Path.slash base.bytes).filter (!·.isEmpty) =
      pieces.filter (!·.isEmpty) := by
    rcases hbase with hbase | hbase
    · rw [hbase]
    · rw [hbase, List.filter_append]; simp
  have hname : stepOf name = .name name := by
    rw [stepOf, if_neg h.ne_dot, if_neg h.ne_dots]
  refine ⟨(pieces.filter (!·.isEmpty)).map stepOf, ?_, ?_⟩
  · have hslash := getLast?_join_ne base h
    simp [stepsOf, hjoin, hname, h.ne_nil, hslash]
  · simp only [stepsOf, hparts]
    split
    · exact .inr rfl
    · exact .inl (List.append_nil _)

theorem startOf_eq (folder : Location) (path : Path) :
    startOf folder path.bytes = if path.isAbsolute then [] else folder := by
  unfold startOf Path.isAbsolute
  simp only [beq_iff_eq]

theorem startOf_join (folder : Location) (base : Path) (h : name.IsFileName) :
    startOf folder (base.join ⟨name⟩).bytes = startOf folder base.bytes := by
  rw [startOf_eq, startOf_eq, Path.isAbsolute_join base h]

/-- An empty path leads nowhere. -/
theorem locate_nil (disk : Disk) (purpose : Purpose) (folder : Location) :
    disk.locate purpose folder ⟨[]⟩ = .error .notFound := rfl

/-- The place to which names are joined behind a path, seen from a folder. It is the place that the
path leads to. An empty path leads nowhere, but a name joined to it is looked for in the folder
itself, so that folder is what it stands for. -/
def Denotes (disk : Disk) (folder : Location) (path : Path) (location : Location) : Prop :=
  (path.bytes = [] ∧ location = folder) ∨ disk.locate .find folder path = .ok location

/-- An empty path stands for the folder that it is seen from. -/
theorem Denotes.eq_of_nil (h : disk.Denotes folder path location) (hnil : path.bytes = []) :
    location = folder := by
  rcases h with ⟨-, rfl⟩ | hlocate
  · rfl
  · obtain rfl : path = ⟨[]⟩ := congrArg Path.mk hnil
    cases hlocate

/-- A path that stands for a place leads to it step by step. -/
theorem Denotes.advance (h : disk.Denotes folder path location) (plain : disk.Plain) :
    disk.advance .find (startOf folder path.bytes) (stepsOf path.bytes) = .ok (.at location) := by
  rcases h with ⟨hnil, rfl⟩ | hlocate
  · rw [hnil]
    rfl
  · exact ((locate_eq_ok_iff plain).1 hlocate).2

/-- A path stands for the same place as long as it leads there. -/
theorem Denotes.keep {after : Disk} (h : disk.Denotes folder path location)
    (keeps : disk.KeepsRoutes after) : after.Denotes folder path location := by
  rcases h with hempty | hlocate
  · exact .inl hempty
  · exact .inr (keeps.leads hlocate)

/-- A path that stands for a folder leads there also without the slash at its end. -/
theorem advance_of_denotes (plain : disk.Plain) (hbase : disk.Denotes folder base location)
    (hsteps : stepsOf base.bytes = first ∨ stepsOf base.bytes = first ++ [.slash]) :
    disk.advance .find (startOf folder base.bytes) first = .ok (.at location) := by
  have hadvance := hbase.advance plain
  rcases hsteps with hsteps | hsteps
  · rwa [hsteps] at hadvance
  · rw [hsteps] at hadvance
    exact advance_of_append_slash hadvance

/-- **A name joined to a path is found in the folder** that the path stands for. -/
theorem eq_of_locate_join (plain : disk.Plain) (hbase : disk.Denotes folder base location)
    (h : name.IsFileName) (hlocate : disk.locate purpose folder (base.join ⟨name⟩) = .ok found) :
    found = name :: location := by
  obtain ⟨-, hwalk⟩ := (locate_eq_ok_iff plain).1 hlocate
  obtain ⟨steps, hjoin, hsteps⟩ := stepsOf_join base h
  have hfolder := advance_of_denotes plain hbase hsteps
  rw [hjoin, startOf_join folder base h, advance_append (by simp), hfolder] at hwalk
  exact eq_of_advance_name hwalk

end Stencil.Disk
