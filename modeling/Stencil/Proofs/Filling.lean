import Stencil.Proofs.Routes

/-!
# Filling a folder

Files are put into a folder by their names, in places where no folders are. A path that ends in
another name leads where it did, and what could not be read there before cannot be read afterwards.

* `eq_of_locate_fileName`: **a path leads to the name at its end.**
* `Disk.fill`: a folder is filled with files.
* `fill_node?_of_mem`, `fill_node?_of_ne`: the files are there, and all else is as before.
* `keepsRoutes_fill`, `sound_fill`: paths lead where they did, and a tree stays a tree.
* `readBytes_fill_iff`: **what a path of another name reads** is what it read before.
* `writeBytes_join_iff`: when a file can be written into a folder.
-/

namespace Stencil

open Stencil.Path (slash dot)

namespace Path

variable {absolute : Bool} {part name : Bytes} {before parts : List Bytes} {path : Path}

/-- What is trimmed away are empty parts and dots. -/
theorem exists_idle_of_trimParts (h : trimParts absolute parts = part :: before) :
    ∃ idle, parts = idle ++ part :: before ∧ ∀ piece ∈ idle, piece = [] ∨ piece = [dot] := by
  induction parts with
  | nil => cases h
  | cons last parts ih =>
    unfold trimParts at h
    split at h
    · next hidle =>
      obtain ⟨idle, hparts, hpieces⟩ := ih h
      have hlast : last = [] ∨ last = [dot] := by
        simp only [isIdle, Bool.or_eq_true, List.isEmpty_iff, Bool.and_eq_true, beq_iff_eq] at hidle
        exact hidle.imp_right And.left
      refine ⟨last :: idle, by rw [hparts, List.cons_append], fun piece hpiece => ?_⟩
      rcases List.mem_cons.1 hpiece with rfl | hpiece
      · exact hlast
      · exact hpieces piece hpiece
    · cases h
      exact ⟨[], rfl, by simp⟩

/-- The parts of a path are its pieces, but for an empty one at the start. -/
theorem filter_parts (path : Path) :
    (splitAt slash path.bytes).filter (!·.isEmpty) = path.parts.reverse.filter (!·.isEmpty) := by
  unfold parts
  cases habsolute : path.isAbsolute with
  | false => simp
  | true =>
    obtain ⟨pieces, -, hsplit⟩ := splitAt_of_isAbsolute habsolute
    simp [hsplit]

end Path

namespace Disk

variable {disk after : Disk} {folder location target found : Location} {content : Bytes}
  {path base : Path} {name : Bytes} {steps : List Step} {files : List (Bytes × Bytes)}

/-- **The steps of a path with a file name**: after the name they stay where they are. -/
theorem stepsOf_of_fileName? (h : path.fileName? = some name) :
    ∃ before idle, stepsOf path.bytes = before ++ .name name :: idle ∧
      ∀ step ∈ idle, step = .here ∨ step = .slash := by
  have hname := Path.isFileName_of_fileName? h
  unfold Path.fileName? at h
  split at h
  · cases h
  · next part before htrim =>
    obtain rfl : part = name := by
      split at h
      · cases h
      · exact Option.some.inj h
    obtain ⟨idle, hparts, hidle⟩ := Path.exists_idle_of_trimParts htrim
    have hstep : stepOf part = .name (part) := by
      rw [stepOf, if_neg hname.ne_dot, if_neg hname.ne_dots]
    have hfilter := Path.filter_parts path
    rw [hparts] at hfilter
    refine ⟨((before.reverse.filter (!·.isEmpty)).map stepOf),
      ((idle.reverse.filter (!·.isEmpty)).map stepOf) ++
        (if path.bytes.getLast? = some slash then [.slash] else []), ?_, fun step hmem => ?_⟩
    · simp [stepsOf, hfilter, hname.ne_nil, hstep]
    · rcases List.mem_append.1 hmem with hmem | hmem
      · obtain ⟨piece, hpiece, rfl⟩ := List.mem_map.1 hmem
        rw [List.mem_filter, List.mem_reverse] at hpiece
        rcases hidle piece hpiece.1 with rfl | rfl
        · simp at hpiece
        · exact .inl rfl
      · exact .inr (by split at hmem <;> simp_all)

/-- A walk stays where it is at dots and at a slash. -/
theorem eq_of_advance_idle (hidle : ∀ step ∈ steps, step = .here ∨ step = .slash)
    (h : disk.advance .find location steps = .ok (.at found)) : found = location := by
  induction steps with
  | nil =>
    cases h
    rfl
  | cons step steps ih =>
    unfold advance at h
    split at h
    · cases h
    · have hrest := ih fun step hmem => hidle step (List.mem_cons_of_mem _ hmem)
      rcases hidle step List.mem_cons_self with rfl | rfl
      · exact hrest h
      · exact hrest h

/-- **A path leads to the name at its end.** -/
theorem eq_of_locate_fileName (plain : disk.Plain) (h : path.fileName? = some name)
    (hlocate : disk.locate .find folder path = .ok found) :
    ∃ around, found = name :: around := by
  obtain ⟨before, idle, hsteps, hidle⟩ := stepsOf_of_fileName? h
  obtain ⟨-, hwalk⟩ := (locate_eq_ok_iff plain).1 hlocate
  rw [hsteps] at hwalk
  obtain ⟨around, -, hlast⟩ := exists_between_of_advance plain hwalk
  rw [← List.singleton_append] at hlast
  obtain ⟨place, hname, hstay⟩ := exists_between_of_advance plain hlast
  refine ⟨around, ?_⟩
  rw [eq_of_advance_idle hidle hstay, eq_of_advance_name hname]

/-- The disk with files put into the folder, one after the other. -/
def fill (disk : Disk) (target : Location) (files : List (Bytes × Bytes)) : Disk :=
  files.foldl (fun disk file => disk.put (file.1 :: target) (.file file.2)) disk

theorem fill_cons (disk : Disk) (target : Location) (file : Bytes × Bytes)
    (files : List (Bytes × Bytes)) : disk.fill target (file :: files) =
      (disk.put (file.1 :: target) (.file file.2)).fill target files := rfl

/-- There are no folders at the names in the folder. -/
def Vacant (disk : Disk) (target : Location) (names : List Bytes) : Prop :=
  ∀ name ∈ names, disk.hasFolder (name :: target) = false

/-- A name that is none of some others leads elsewhere in every folder. -/
theorem cons_ne_of_not_mem {other : Bytes} {names : List Bytes} (h : name ∉ names)
    (hother : other ∈ names)
    (around around' : Location) : name :: around ≠ other :: around' := by
  intro heq
  have hsame : name = other := (List.cons.inj heq).1
  exact h (hsame ▸ hother)

/-- A file that is put leaves no folder where none was. -/
theorem hasFolder_put (hfree : disk.hasFolder found = false) :
    (disk.put location (.file content)).hasFolder found = false := by
  have hnil := ne_nil_of_free hfree
  unfold hasFolder at hfree ⊢
  by_cases hsame : found = location
  · subst hsame
    rw [node?_put_self disk _ hnil]
    rfl
  · rw [node?_put_of_ne disk _ hsame]
    exact hfree

/-- **All else is as before.** -/
theorem fill_node?_of_ne (h : ∀ name ∈ files.map Prod.fst, location ≠ name :: target) :
    (disk.fill target files).node? location = disk.node? location := by
  induction files generalizing disk with
  | nil => rfl
  | cons file files ih =>
    rw [List.map_cons, List.forall_mem_cons] at h
    rw [fill_cons, ih h.2, node?_put_of_ne disk _ h.1]

/-- A name at which something was put is that of a file. -/
theorem exists_file_of_fill (disk : Disk) (target : Location) (h : name ∈ files.map Prod.fst) :
    ∃ content, (disk.fill target files).node? (name :: target) =
      some (.file content) := by
  induction files generalizing disk with
  | nil => cases h
  | cons file files ih =>
    by_cases hlater : name ∈ files.map Prod.fst
    · exact ih _ hlater
    · rw [List.map_cons, List.mem_cons, or_iff_left hlater] at h
      subst h
      refine ⟨file.2, ?_⟩
      rw [fill_cons,
        fill_node?_of_ne fun other hother => cons_ne_of_not_mem hlater hother target target]
      exact node?_put_self disk _ (List.cons_ne_nil _ target)

/-- **The files are there**, if they have different names. -/
theorem fill_node?_of_mem (hnodup : (files.map Prod.fst).Nodup) (h : (name, content) ∈ files) :
    (disk.fill target files).node? (name :: target) = some (.file content) := by
  induction files generalizing disk with
  | nil => cases h
  | cons file files ih =>
    rw [List.map_cons, List.nodup_cons] at hnodup
    rcases List.mem_cons.1 h with rfl | hlater
    · rw [fill_cons,
        fill_node?_of_ne fun other hother => cons_ne_of_not_mem hnodup.1 hother target target]
      exact node?_put_self disk _ (List.cons_ne_nil _ target)
    · exact ih hnodup.2 hlater

/-- A folder that is filled with the files that it has stays as it is. -/
theorem fill_of_there
    (h : ∀ file ∈ files, disk.node? (file.1 :: target) = some (.file file.2)) :
    disk.fill target files = disk := by
  induction files with
  | nil => rfl
  | cons file files ih =>
    rw [List.forall_mem_cons] at h
    have hput : disk.put (file.1 :: target) (.file file.2) = disk := by
      have hlookup := h.1
      rw [node?, if_neg (List.cons_ne_nil _ target)] at hlookup
      rw [put, putKey_of_lookup hlookup]
    rw [fill_cons, hput]
    exact ih h.2

/-- Every path leads where it did. -/
theorem keepsRoutes_fill (plain : disk.Plain) (hvacant : disk.Vacant target (files.map Prod.fst)) :
    disk.KeepsRoutes (disk.fill target files) := by
  induction files generalizing disk with
  | nil => exact .refl plain
  | cons file files ih =>
    have hfree := hvacant file.1 (by simp)
    have hfirst : disk.KeepsRoutes (disk.put (file.1 :: target) (.file file.2)) :=
      keepsRoutes_put plain (by simp) hfree
    refine hfirst.trans (ih hfirst.plain fun name hname => hasFolder_put (hvacant name ?_))
    exact List.mem_cons_of_mem _ hname

/-- Folders stay folders. -/
theorem fill_keeps_folder (hvacant : disk.Vacant target (files.map Prod.fst))
    (hfolder : disk.node? location = some .folder) :
    (disk.fill target files).node? location = some .folder := by
  rw [← hfolder]
  refine fill_node?_of_ne fun name hname => ?_
  rintro rfl
  have hfree := hvacant name hname
  simp [hasFolder, hfolder] at hfree

/-- A tree stays a tree. -/
theorem sound_fill (sound : disk.Sound) (htarget : disk.node? target = some .folder)
    (hvacant : disk.Vacant target (files.map Prod.fst)) : (disk.fill target files).Sound := by
  induction files generalizing disk with
  | nil => exact sound
  | cons file files ih =>
    have hfree := hvacant file.1 (by simp)
    refine ih (sound.put htarget hfree) ?_ fun name hname => hasFolder_put (hvacant name ?_)
    · rw [node?_put_of_ne disk _ (List.cons_ne_self _ target).symm]
      exact htarget
    · exact List.mem_cons_of_mem _ hname

/-- What is read from elsewhere is read as before. -/
theorem readBytes_fill (plain : disk.Plain) (hvacant : disk.Vacant target (files.map Prod.fst))
    (hlocate : disk.locate .find folder path = .ok location)
    (hfile : disk.node? location = some (.file content))
    (helsewhere : ∀ name ∈ files.map Prod.fst, location ≠ name :: target) :
    (disk.fill target files).readBytes folder path = .ok content := by
  refine readBytes_eq_ok_iff.2 ⟨location, (keepsRoutes_fill plain hvacant).leads hlocate, ?_⟩
  rw [fill_node?_of_ne helsewhere]
  exact hfile

/-- A walk afterwards went the same way before, or it ends at a file that was put. -/
theorem advance_of_fill
    (h : (disk.fill target files).advance .find location steps = .ok (.at found)) :
    disk.advance .find location steps = .ok (.at found) ∨
      ∃ name ∈ files.map Prod.fst, found = name :: target := by
  induction steps generalizing location with
  | nil => exact .inl h
  | cons step rest ih =>
    unfold advance at h
    split at h
    · cases h
    · next hhere =>
      have hhere : (disk.fill target files).node? location = some .folder := by simpa using hhere
      -- the walk goes on, so it is in a folder, and no folder was put
      have hsame : disk.node? location = some .folder := by
        rw [← hhere]
        refine (fill_node?_of_ne fun name hname => ?_).symm
        rintro rfl
        obtain ⟨content, hfile⟩ := exists_file_of_fill disk target hname
        rw [hfile] at hhere
        cases hhere
      unfold advance
      rw [if_neg (by simp [hsame])]
      cases step with
      | here => exact ih h
      | slash => exact ih h
      | up => exact ih h
      | name name =>
        simp only [reduceCtorEq, false_and, if_false] at h ⊢
        split at h
        · cases h
        · next hlong =>
          rw [if_neg hlong]
          by_cases hput : ∃ other ∈ files.map Prod.fst, name :: location = other :: target
          · obtain ⟨other, hother, heq⟩ := hput
            obtain ⟨content, hfile⟩ := exists_file_of_fill disk target hother
            rw [heq, hfile] at h
            -- from a file the walk cannot go on, so it ends there
            cases rest with
            | nil =>
              cases h
              exact .inr ⟨other, hother, rfl⟩
            | cons step rest => simp [advance, hfile] at h
          · rw [fill_node?_of_ne fun other hother heq => hput ⟨other, hother, heq⟩] at h
            cases hthen : disk.node? (name :: location) with
            | none => simp [hthen] at h
            | some node =>
              cases node with
              | link route => simp [hthen] at h
              | file content => exact ih (by simpa [hthen] using h)
              | folder => exact ih (by simpa [hthen] using h)

/-- **What a path of another name reads** is what it read before. -/
theorem readBytes_fill_iff (plain : disk.Plain) (hvacant : disk.Vacant target (files.map Prod.fst))
    (hname : path.fileName? = some name) (hother : name ∉ files.map Prod.fst) :
    (disk.fill target files).readBytes folder path = .ok content ↔
      disk.readBytes folder path = .ok content := by
  have hroutes := keepsRoutes_fill plain hvacant
  have helsewhere : ∀ around, ∀ put ∈ files.map Prod.fst,
      name :: around ≠ put :: target :=
    fun around put hput => cons_ne_of_not_mem hother hput around target
  constructor
  · intro h
    obtain ⟨location, hlocate, hfile⟩ := readBytes_eq_ok_iff.1 h
    obtain ⟨around, rfl⟩ := eq_of_locate_fileName hroutes.plain hname hlocate
    obtain ⟨husable, hwalk⟩ := (locate_eq_ok_iff hroutes.plain).1 hlocate
    rw [fill_node?_of_ne (helsewhere around)] at hfile
    rcases advance_of_fill hwalk with hbefore | ⟨put, hput, heq⟩
    · exact readBytes_eq_ok_iff.2 ⟨_, (locate_eq_ok_iff plain).2 ⟨husable, hbefore⟩, hfile⟩
    · exact absurd heq (helsewhere around put hput)
  · intro h
    obtain ⟨location, hlocate, hfile⟩ := readBytes_eq_ok_iff.1 h
    obtain ⟨around, rfl⟩ := eq_of_locate_fileName plain hname hlocate
    exact readBytes_fill plain hvacant hlocate hfile (helsewhere around)

/-- A walk to a name in a folder ends there, whether the name is new or not. -/
theorem advance_create_name (plain : disk.Plain) (hfolder : disk.node? location = some .folder)
    {name : Name} (hshort : name.length ≤ longestName) :
    disk.advance .create location [.name name] = .ok (.at (name :: location)) := by
  unfold advance
  rw [if_neg (by simp [hfolder])]
  simp only [List.nil_eq, reduceCtorEq, and_false, if_false, Nat.not_lt.2 hshort]
  cases hthere : disk.node? (name :: location) with
  | none => simp
  | some node =>
    cases node with
    | link route => exact absurd hthere (plain _ route)
    | file content => rfl
    | folder => rfl

/-- The walk to a name below a path is one from the folder that the path stands for. -/
theorem advance_join (plain : disk.Plain) (hbase : disk.Denotes folder base target)
    (hname : name.IsFileName) (purpose : Purpose) :
    disk.advance purpose (startOf folder (base.join ⟨name⟩).bytes) (stepsOf (base.join ⟨name⟩).bytes) =
      disk.advance purpose target [.name name] := by
  obtain ⟨steps, hjoin, hsteps⟩ := stepsOf_join base hname
  have hfolder := advance_of_denotes plain hbase hsteps
  rw [hjoin, startOf_join folder base hname, advance_append (by simp), hfolder]
  rfl

/-- Where a path with a name below it leads when the name can be new. -/
theorem locate_create_join_iff (plain : disk.Plain) (hbase : disk.Denotes folder base target)
    (htarget : disk.node? target = some .folder) (hname : name.IsFileName) :
    disk.locate .create folder (base.join ⟨name⟩) = .ok location ↔
      unusable? (base.join ⟨name⟩) = none ∧ name.length ≤ longestName ∧
        location = name :: target := by
  rw [locate_eq_ok_iff plain, advance_join plain hbase hname]
  refine and_congr_right fun _ => ⟨fun h => ⟨?_, eq_of_advance_name h⟩, ?_⟩
  · -- a name that is too long is refused
    refine Nat.le_of_not_lt fun hlong => ?_
    simp [advance, htarget, hlong] at h
  · rintro ⟨hshort, rfl⟩
    exact advance_create_name plain htarget hshort

/-- A file in a folder is found at its name. -/
theorem locate_find_join (plain : disk.Plain) (hbase : disk.Denotes folder base target)
    (htarget : disk.node? target = some .folder) (hname : name.IsFileName)
    (husable : unusable? (base.join ⟨name⟩) = none)
    (hshort : name.length ≤ longestName)
    (hfile : disk.node? (name :: target) = some (.file content)) :
    disk.locate .find folder (base.join ⟨name⟩) = .ok (name :: target) := by
  refine (locate_eq_ok_iff plain).2 ⟨husable, ?_⟩
  rw [advance_join plain hbase hname]
  simp [advance, htarget, Nat.not_lt.2 hshort, hfile]

/-- **A file can be written into a folder** if its path and its name are not too long and no folder
is in its place. -/
theorem writeBytes_join_iff (plain : disk.Plain) (hbase : disk.Denotes folder base target)
    (htarget : disk.node? target = some .folder) (hname : name.IsFileName) :
    disk.writeBytes folder (base.join ⟨name⟩) content = .ok after ↔
      unusable? (base.join ⟨name⟩) = none ∧ name.length ≤ longestName ∧
        disk.hasFolder (name :: target) = false ∧
        after = disk.put (name :: target) (.file content) := by
  have hplace : ∀ {location}, disk.locate .create folder (base.join ⟨name⟩) = .ok location ↔ _ :=
    locate_create_join_iff plain hbase htarget hname
  constructor
  · intro h
    obtain ⟨location, hlocate, hfree, rfl⟩ := writeBytes_eq_ok h
    obtain ⟨husable, hshort, rfl⟩ := hplace.1 hlocate
    exact ⟨husable, hshort, hfree, rfl⟩
  · rintro ⟨husable, hshort, hfree, rfl⟩
    have hlocate := hplace.2 ⟨husable, hshort, rfl⟩
    simp [writeBytes, hlocate, hfree, bind, Except.bind, pure, Except.pure]

end Disk

end Stencil
