import Stencil.Proofs.Routes

/-!
# Making folders

Folders are made where nothing was, on the way to the folder that is asked for. All else stays, also
when not all of them can be made.

* `Grows`: folders were added at places that certain paths lead to.
* `grows_makeFolders`: **making folders adds nothing else**.
* `makeFolders_eq_ok`: **when they are made, the path leads to a folder**.
* `sound_makeFolders`: a tree stays a tree.
* `makeFolders_of_there`: **folders that are there are not made again.**
* `extends_makeFolders`: every file can be read as before.
-/

namespace Stencil.Disk

variable {disk between after : Disk} {folder location found : Location} {path : Path}
  {paths around : List Path} {name : Name} {content : Bytes}

/-- What changed is that folders were added, each where one of the paths leads. -/
structure Grows (folder : Location) (paths : List Path) (disk after : Disk) : Prop
    extends disk.KeepsRoutes after where
  keeps : ∀ {location node}, disk.node? location = some node → after.node? location = some node
  adds : ∀ {location}, disk.node? location = none → after.node? location = none ∨
    after.node? location = some .folder ∧
      ∃ path ∈ paths, after.locate .find folder path = .ok location

namespace Grows

theorem refl (plain : disk.Plain) (folder : Location) (paths : List Path) :
    Grows folder paths disk disk := ⟨.refl plain, id, .inl⟩

theorem trans (h : Grows folder paths disk between) (h' : Grows folder paths between after) :
    Grows folder paths disk after where
  toKeepsRoutes := h.toKeepsRoutes.trans h'.toKeepsRoutes
  keeps hnode := h'.keeps (h.keeps hnode)
  adds hnone := by
    rcases h.adds hnone with hstill | ⟨hmade, path, hpath, hlocate⟩
    · exact h'.adds hstill
    · exact .inr ⟨h'.keeps hmade, path, hpath, h'.leads hlocate⟩

theorem mono {more : List Path} (h : Grows folder paths disk after) (hmore : paths ⊆ more) :
    Grows folder more disk after where
  toKeepsRoutes := h.toKeepsRoutes
  keeps := h.keeps
  adds hnone := by
    rcases h.adds hnone with hstill | ⟨hmade, path, hpath, hlocate⟩
    · exact .inl hstill
    · exact .inr ⟨hmade, path, hmore hpath, hlocate⟩

/-- What was added are no files. -/
theorem file_iff (h : Grows folder paths disk after) :
    after.node? location = some (.file content) ↔ disk.node? location = some (.file content) := by
  refine ⟨fun hfile => ?_, h.keeps⟩
  cases hbefore : disk.node? location with
  | some node =>
    rw [h.keeps hbefore] at hfile
    exact hfile
  | none =>
    rcases h.adds hbefore with hnone | ⟨hmade, -⟩
    · rw [hnone] at hfile
      cases hfile
    · rw [hmade] at hfile
      cases hfile

end Grows

/-- The steps of a path are names and dots, and a slash if the path ends with one. -/
theorem stepsOf_eq (bytes : Bytes) :
    stepsOf bytes = (stepsOf bytes).filter (· ≠ .slash) ∨
      stepsOf bytes = (stepsOf bytes).filter (· ≠ .slash) ++ [.slash] := by
  have hnames : ∀ parts : List Bytes,
      (parts.map stepOf).filter (· ≠ .slash) = parts.map stepOf := by
    intro parts
    rw [List.filter_eq_self]
    intro step hstep
    obtain ⟨part, -, rfl⟩ := List.mem_map.1 hstep
    unfold stepOf
    split
    · rfl
    · split <;> rfl
  simp only [stepsOf, List.filter_append, hnames]
  split
  · exact .inr (by simp)
  · exact .inl (by simp)

/-- **A folder is made** at a name in a folder that the path leads through, where nothing is. -/
theorem newFolderLocation_eq_ok (h : disk.newFolderLocation folder path = .ok location) :
    unusable? path = none ∧ ∃ before around name,
      (stepsOf path.bytes).filter (· ≠ .slash) = before ++ [.name name] ∧
      disk.walk .find mostLinks (startOf folder path.bytes) before = .ok around ∧
      disk.node? around = some .folder ∧ name.length ≤ longestName ∧
      disk.node? (name :: around) = none ∧ location = name :: around := by
  unfold newFolderLocation at h
  split at h
  · cases h
  · next husable =>
    refine ⟨husable, ?_⟩
    split at h
    · cases h
    · next last before hsteps =>
      simp only [bind, Except.bind] at h
      split at h
      · cases h
      · next around hwalk =>
        split at h
        · cases h
        · next hfolder =>
          simp only [pure, Except.pure] at h
          split at h
          · next name =>
            split at h
            · cases h
            · next hlong =>
              split at h
              · cases h
              · next hfree =>
                cases h
                refine ⟨before.reverse, around, name, ?_, hwalk, ?_, Nat.le_of_not_lt hlong, ?_, rfl⟩
                · rw [← List.reverse_reverse ((stepsOf path.bytes).filter _), hsteps,
                    List.reverse_cons]
                · simpa [hasFolder] using hfolder
                · simpa using hfree
          · cases h

/-- A walk goes on into a folder. -/
theorem advance_into {rest : List Step} (haround : disk.node? location = some .folder)
    (hlong : name.length ≤ longestName) (hfolder : disk.node? (name :: location) = some .folder) :
    disk.advance .find location (.name name :: rest) =
      disk.advance .find (name :: location) rest := by
  rw [advance, if_neg (by simp [haround])]
  simp only [reduceCtorEq, false_and, if_false]
  rw [if_neg (Nat.not_lt.2 hlong), hfolder]

/-- A walk stays in a folder at a slash. -/
theorem advance_slash (hfolder : disk.node? location = some .folder) :
    disk.advance .find location [.slash] = .ok (.at location) := by
  unfold advance
  rw [if_neg (by simp [hfolder])]
  rfl

/-- A path leads to the folder that is made for it: up to the last name it leads where it did
before, and then on. -/
theorem locate_put_newFolder (plain : disk.Plain)
    (h : disk.newFolderLocation folder path = .ok location) :
    (disk.put location .folder).locate .find folder path = .ok location := by
  obtain ⟨husable, before, around, name, hsteps, hwalk, haround, hlong, hnone, rfl⟩ :=
    newFolderLocation_eq_ok h
  have hfree : disk.hasFolder (name :: around) = false := by simp [hasFolder, hnone]
  have hmade := node?_put_self disk .folder (List.cons_ne_nil name around)
  have hfolder : (disk.put (name :: around) .folder).node? around = some .folder := by
    rw [node?_put_of_ne disk _ (List.cons_ne_self name around).symm]
    exact haround
  have hbefore : (disk.put (name :: around) .folder).advance .find (startOf folder path.bytes)
      before = .ok (.at around) :=
    advance_put (by simp) hfree (plain _) (.inl rfl) ((walk_eq_ok_iff plain).1 hwalk)
  refine (locate_eq_ok_iff (plain_put plain (by simp))).2 ⟨husable, ?_⟩
  rcases stepsOf_eq path.bytes with heq | heq
  · rw [heq, hsteps, advance_append (by simp), hbefore]
    exact advance_into hfolder hlong hmade
  · rw [heq, hsteps, List.append_assoc, advance_append (by simp), hbefore]
    exact (advance_into hfolder hlong hmade).trans (advance_slash hmade)

/-- **A folder that is made is found** at its path, and nothing else has changed. -/
theorem makeFolder_eq_ok (plain : disk.Plain) (h : disk.makeFolder folder path = .ok after) :
    Grows folder [path] disk after ∧ ∃ location, after.locate .find folder path = .ok location ∧
      after.node? location = some .folder := by
  unfold makeFolder at h
  cases hplace : disk.newFolderLocation folder path with
  | error cause =>
    rw [hplace] at h
    cases h
  | ok location =>
    rw [hplace] at h
    cases h
    have hlocate := locate_put_newFolder plain hplace
    obtain ⟨-, -, around, name, -, -, -, -, hnone, rfl⟩ := newFolderLocation_eq_ok hplace
    have hfree : disk.hasFolder (name :: around) = false := by simp [hasFolder, hnone]
    have hmade := node?_put_self disk .folder (List.cons_ne_nil name around)
    refine ⟨⟨keepsRoutes_put plain (by simp) hfree, ?_, ?_⟩, name :: around, hlocate, hmade⟩
    · intro other node hnode
      have hne : other ≠ name :: around := by
        rintro rfl
        rw [hnone] at hnode
        cases hnode
      rw [node?_put_of_ne disk _ hne]
      exact hnode
    · intro other hother
      by_cases hsame : other = name :: around
      · subst hsame
        exact .inr ⟨hmade, path, List.mem_singleton_self path, hlocate⟩
      · rw [node?_put_of_ne disk _ hsame]
        exact .inl hother

theorem isFolder_iff : disk.isFolder folder path = true ↔
    ∃ location, disk.locate .find folder path = .ok location ∧
      disk.node? location = some .folder := by
  unfold isFolder
  cases disk.locate .find folder path with
  | error cause => simp
  | ok location => simp [hasFolder]

/-- **Making folders adds nothing else**, also when not all of them can be made. -/
theorem grows_makeFoldersFrom (plain : disk.Plain) (folder : Location) (paths : List Path) :
    Grows folder paths disk (makeFoldersFrom folder paths disk).2 := by
  induction paths generalizing disk with
  | nil => exact .refl plain folder []
  | cons path around ih =>
    have hone : [path] ⊆ path :: around := by simp
    unfold makeFoldersFrom
    split
    · exact .refl plain folder _
    · split
      · next made hmade => exact (makeFolder_eq_ok plain hmade).1.mono hone
      · have haround := (ih plain).mono (List.subset_cons_self path around)
        split
        · next hfailed =>
          rw [hfailed] at haround
          exact haround
        · next hdone =>
          rw [hdone] at haround
          split
          · next made hmade =>
            exact haround.trans ((makeFolder_eq_ok haround.plain hmade).1.mono hone)
          · split <;> exact haround
      · split <;> exact .refl plain folder _

/-- When the folders are made, the path leads to a folder, unless it is empty. -/
theorem makeFoldersFrom_eq_ok (plain : disk.Plain)
    (h : makeFoldersFrom folder (path :: around) disk = (.ok (), after)) :
    (path.bytes = [] ∧ after = disk) ∨ ∃ location, after.locate .find folder path = .ok location ∧
      after.node? location = some .folder := by
  have hpresent : ∀ {disk : Disk} {cause : IoError},
      (if disk.isFolder folder path = true then (Except.ok (), disk) else (.error cause, disk)) =
        ((Except.ok (), after) : Except IoError Unit × Disk) →
      ∃ location, after.locate .find folder path = .ok location ∧
        after.node? location = some .folder := by
    intro disk cause hpresent
    split at hpresent
    · next hfolder =>
      cases hpresent
      exact isFolder_iff.1 hfolder
    · cases hpresent
  unfold makeFoldersFrom at h
  split at h
  · next hnil =>
    cases h
    exact .inl ⟨hnil, rfl⟩
  · split at h
    · next made hmade =>
      cases h
      exact .inr (makeFolder_eq_ok plain hmade).2
    · have haround := grows_makeFoldersFrom plain folder around
      split at h
      · cases h
      · next hdone =>
        rw [hdone] at haround
        split at h
        · next made hmade =>
          cases h
          exact .inr (makeFolder_eq_ok haround.plain hmade).2
        · exact .inr (hpresent h)
    · exact .inr (hpresent h)

theorem grows_makeFolders (plain : disk.Plain) (folder : Location) (path : Path) :
    Grows folder (path :: path.parents) disk (disk.makeFolders folder path).2 :=
  grows_makeFoldersFrom plain folder _

/-- **When the folders are made**, the path stands for a folder, and nothing else has changed. -/
theorem makeFolders_eq_ok (plain : disk.Plain) (hfolder : disk.node? folder = some .folder)
    (h : disk.makeFolders folder path = (.ok (), after)) :
    Grows folder (path :: path.parents) disk after ∧
      ∃ location, after.Denotes folder path location ∧ after.node? location = some .folder := by
  have hgrows := grows_makeFolders plain folder path
  rw [h] at hgrows
  refine ⟨hgrows, ?_⟩
  rcases makeFoldersFrom_eq_ok plain h with ⟨hnil, rfl⟩ | ⟨location, hlocate, hnode⟩
  · exact ⟨folder, .inl ⟨hnil, rfl⟩, hfolder⟩
  · exact ⟨location, .inr hlocate, hnode⟩

/-- What every new folder keeps is kept by the making of all of them. -/
theorem makeFoldersFrom_keeps {Keeps : Disk → Prop} (paths : List Path)
    (hstep : ∀ disk path made, Keeps disk → disk.makeFolder folder path = .ok made → Keeps made)
    (h : Keeps disk) : Keeps (makeFoldersFrom folder paths disk).2 := by
  induction paths generalizing disk with
  | nil => exact h
  | cons path around ih =>
    unfold makeFoldersFrom
    split
    · exact h
    · split
      · next made hmade => exact hstep disk path made h hmade
      · have haround := ih h
        split
        · next hfailed =>
          rw [hfailed] at haround
          exact haround
        · next hdone =>
          rw [hdone] at haround
          split
          · next made hmade => exact hstep _ path made haround hmade
          · split <;> exact haround
      · split <;> exact h

/-- A folder stays where it is when folders are made. -/
theorem makeFoldersFrom_keeps_folder (hfolder : disk.node? location = some .folder)
    (folder : Location) (paths : List Path) :
    (makeFoldersFrom folder paths disk).2.node? location = some .folder := by
  refine @makeFoldersFrom_keeps disk folder (fun disk => disk.node? location = some .folder) paths
    (fun disk path made hkept hmade => ?_) hfolder
  unfold makeFolder at hmade
  cases hplace : disk.newFolderLocation folder path with
  | error cause =>
    rw [hplace] at hmade
    cases hmade
  | ok place =>
    rw [hplace] at hmade
    cases hmade
    obtain ⟨-, -, around, name, -, -, -, -, hnone, rfl⟩ := newFolderLocation_eq_ok hplace
    have hne : location ≠ name :: around := by
      rintro rfl
      rw [hnone] at hkept
      cases hkept
    rw [node?_put_of_ne disk _ hne]
    exact hkept

/-- **A tree stays a tree** when folders are made. -/
theorem sound_makeFolders (sound : disk.Sound) (folder : Location) (path : Path) :
    (disk.makeFolders folder path).2.Sound := by
  refine makeFoldersFrom_keeps _ (fun disk path made sound hmade => ?_) sound
  unfold makeFolder at hmade
  cases hplace : disk.newFolderLocation folder path with
  | error cause =>
    rw [hplace] at hmade
    cases hmade
  | ok location =>
    rw [hplace] at hmade
    cases hmade
    obtain ⟨-, -, around, name, -, -, haround, -, hnone, rfl⟩ := newFolderLocation_eq_ok hplace
    exact sound.put haround (by simp [hasFolder, hnone])

/-- A folder that is there is not made again. -/
theorem newFolderLocation_of_there (plain : disk.Plain)
    (hlocate : disk.locate .find folder path = .ok location) :
    disk.newFolderLocation folder path = .error .alreadyExists := by
  obtain ⟨husable, hwalk⟩ := (locate_eq_ok_iff plain).1 hlocate
  have hnames : disk.advance .find (startOf folder path.bytes)
      ((stepsOf path.bytes).filter (· ≠ .slash)) = .ok (.at location) := by
    rcases stepsOf_eq path.bytes with heq | heq
    · rwa [heq] at hwalk
    · rw [heq] at hwalk
      exact advance_of_append_slash hwalk
  unfold newFolderLocation
  rw [husable]
  simp only
  generalize hlast : ((stepsOf path.bytes).filter (· ≠ .slash)).reverse = steps
  cases steps with
  | nil => rfl
  | cons last before =>
    rw [List.reverse_eq_cons_iff.1 hlast] at hnames
    obtain ⟨around, hbefore, hend⟩ := exists_between_of_advance plain hnames
    have haround : disk.walk .find mostLinks (startOf folder path.bytes) before.reverse = .ok around :=
      (walk_eq_ok_iff plain).2 hbefore
    have hfolder : disk.node? around = some .folder := by
      refine Decidable.byContradiction fun hnone => ?_
      simp [advance, hnone] at hend
    simp only [haround, bind, Except.bind, hasFolder, hfolder, beq_self_eq_true, Bool.not_true,
      Bool.false_eq_true, if_false]
    cases last with
    | here => rfl
    | up => rfl
    | slash => rfl
    | name name =>
      -- the walk passed the name, so it is short and something is there
      have hshort : ¬ longestName < name.length := by
        intro hlong
        simp [advance, hfolder, hlong] at hend
      have hthere : (disk.node? (name :: around)).isSome = true := by
        cases hnode : disk.node? (name :: around) with
        | some node => rfl
        | none => simp [advance, hfolder, hshort, hnode] at hend
      simp only [hshort, hthere, if_false, if_true]
      rfl

/-- **Folders that are there are not made again.** -/
theorem makeFolders_of_there (plain : disk.Plain) (hstands : disk.Denotes folder path location)
    (hfolder : disk.node? location = some .folder) :
    disk.makeFolders folder path = (.ok (), disk) := by
  unfold makeFolders makeFoldersFrom
  by_cases hnil : path.bytes = []
  · rw [if_pos hnil]
  · rw [if_neg hnil]
    have hlocate := hstands.resolve_left fun hempty => hnil hempty.1
    have hthere : disk.isFolder folder path = true := isFolder_iff.2 ⟨location, hlocate, hfolder⟩
    have hmade : disk.makeFolder folder path = .error .alreadyExists := by
      rw [makeFolder, newFolderLocation_of_there plain hlocate]
      rfl
    simp only [hmade, hthere, if_true]

/-- A disk without links on which everything can be read that can be read on another. -/
structure Extends (disk after : Disk) : Prop where
  plain : after.Plain
  reads : ∀ folder path content, disk.readBytes folder path = .ok content →
    after.readBytes folder path = .ok content

theorem Grows.extends (h : Grows folder paths disk after) : disk.Extends after where
  plain := h.plain
  reads _ _ _ hread := by
    obtain ⟨location, hlocate, hfile⟩ := readBytes_eq_ok_iff.1 hread
    exact readBytes_eq_ok_iff.2 ⟨location, h.leads hlocate, h.keeps hfile⟩

theorem extends_makeFolders (plain : disk.Plain) (folder : Location) (path : Path) :
    disk.Extends (disk.makeFolders folder path).2 :=
  (grows_makeFolders plain folder path).extends

end Stencil.Disk
