import Stencil.Proofs.AtDesk
import Stencil.Proofs.FileNames

/-!
# The files of a folder

The files of a folder that fit a pattern are listed by their names, each once.

* `Disk.IsTree`: a disk that holds a tree of files and folders.
* `Disk.mem_children_iff`: what is in a folder.
* `Storage.fittingNames_pairwise`: the names come in increasing order.
* `Desk.filesAt_congr`: a folder with the same files is listed alike.
* `Desk.filesAt_eq_ok`: **the files that are listed are those in the folder that fit.**
* `Desk.exists_text_of_filesAt`: they have names that are text.
-/

namespace Stencil

namespace Disk

/-- The disk holds a tree of files and folders, all by file names. -/
structure IsTree (disk : Disk) : Prop extends disk.Sound where
  plain : disk.Plain
  named : ∀ location ∈ disk.entries.map Prod.fst, ∀ name ∈ location, Bytes.IsFileName name

variable {disk : Disk} {folder location : Location} {name : Name} {node : Node}

/-- A sound disk holds a tree if all names are file names and there are no links. -/
theorem isTree_of_entries (nodup : (disk.entries.map Prod.fst).Nodup)
    (inFolder : ∀ location ∈ disk.entries.map Prod.fst, location ≠ [] ∧
      disk.node? location.tail = some .folder ∧ ∀ name ∈ location, Bytes.IsFileName name)
    (noLink : ∀ entry ∈ disk.entries, ∀ target, entry.2 ≠ .link target) : disk.IsTree where
  toSound := sound_of_entries nodup fun location hmem =>
    ⟨(inFolder location hmem).1, (inFolder location hmem).2.1⟩
  plain := plain_of_entries noLink
  named location hmem := (inFolder location hmem).2.2

theorem mem_entries_of_node? (h : disk.node? (name :: folder) = some node) :
    (name :: folder, node) ∈ disk.entries := by
  rw [node?, if_neg (List.cons_ne_nil name folder)] at h
  obtain ⟨before, after, hentries, -⟩ := List.lookup_eq_some_iff.1 h
  rw [hentries]
  simp

/-- **What is in a folder** is what is at a location below it. -/
theorem mem_children_iff (sound : disk.Sound) :
    (name, node) ∈ disk.children folder ↔ disk.node? (name :: folder) = some node := by
  constructor
  · intro h
    unfold children at h
    obtain ⟨⟨location, found⟩, hmem, hchild⟩ := List.mem_filterMap.1 h
    cases location with
    | nil => cases hchild
    | cons first around =>
      simp only [Option.ite_none_right_eq_some, Option.some.injEq, Prod.mk.injEq] at hchild
      obtain ⟨rfl, rfl, rfl⟩ := hchild
      rw [node?, if_neg (List.cons_ne_nil first around)]
      exact lookup_eq_some_of_mem sound.nodup hmem
  · intro h
    exact List.mem_filterMap.2 ⟨_, mem_entries_of_node? h, by simp⟩

/-- What is in a folder of a tree has a file name. -/
theorem IsTree.isFileName (tree : disk.IsTree) (h : disk.node? (name :: folder) = some node) :
    Bytes.IsFileName name := by
  have hentry : name :: folder ∈ disk.entries.map Prod.fst :=
    List.mem_map.2 ⟨_, mem_entries_of_node? h, rfl⟩
  exact tree.named _ hentry _ List.mem_cons_self

end Disk

/-- The name is text that fits the pattern. -/
def Glob.Pattern.FitsName (pattern : Glob.Pattern) (name : Bytes) : Prop :=
  ∃ text, name = Utf8.encode text ∧ pattern.fits text = true

namespace Storage

variable {entries : List Entry} {entry : Entry} {pattern : Glob.Pattern} {name : Bytes}

/-- Sorting loses nothing, if no two entries have one name. -/
theorem mem_sortEntries_iff (h : ∀ a ∈ entries, ∀ b ∈ entries, a.name = b.name → a = b) :
    entry ∈ sortEntries entries ↔ entry ∈ entries := by
  induction entries generalizing entry with
  | nil => rfl
  | cons first entries ih =>
    have ih : ∀ {entry}, entry ∈ sortEntries entries ↔ entry ∈ entries := ih fun a ha b hb =>
      h a (List.mem_cons_of_mem first ha) b (List.mem_cons_of_mem first hb)
    have hinsert : entry ∈ sortEntries (first :: entries) ↔
        entry = first ∨ entry ∈ sortEntries entries := by
      refine mem_insertBy_iff fun other hother hbefore hafter => ?_
      simp only [decide_eq_false_iff_not, List.not_lt] at hbefore hafter
      exact h first List.mem_cons_self other (List.mem_cons_of_mem first (ih.1 hother))
        (List.le_antisymm hafter hbefore)
    rw [hinsert, ih, List.mem_cons]

/-- The names of the files among the entries that fit the pattern, in their order. -/
def fittingNames (pattern : Glob.Pattern) (entries : List Entry) : List Bytes :=
  ((sortEntries entries).filter (isFitting pattern)).map Entry.name

theorem isFitting_iff : isFitting pattern entry = true ↔
    entry.isFile = true ∧ pattern.FitsName entry.name := by
  rw [isFitting, Bool.and_eq_true, Option.any_eq_true]
  refine and_congr_right fun _ => ⟨?_, ?_⟩
  · rintro ⟨text, hdecode, hfits⟩
    exact ⟨text, (Utf8.encode_of_decode? hdecode).symm, hfits⟩
  · rintro ⟨text, hname, hfits⟩
    exact ⟨text, hname ▸ Utf8.decode?_encode text, hfits⟩

/-- **The names come in increasing order** of their bytes. -/
theorem fittingNames_pairwise (pattern : Glob.Pattern) (entries : List Entry) :
    (fittingNames pattern entries).Pairwise (· < ·) := by
  have hsorted := (sortEntries_pairwise entries).filter (isFitting pattern)
  exact List.pairwise_map.2 (hsorted.imp of_decide_eq_true)

/-- Names in increasing order are all different. -/
theorem nodup_of_increasing {names : List Bytes} (h : names.Pairwise (· < ·)) : names.Nodup := by
  refine h.imp fun hbefore heq => ?_
  subst heq
  exact List.lt_irrefl _ hbefore

/-- Names in increasing order are known by which they are. -/
theorem eq_of_increasing {names others : List Bytes} (h : names.Pairwise (· < ·))
    (h' : others.Pairwise (· < ·)) (hmem : ∀ name, name ∈ names ↔ name ∈ others) :
    names = others := by
  refine List.Perm.eq_of_pairwise (fun a b _ _ hab hba => ?_) h h' ?_
  · exact absurd (List.lt_trans hab hba) (List.lt_irrefl _)
  · exact (List.perm_ext_iff_of_nodup (nodup_of_increasing h) (nodup_of_increasing h')).2 hmem

/-- The names are those of the files that fit, if no two entries have one name. -/
theorem mem_fittingNames_iff (h : ∀ a ∈ entries, ∀ b ∈ entries, a.name = b.name → a = b) :
    name ∈ fittingNames pattern entries ↔ ⟨name, true⟩ ∈ entries ∧ pattern.FitsName name := by
  unfold fittingNames
  simp only [List.mem_map, List.mem_filter, mem_sortEntries_iff h, isFitting_iff]
  constructor
  · rintro ⟨⟨found, file⟩, ⟨hmem, rfl, hfits⟩, rfl⟩
    exact ⟨hmem, hfits⟩
  · rintro ⟨hmem, hfits⟩
    exact ⟨_, ⟨hmem, rfl, hfits⟩, rfl⟩

theorem selectFiles_eq (folder : Path) (pattern : Glob.Pattern) (entries : List Entry) :
    selectFiles folder pattern entries =
      (fittingNames pattern entries).map fun name => folder.join ⟨name⟩ := by
  rw [selectFiles, fittingNames, List.map_map]
  rfl

end Storage

namespace Desk

variable {disk : Disk} {folder : Disk.Location} {path : Path} {pattern : Glob.Pattern}
  {templates : List Path}

/-- What is in a folder is in the entries, by its name. -/
theorem mem_map_entryOf_iff {nodes : List (Disk.Name × Disk.Node)} {name : Disk.Name} :
    ⟨name, true⟩ ∈ nodes.map entryOf ↔ ∃ content, (name, .file content) ∈ nodes := by
  constructor
  · intro h
    obtain ⟨⟨found, node⟩, hmem, hentry⟩ := List.mem_map.1 h
    cases node with
    | file content =>
      cases hentry
      exact ⟨content, hmem⟩
    | folder => cases hentry
    | link target => cases hentry
  · rintro ⟨content, hmem⟩
    exact List.mem_map.2 ⟨_, hmem, rfl⟩

/-- The entries of a folder have different names. -/
theorem entries_inj (sound : disk.Sound) (location : Disk.Location) :
    ∀ a ∈ (disk.children location).map entryOf, ∀ b ∈ (disk.children location).map entryOf,
      a.name = b.name → a = b := by
  intro a ha b hb hname
  obtain ⟨⟨name, node⟩, hnode, rfl⟩ := List.mem_map.1 ha
  obtain ⟨⟨other, found⟩, hfound, rfl⟩ := List.mem_map.1 hb
  have hentry : ∀ (name : Disk.Name) (node : Disk.Node), (entryOf (name, node)).name = name := by
    rintro name (content | _ | target) <;> rfl
  rw [hentry, hentry] at hname
  subst hname
  rw [Disk.mem_children_iff sound] at hnode hfound
  rw [hnode] at hfound
  cases hfound
  rfl

/-- The files of a folder that is there are listed by their names. -/
theorem filesAt_of_folder {location : Disk.Location}
    (hlocate : disk.locate .find folder path = .ok location)
    (hfolder : disk.node? location = some .folder) :
    filesAt path pattern disk folder = .ok ((Storage.fittingNames pattern
      ((disk.children location).map entryOf)).map fun name => path.join ⟨name⟩) := by
  have hthere : disk.hasFolder location = true := by simp [Disk.hasFolder, hfolder]
  rw [← Storage.selectFiles_eq, filesAt, Disk.listFolder, hlocate]
  simp only [bind, Except.bind, hthere, if_true, pure, Except.pure, Except.map]

/-- The names that are listed are those of files in the folder. -/
theorem mem_names_iff (sound : disk.Sound) {location : Disk.Location} {name : Bytes} :
    name ∈ Storage.fittingNames pattern ((disk.children location).map entryOf) ↔
      pattern.FitsName name ∧
        ∃ content, disk.node? (name :: location) = some (.file content) := by
  rw [Storage.mem_fittingNames_iff (entries_inj sound location), mem_map_entryOf_iff, and_comm]
  simp only [Disk.mem_children_iff sound]

/-- **A folder with the same files is listed alike.** -/
theorem filesAt_congr {other : Disk} {location : Disk.Location} (sound : disk.Sound)
    (sound' : other.Sound) (hlocate : disk.locate .find folder path = .ok location)
    (hlocate' : other.locate .find folder path = .ok location)
    (hfolder : disk.node? location = some .folder) (hfolder' : other.node? location = some .folder)
    (hfiles : ∀ name content, disk.node? (name :: location) = some (.file content) ↔
      other.node? (name :: location) = some (.file content)) :
    filesAt path pattern disk folder = filesAt path pattern other folder := by
  have hnames : Storage.fittingNames pattern ((disk.children location).map entryOf) =
      Storage.fittingNames pattern ((other.children location).map entryOf) := by
    refine Storage.eq_of_increasing (Storage.fittingNames_pairwise pattern _)
      (Storage.fittingNames_pairwise pattern _) fun name => ?_
    simp only [mem_names_iff sound, mem_names_iff sound', hfiles]
  rw [filesAt_of_folder hlocate hfolder, filesAt_of_folder hlocate' hfolder', hnames]

/-- **The files that are listed** are those in the folder that have a fitting name, each once. -/
theorem filesAt_eq_ok (sound : disk.Sound) (h : filesAt path pattern disk folder = .ok templates) :
    ∃ (location : Disk.Location) (names : List Bytes),
      disk.locate .find folder path = .ok location ∧
      disk.node? location = some .folder ∧
      templates = names.map (fun name => path.join ⟨name⟩) ∧
      names.Pairwise (· < ·) ∧
      ∀ name, name ∈ names ↔ pattern.FitsName name ∧
        ∃ content, disk.node? (name :: location) = some (.file content) := by
  have hlisted := h
  unfold filesAt Disk.listFolder at hlisted
  cases hlocate : disk.locate .find folder path with
  | error cause =>
    rw [hlocate] at hlisted
    cases hlisted
  | ok location =>
    rw [hlocate] at hlisted
    by_cases hfolder : disk.hasFolder location = true
    · have hthere : disk.node? location = some .folder := by simpa [Disk.hasFolder] using hfolder
      rw [filesAt_of_folder hlocate hthere] at h
      cases h
      exact ⟨location, _, rfl, hthere, rfl, Storage.fittingNames_pairwise _ _,
        fun name => mem_names_iff sound⟩
    · simp [bind, Except.bind, hfolder, throw, throwThe, MonadExceptOf.throw, Except.map] at hlisted

/-- In a tree, every file that is listed has a name that is text. -/
theorem exists_text_of_filesAt (tree : disk.IsTree)
    (h : filesAt path pattern disk folder = .ok templates) :
    ∀ template ∈ templates, ∃ text, template.fileName? = some (Utf8.encode text) := by
  obtain ⟨location, names, -, -, rfl, -, hnames⟩ := filesAt_eq_ok tree.toSound h
  intro template hmem
  obtain ⟨name, hname, rfl⟩ := List.mem_map.1 hmem
  obtain ⟨⟨text, rfl, -⟩, content, hfile⟩ := (hnames name).1 hname
  exact ⟨text, Path.fileName?_join path (tree.isFileName hfile)⟩

end Desk

end Stencil
