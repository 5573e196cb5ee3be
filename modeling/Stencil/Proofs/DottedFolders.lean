import Stencil.Proofs.DottedPaths
import Stencil.Proofs.FolderMaking
import Stencil.Proofs.Parents

/-!
# Folders made from the dot

For a path with a dot before it the same folders are made as without: the folders above it are
spelled with the dot as well, and the dot itself is there already. This is so for the empty path
too, for which nothing is made.

* `Path.IsRelative`: the parts of a relative path, and how they are trimmed after a dot.
* `Disk.SameFolder`: paths that make the same folder.
* `Disk.makeFoldersFrom_parents`: the folders above a path, with the dot before it.
* `Disk.makeFolders_dotted`: **the same folders are made** for every path with the dot before it.
-/

namespace Stencil

open Stencil.Path (slash dot)

section

variable {α : Type}

/-- The pieces of a list are joined to the list again. -/
theorem intercalate_splitAt [DecidableEq α] (separator : α) (items : List α) :
    [separator].intercalate (splitAt separator items) = items := by
  induction items using splitAt_induction separator with
  | last piece h => rw [splitAt_of_not_mem h, List.intercalate_singleton]
  | next piece rest h ih =>
    obtain ⟨first, pieces, hsplit⟩ :=
      List.exists_cons_of_ne_nil (splitAt_ne_nil separator rest)
    rw [splitAt_append_cons, splitAt_of_not_mem h, List.singleton_append]
    rw [hsplit] at ih ⊢
    rw [List.intercalate_cons_cons, ih]
    simp

/-- The first pieces are joined to the start of a list. -/
theorem intercalate_isPrefix (separator : α) (pieces more : List (List α)) :
    [separator].intercalate pieces <+: [separator].intercalate (pieces ++ more) := by
  induction pieces with
  | nil => exact List.nil_prefix
  | cons piece pieces ih =>
    cases pieces with
    | nil =>
      cases more with
      | nil => exact List.prefix_rfl
      | cons next more =>
        rw [List.intercalate_singleton, List.singleton_append, List.intercalate_cons_cons,
          List.append_assoc]
        exact List.prefix_append piece _
    | cons next pieces =>
      rw [List.cons_append, List.cons_append, List.intercalate_cons_cons,
        List.intercalate_cons_cons]
      exact (List.prefix_append_right_inj _).2 ih

end

namespace Path

variable {path : Path} {parts : List Bytes}

theorem parts_dotted (h : path.isAbsolute = false) : path.dotted.parts = path.parts ++ [[dot]] := by
  unfold parts
  rw [isAbsolute_dotted, h, bytes_dotted h]
  have hsplit : splitAt slash (dot :: slash :: path.bytes) = [[dot]] ++ splitAt slash path.bytes :=
    splitAt_append_cons slash [dot] path.bytes
  simp [hsplit]

/-- A relative path is made of its parts. -/
theorem ofParts_parts (h : path.isAbsolute = false) : ofParts false path.parts = path := by
  unfold ofParts parts
  rw [h]
  simp [intercalate_splitAt]

/-- The parts of a relative path that is not empty, the last one first. -/
structure IsRelative (parts : List Bytes) : Prop where
  ne_nil : parts ≠ []
  first_ne_nil : ∀ part ∈ parts.getLast?, part ≠ []
  no_slash : ∀ part ∈ parts, slash ∉ part

theorem isRelative_parts (h : path.isAbsolute = false) (hne : path.bytes ≠ []) :
    IsRelative path.parts where
  ne_nil hnil := by
    have hpath := ofParts_parts h
    rw [hnil] at hpath
    exact hne (congrArg Path.bytes hpath).symm
  first_ne_nil := ne_nil_of_getLast?_parts h hne
  no_slash _ hpart := no_slash_of_mem_parts hpart

theorem isIdle_append_dot {part : Bytes} {before : List Bytes} (h : before ≠ []) :
    isIdle false part (before ++ [[dot]]) = isIdle false part before := by
  obtain ⟨next, rest, rfl⟩ := List.exists_cons_of_ne_nil h
  rfl

namespace IsRelative

theorem of_isSuffix {before : List Bytes} (h : IsRelative parts) (hsuffix : before <:+ parts)
    (hne : before ≠ []) : IsRelative before where
  ne_nil := hne
  first_ne_nil := by
    obtain ⟨after, rfl⟩ := hsuffix
    intro part hpart
    refine h.first_ne_nil part ?_
    rw [List.getLast?_append, hpart]
    rfl
  no_slash part hpart := h.no_slash part (hsuffix.subset hpart)

theorem trimParts_ne_nil (h : IsRelative parts) : trimParts false parts ≠ [] := by
  induction parts with
  | nil => exact absurd rfl h.ne_nil
  | cons part before ih =>
    unfold trimParts
    split
    · next hidle =>
      by_cases hbefore : before = []
      · subst hbefore
        have hpart := h.first_ne_nil part rfl
        simp [isIdle, hpart] at hidle
      · exact ih (h.of_isSuffix (List.suffix_cons part before) hbefore)
    · exact List.cons_ne_nil part before

theorem trim (h : IsRelative parts) : IsRelative (trimParts false parts) :=
  h.of_isSuffix (trimParts_isSuffix false parts) h.trimParts_ne_nil

theorem isAbsolute (h : IsRelative parts) : (ofParts false parts).isAbsolute = false :=
  isAbsolute_ofParts h.no_slash fun _ => h.first_ne_nil

theorem exists_first (h : IsRelative parts) :
    ∃ first pieces, parts.reverse = first :: pieces ∧ first ≠ [] := by
  obtain ⟨first, pieces, hpieces⟩ :=
    List.exists_cons_of_ne_nil (List.reverse_ne_nil_iff.2 h.ne_nil)
  refine ⟨first, pieces, hpieces, h.first_ne_nil first ?_⟩
  rw [← List.head?_reverse, hpieces]
  rfl

theorem bytes_ne_nil (h : IsRelative parts) : (ofParts false parts).bytes ≠ [] := by
  obtain ⟨first, pieces, hpieces, hfirst⟩ := h.exists_first
  have hprefix : first <+: (ofParts false parts).bytes := by
    have hjoined := intercalate_isPrefix slash [first] pieces
    rw [List.intercalate_singleton] at hjoined
    simpa [ofParts, hpieces] using hjoined
  intro hnil
  rw [hnil] at hprefix
  exact hfirst (List.prefix_nil.1 hprefix)

theorem dotted_ofParts (h : IsRelative parts) :
    ofParts false (parts ++ [[dot]]) = (ofParts false parts).dotted := by
  obtain ⟨first, pieces, hpieces, -⟩ := h.exists_first
  suffices (ofParts false (parts ++ [[dot]])).bytes = (ofParts false parts).dotted.bytes from
    congrArg Path.mk this
  rw [bytes_dotted h.isAbsolute]
  simp [ofParts, hpieces, List.intercalate_cons_cons]

/-- A dot before the parts is left after trimming, unless there is a dot already. -/
theorem trimParts_append_dot (h : IsRelative parts) :
    trimParts false (parts ++ [[dot]]) = trimParts false parts ∨
      trimParts false (parts ++ [[dot]]) = trimParts false parts ++ [[dot]] := by
  induction parts with
  | nil => exact absurd rfl h.ne_nil
  | cons part before ih =>
    rw [List.cons_append]
    by_cases hbefore : before = []
    · subst hbefore
      have hpart := h.first_ne_nil part rfl
      by_cases hdot : part = [dot]
      · exact .inl (by simp [hdot, trimParts, isIdle])
      · exact .inr (by simp [hpart, hdot, trimParts, isIdle])
    · rw [trimParts, trimParts, isIdle_append_dot hbefore]
      split
      · exact ih (h.of_isSuffix (List.suffix_cons part before) hbefore)
      · exact .inr rfl

end IsRelative

end Path

namespace Disk

variable {disk : Disk} {folder location : Location} {path other : Path}
  {parts before : List Bytes} {around around' : List Path}

/-- The first step of a relative path that is not empty is no slash. -/
theorem exists_step (h : path.isAbsolute = false) (hne : path.bytes ≠ []) :
    ∃ step steps, stepsOf path.bytes = step :: steps ∧ step ≠ .slash := by
  obtain ⟨piece, pieces, hsplit, hpiece⟩ := Path.exists_piece h hne
  have hstep : stepOf piece ≠ .slash := by
    unfold stepOf
    split
    · simp
    · split <;> simp
  unfold stepsOf
  simp only [hsplit, List.filter_cons, List.isEmpty_eq_false_iff.2 hpiece, Bool.not_false, if_true,
    List.map_cons, List.cons_append]
  exact ⟨_, _, rfl, hstep⟩

/-- **A folder is made at the same place** with the dot before its path. -/
theorem newFolderLocation_dotted (hfolder : disk.node? folder = some .folder)
    (hne : path.bytes ≠ []) (hroom : HasRoom path) :
    disk.newFolderLocation folder path.dotted = disk.newFolderLocation folder path := by
  cases habsolute : path.isAbsolute with
  | true => rw [Path.dotted_of_isAbsolute habsolute]
  | false =>
    obtain ⟨step, steps, hsteps, hslash⟩ := exists_step habsolute hne
    have hstart : startOf folder path.dotted.bytes = startOf folder path.bytes := by
      rw [startOf_eq, startOf_eq, habsolute, Path.isAbsolute_dotted, habsolute]
    have hhere : startOf folder path.bytes = folder := by
      rw [startOf_eq, habsolute]
      rfl
    have hfilter : (stepsOf path.bytes).filter (· ≠ .slash) ≠ [] := by
      simp [hsteps, hslash]
    unfold newFolderLocation
    rw [unusable?_dotted hne hroom, hstart, hhere, stepsOf_dotted habsolute hne,
      List.filter_cons_of_pos (by decide), List.reverse_cons]
    obtain ⟨last, before, hlast⟩ :=
      List.exists_cons_of_ne_nil (List.reverse_ne_nil_iff.2 hfilter)
    simp only [hlast, List.cons_append, List.reverse_append, List.reverse_cons, List.reverse_nil,
      List.nil_append, walk_here hfolder]

/-- The paths make the same folder, whatever there is on the disk. -/
structure SameFolder (folder : Location) (path other : Path) : Prop where
  route : SameRoute folder path other
  makes : ∀ disk : Disk, disk.node? folder = some .folder →
    disk.newFolderLocation folder other = disk.newFolderLocation folder path

/-- **A path makes the same folder with the dot before it**, unless it is empty. -/
theorem sameFolder_dotted (folder : Location) (hne : path.bytes ≠ []) (hroom : HasRoom path) :
    SameFolder folder path path.dotted where
  route := sameRoute_dotted folder hne hroom
  makes _ hfolder := newFolderLocation_dotted hfolder hne hroom

theorem SameFolder.refl (folder : Location) (path : Path) : SameFolder folder path path :=
  ⟨fun _ _ _ => rfl, fun _ _ => rfl⟩

/-- Paths that make the same folder do so after the same folders were made around it. -/
theorem SameFolder.makeFoldersFrom_cons (h : SameFolder folder path other) (hne : path.bytes ≠ [])
    (hne' : other.bytes ≠ [])
    (haround : ∀ disk : Disk, disk.node? folder = some .folder →
      makeFoldersFrom folder around' disk = makeFoldersFrom folder around disk)
    (hfolder : disk.node? folder = some .folder) :
    makeFoldersFrom folder (other :: around') disk =
      makeFoldersFrom folder (path :: around) disk := by
  have hmake : ∀ disk : Disk, disk.node? folder = some .folder →
      disk.makeFolder folder other = disk.makeFolder folder path ∧
        disk.isFolder folder other = disk.isFolder folder path := fun disk hfolder =>
    ⟨by rw [makeFolder, makeFolder, h.makes disk hfolder], h.route.isFolder_eq hfolder⟩
  obtain ⟨hmade, hthere⟩ := hmake disk hfolder
  have hkept := makeFoldersFrom_keeps_folder hfolder folder around
  unfold makeFoldersFrom
  rw [if_neg hne, if_neg hne', hmade, hthere, haround disk hfolder]
  generalize makeFoldersFrom folder around disk = result at hkept ⊢
  obtain ⟨answer, between⟩ := result
  cases answer with
  | error cause => rfl
  | ok =>
    obtain ⟨hmade', hthere'⟩ := hmake between hkept
    simp only [hmade', hthere']

/-- At a path that stays there is a folder already. -/
theorem Stays.newFolderLocation_eq (h : Stays path) (hfolder : disk.node? folder = some .folder) :
    disk.newFolderLocation folder path = .error .alreadyExists := by
  have hidle : ∀ step ∈ ((stepsOf path.bytes).filter (· ≠ .slash)).reverse,
      step = .here ∨ step = .slash := fun step hstep =>
    h.idle step (List.mem_filter.1 (List.mem_reverse.1 hstep)).1
  unfold newFolderLocation
  rw [h.usable, h.startOf_eq]
  simp only
  generalize ((stepsOf path.bytes).filter (· ≠ .slash)).reverse = steps at hidle
  cases steps with
  | nil => rfl
  | cons last before =>
    obtain ⟨hlast, hbefore⟩ := List.forall_mem_cons.1 hidle
    have hwalk : disk.walk .find mostLinks folder before.reverse = .ok folder :=
      walk_of_idle hfolder mostLinks fun step hstep => hbefore step (List.mem_reverse.1 hstep)
    simp only [hwalk, bind, Except.bind, hasFolder, hfolder, beq_self_eq_true, Bool.not_true,
      Bool.false_eq_true, if_false]
    rcases hlast with rfl | rfl <;> rfl

/-- For a path that stays nothing is made. -/
theorem Stays.makeFoldersFrom_cons (h : Stays path) (hfolder : disk.node? folder = some .folder)
    (around : List Path) : makeFoldersFrom folder (path :: around) disk = (.ok (), disk) := by
  have hthere : disk.isFolder folder path = true :=
    isFolder_iff.2 ⟨folder, h.locate_eq hfolder .find, hfolder⟩
  have hfailed : disk.makeFolder folder path = .error .alreadyExists := by
    rw [makeFolder, h.newFolderLocation_eq hfolder]
    rfl
  unfold makeFoldersFrom
  simp [hfailed, hthere]

theorem makeFoldersFrom_nil_cons (folder : Location) (around : List Path) (disk : Disk) :
    makeFoldersFrom folder (⟨[]⟩ :: around) disk = (.ok (), disk) := by
  rw [makeFoldersFrom, if_pos rfl]

/-- A path does not get longer when its last parts are trimmed. -/
theorem length_ofParts_le (h : before <:+ parts) :
    (Path.ofParts false before).bytes.length ≤
      (Path.ofParts false parts).bytes.length := by
  obtain ⟨after, rfl⟩ := h
  have hprefix : (Path.ofParts false before).bytes <+:
      (Path.ofParts false (after ++ before)).bytes := by
    simpa [Path.ofParts] using intercalate_isPrefix slash before.reverse after.reverse
  obtain ⟨rest, hrest⟩ := hprefix
  rw [← hrest, List.length_append]
  exact Nat.le_add_right _ _

/-- **The same folders are made around a path** with the dot before it: those above it are spelled
with the dot as well, and the dot itself is there already. -/
theorem makeFoldersFrom_parents (h : Path.IsRelative parts)
    (hroom : (Path.ofParts false parts).bytes.length + 2 < pathLimit)
    (hfolder : disk.node? folder = some .folder) :
    makeFoldersFrom folder (Path.parentsOfParts false (parts ++ [[dot]])) disk =
      makeFoldersFrom folder (Path.parentsOfParts false parts) disk := by
  -- the last part first, so the folders around a path are those of the parts before it
  induction parts generalizing disk with
  | nil => exact absurd rfl h.ne_nil
  | cons part before ih =>
    rw [List.cons_append]
    by_cases hbefore : before = []
    · subst hbefore
      have hpart := h.first_ne_nil part rfl
      by_cases hdot : part = [dot]
      -- a dot of its own is dropped by both
      · simp [hdot, Path.parentsOfParts, Path.isIdle]
      · have hparents : Path.parentsOfParts false [part] = [⟨[]⟩] := by
          simp [Path.parentsOfParts, Path.isIdle, hpart, Path.trimParts, Path.ofParts]
        have hparents' : Path.parentsOfParts false [part, [dot]] = [⟨[dot]⟩, ⟨[]⟩] := by
          simp [Path.parentsOfParts, Path.isIdle, hpart, hdot, Path.trimParts, Path.ofParts]
        rw [List.nil_append, hparents, hparents', stays_dot.makeFoldersFrom_cons hfolder,
          makeFoldersFrom_nil_cons]
    · have hrelative := h.of_isSuffix (List.suffix_cons part before) hbefore
      have hshort := Nat.lt_of_le_of_lt
        (Nat.add_le_add_right (length_ofParts_le (List.suffix_cons part before)) 2) hroom
      have hrest : ∀ disk : Disk, disk.node? folder = some .folder →
          makeFoldersFrom folder (Path.parentsOfParts false (before ++ [[dot]])) disk =
            makeFoldersFrom folder (Path.parentsOfParts false before) disk :=
        fun disk hfolder => ih hrelative hshort hfolder
      rw [Path.parentsOfParts, Path.parentsOfParts, Path.isIdle_append_dot hbefore]
      split
      · exact hrest disk hfolder
      · have htrimmed := hrelative.trim
        have hne := htrimmed.bytes_ne_nil
        rcases hrelative.trimParts_append_dot with htrim | htrim
        · rw [htrim]
          exact (SameFolder.refl folder _).makeFoldersFrom_cons hne hne hrest hfolder
        · -- the folder above is the same one, seen from the dot
          rw [htrim, htrimmed.dotted_ofParts]
          refine (sameFolder_dotted folder hne (hasRoom_of_length ?_)).makeFoldersFrom_cons hne
            (Path.bytes_dotted_ne_nil _) hrest hfolder
          exact Nat.lt_of_le_of_lt
            (Nat.add_le_add_right (length_ofParts_le (Path.trimParts_isSuffix false before)) 2) hshort

/-- No folder is made for a path that cannot be used. -/
theorem makeFolders_of_unusable {cause : IoError} (h : unusable? path = some cause)
    (hne : path.bytes ≠ []) : disk.makeFolders folder path = (.error cause, disk) := by
  have hmade : disk.makeFolder folder path = .error cause := by
    rw [makeFolder, newFolderLocation, h]
    rfl
  have hthere : disk.isFolder folder path = false := by
    rw [isFolder, locate, h]
  have hcause : cause ≠ .notFound := by
    rintro rfl
    unfold unusable? at h
    grind
  unfold makeFolders makeFoldersFrom
  rw [if_neg hne, hmade]
  cases cause <;> simp_all

/-- **The same folders are made for a path with the dot before it.** -/
theorem makeFolders_dotted (hroom : HasRoom path) (hfolder : disk.node? folder = some .folder) :
    disk.makeFolders folder path.dotted = disk.makeFolders folder path := by
  cases habsolute : path.isAbsolute with
  | true => rw [Path.dotted_of_isAbsolute habsolute]
  | false =>
    by_cases hnil : path.bytes = []
    · obtain rfl : path = ⟨[]⟩ := congrArg Path.mk hnil
      rw [makeFolders, makeFolders, stays_dotted_nil.makeFoldersFrom_cons hfolder,
        makeFoldersFrom_nil_cons]
    · have husable := unusable?_dotted hnil hroom
      have hdotted := Path.bytes_dotted_ne_nil path
      -- a path that cannot be used fails at once, so only the others need the bound on their length
      cases hcause : unusable? path with
      | some cause =>
        rw [makeFolders_of_unusable hcause hnil,
          makeFolders_of_unusable (husable.trans hcause) hdotted]
      | none =>
        have hlong : path.bytes.length + 2 < pathLimit := by
          rw [hcause] at husable
          have hlength := length_dotted habsolute
          unfold unusable? at husable
          grind
        have hparts := Path.ofParts_parts habsolute
        have hparents : ∀ disk : Disk, disk.node? folder = some .folder →
            makeFoldersFrom folder path.dotted.parents disk =
              makeFoldersFrom folder path.parents disk := by
          intro disk hfolder
          rw [Path.parents, Path.parents, Path.isAbsolute_dotted, habsolute,
            Path.parts_dotted habsolute]
          refine makeFoldersFrom_parents (Path.isRelative_parts habsolute hnil) ?_ hfolder
          rwa [hparts]
        exact (sameFolder_dotted folder hnil hroom).makeFoldersFrom_cons hnil hdotted hparents hfolder

end Disk

end Stencil
