import Stencil.Proofs.FileNames

/-!
# The folder that holds a path

The folder above a path is found by its parts, so it can be written otherwise than the folder to
which a name was joined. It is the same folder, component by component.

* `splitAt_intercalate`: pieces that are joined with slashes are split again.
* `Path.Same`: paths with the same components.
* `Path.parent?_join`: **the folder above a name that was joined to a path is that path**, however
  the path is spelled.
-/

namespace Stencil

/-- Pieces that are joined with a separator are split again. -/
theorem splitAt_intercalate {α : Type} [DecidableEq α] {separator : α} {pieces : List (List α)}
    (hne : pieces ≠ []) (h : ∀ piece ∈ pieces, separator ∉ piece) :
    splitAt separator ([separator].intercalate pieces) = pieces := by
  induction pieces with
  | nil => exact absurd rfl hne
  | cons piece pieces ih =>
    have hpiece := splitAt_of_not_mem (h piece List.mem_cons_self)
    cases pieces with
    | nil => simpa using hpiece
    | cons next pieces =>
      have hlater := ih (List.cons_ne_nil next pieces) fun p hp => h p (List.mem_cons_of_mem _ hp)
      rw [List.intercalate_cons_cons, List.append_assoc, List.singleton_append,
        splitAt_append_cons, hpiece, hlater]
      rfl

namespace Path

variable {absolute : Bool} {base other path : Path} {name : Bytes} {parts : List Bytes}

/-- The paths have the same components, and both start at the top or neither does. -/
structure Same (path other : Path) : Prop where
  isAbsolute : path.isAbsolute = other.isAbsolute
  components : path.components = other.components

/-- A name below the same path is the same. -/
theorem Same.join (h : path.Same other) (hname : name.IsFileName) :
    (path.join ⟨name⟩).Same (other.join ⟨name⟩) where
  isAbsolute := by rw [isAbsolute_join path hname, isAbsolute_join other hname, h.isAbsolute]
  components := by rw [components_join path hname, components_join other hname, h.components]

theorem trimParts_isSuffix (absolute : Bool) (parts : List Bytes) :
    trimParts absolute parts <:+ parts := by
  induction parts with
  | nil => exact List.suffix_rfl
  | cons part before ih =>
    unfold trimParts
    split
    · exact ih.trans (List.suffix_cons part before)
    · exact List.suffix_rfl

/-- What is trimmed away is no component. -/
theorem keepParts_trimParts (absolute : Bool) (parts : List Bytes) :
    keepParts absolute (trimParts absolute parts) = keepParts absolute parts := by
  induction parts with
  | nil => rfl
  | cons part before ih =>
    unfold trimParts
    split
    · next hidle => rw [ih, keepParts, if_pos hidle]
    · rfl

/-- A path that is made of parts starts like its first piece. -/
theorem isAbsolute_ofParts (hslash : ∀ part ∈ parts, slash ∉ part)
    (hfirst : absolute = false → ∀ part ∈ parts.getLast?, part ≠ []) :
    (ofParts absolute parts).isAbsolute = absolute := by
  cases absolute with
  | true => rfl
  | false =>
    cases hparts : parts.reverse with
    | nil =>
      unfold ofParts isAbsolute
      rw [hparts]
      rfl
    | cons first pieces =>
      have hlast : first ∈ parts.getLast? := by
        rw [← List.head?_reverse, hparts]
        rfl
      have hmem : first ∈ parts := List.mem_reverse.1 (hparts ▸ List.mem_cons_self)
      obtain ⟨c, rest, rfl⟩ := List.exists_cons_of_ne_nil (hfirst rfl first hlast)
      have hc : c ≠ slash := fun hc => hslash _ hmem (hc ▸ List.mem_cons_self)
      unfold ofParts isAbsolute
      rw [hparts]
      cases pieces <;> simpa using hc

/-- The path that is made of parts has them again. -/
theorem parts_ofParts (hne : parts ≠ []) (hslash : ∀ part ∈ parts, slash ∉ part)
    (hfirst : absolute = false → ∀ part ∈ parts.getLast?, part ≠ []) :
    (ofParts absolute parts).parts = parts := by
  have hsplit : splitAt slash ([slash].intercalate parts.reverse) = parts.reverse :=
    splitAt_intercalate (by simpa using hne)
      fun part hpart => hslash part (List.mem_reverse.1 hpart)
  unfold Path.parts
  rw [isAbsolute_ofParts hslash hfirst]
  cases absolute with
  | true =>
    -- the slash at the start has an empty piece before it
    have hroot : splitAt slash (ofParts true parts).bytes = [] :: parts.reverse := by
      rw [← hsplit]
      exact splitAt_append_cons slash [] _
    simp [hroot]
  | false =>
    have hrelative : splitAt slash (ofParts false parts).bytes = parts.reverse := hsplit
    simp [hrelative]

/-- The components of a path that is made of parts are among the parts. -/
theorem components_ofParts (hslash : ∀ part ∈ parts, slash ∉ part)
    (hfirst : absolute = false → ∀ part ∈ parts.getLast?, part ≠ []) :
    (ofParts absolute parts).components = keepParts absolute parts := by
  by_cases hnil : parts = []
  · subst hnil
    cases absolute <;> rfl
  · unfold components
    rw [isAbsolute_ofParts hslash hfirst, parts_ofParts hnil hslash hfirst]

/-- The first part of a relative path is not empty, unless the path is. -/
theorem ne_nil_of_getLast?_parts (h : path.isAbsolute = false) (hne : path.bytes ≠ []) :
    ∀ part ∈ path.parts.getLast?, part ≠ [] := by
  intro part hpart
  obtain ⟨piece, pieces, hsplit, hpiece⟩ := exists_piece h hne
  have hparts : path.parts = (piece :: pieces).reverse := by
    rw [parts, hsplit, h]
    rfl
  rw [hparts, List.getLast?_reverse] at hpart
  cases hpart
  exact hpiece

/-- **The path of the trimmed parts is the path itself.** -/
theorem same_ofParts (path : Path) :
    (ofParts path.isAbsolute (trimParts path.isAbsolute path.parts)).Same path := by
  have hsuffix := trimParts_isSuffix path.isAbsolute path.parts
  have hslash : ∀ part ∈ trimParts path.isAbsolute path.parts, slash ∉ part :=
    fun part hpart => no_slash_of_mem_parts (hsuffix.subset hpart)
  have hfirst : path.isAbsolute = false →
      ∀ part ∈ (trimParts path.isAbsolute path.parts).getLast?, part ≠ [] := by
    intro hrelative part hpart
    by_cases hempty : path.bytes = []
    · -- nothing is left of the empty path
      have hparts : path.parts = [[]] := by
        unfold parts
        rw [hrelative, hempty]
        rfl
      rw [hparts] at hpart
      cases hpart
    · obtain ⟨trimmed, htrimmed⟩ := hsuffix
      refine ne_nil_of_getLast?_parts hrelative hempty part ?_
      rw [← htrimmed, List.getLast?_append, hpart]
      rfl
  exact ⟨isAbsolute_ofParts hslash hfirst, (components_ofParts hslash hfirst).trans
    (keepParts_trimParts path.isAbsolute path.parts)⟩

/-- **The folder above a name that was joined to a path is that path**, however it is spelled. -/
theorem parent?_join (base : Path) (h : name.IsFileName) :
    ∃ folder, (base.join ⟨name⟩).parent? = some folder ∧ folder.Same base := by
  refine ⟨_, ?_, same_ofParts base⟩
  obtain ⟨before, hjoin, hbase⟩ := parts_join base h
  have htrim : trimParts base.isAbsolute base.parts = trimParts base.isAbsolute before := by
    rcases hbase with hbase | hbase
    · rw [hbase]
    · rw [hbase, trimParts, if_pos (isIdle_nil _ _)]
  rw [parent?, parents, isAbsolute_join base h, hjoin, parentsOfParts, isIdle_of_isFileName h,
    htrim]
  rfl

end Path

end Stencil
