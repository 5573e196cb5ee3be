import Stencil.Path

/-!
# File names and the folders that hold them

A path that has a file name has it as a single ordinary part, and a name joined to a path is one
part below it.

* `Bytes.IsFileName`: a single ordinary part of a path.
* `Path.isFileName_of_fileName?`: **every file name is one.**
* `Path.pieces_join`: joining a name adds one piece.
* `Path.components_join`: **what a name is joined to holds it directly.**
-/

namespace Stencil

open Stencil.Path (slash dot)

/-- The bytes are a single part of a path that leads down. -/
structure Bytes.IsFileName (name : Bytes) : Prop where
  ne_nil : name ≠ []
  no_slash : slash ∉ name
  ne_dot : name ≠ [dot]
  ne_dots : name ≠ [dot, dot]

instance (name : Bytes) : Decidable name.IsFileName :=
  decidable_of_iff (name ≠ [] ∧ slash ∉ name ∧ name ≠ [dot] ∧ name ≠ [dot, dot])
    ⟨fun h => ⟨h.1, h.2.1, h.2.2.1, h.2.2.2⟩, fun h => ⟨h.1, h.2, h.3, h.4⟩⟩

namespace Path

variable {absolute : Bool} {part name : Bytes} {before parts : List Bytes} {base path : Path}

/-- The parts that are not passed over. -/
def keepParts (absolute : Bool) : List Bytes → List Bytes
  | [] => []
  | part :: before =>
    if isIdle absolute part before then keepParts absolute before
    else part :: keepParts absolute before

/-- The parts of the path that are not passed over, the last one first. -/
def components (path : Path) : List Bytes := keepParts path.isAbsolute path.parts

theorem isIdle_nil (absolute : Bool) (before : List Bytes) : isIdle absolute [] before = true := rfl

theorem isIdle_of_isFileName (h : name.IsFileName) (absolute : Bool) (before : List Bytes) :
    isIdle absolute name before = false := by
  simp [isIdle, h.ne_nil, h.ne_dot]

/-- What is left after trimming ends in a part of the path, and that part is not idle. -/
theorem trimParts_eq_cons (h : trimParts absolute parts = part :: before) :
    part ∈ parts ∧ isIdle absolute part before = false := by
  induction parts with
  | nil => cases h
  | cons last parts ih =>
    unfold trimParts at h
    split at h
    · exact ⟨List.mem_cons_of_mem last (ih h).1, (ih h).2⟩
    · next hidle =>
      cases h
      exact ⟨List.mem_cons_self, by simpa using hidle⟩

/-- No part of a path has a slash in it. -/
theorem no_slash_of_mem_parts (h : part ∈ path.parts) : slash ∉ part := by
  unfold parts at h
  have hpiece : part ∈ splitAt slash path.bytes := by
    split at h
    · exact List.mem_of_mem_tail (List.mem_reverse.1 h)
    · exact List.mem_reverse.1 h
  exact not_mem_of_mem_splitAt hpiece

/-- **A file name is a single ordinary part** of a path. -/
theorem isFileName_of_fileName? (h : path.fileName? = some name) : name.IsFileName := by
  unfold fileName? at h
  split at h
  · cases h
  · next part before htrim =>
    obtain ⟨hmem, hidle⟩ := trimParts_eq_cons htrim
    split at h
    · cases h
    · next hdots =>
      cases h
      rw [not_or] at hdots
      refine ⟨?_, no_slash_of_mem_parts hmem, hdots.1, hdots.2⟩
      rintro rfl
      rw [isIdle_nil] at hidle
      cases hidle

theorem isAbsolute_name (h : name.IsFileName) : isAbsolute ⟨name⟩ = false := by
  cases name with
  | nil => rfl
  | cons c rest =>
    have hc : c ≠ slash := fun hc => h.no_slash (hc ▸ List.mem_cons_self)
    simpa [isAbsolute] using hc

/-- A name is joined to the text of a path: alone, after a slash, or with one between. -/
theorem join_cases (base : Path) (h : name.IsFileName) :
    (base.bytes = [] ∧ (base.join ⟨name⟩).bytes = name) ∨
      (∃ text, base.bytes = text ++ [slash] ∧ (base.join ⟨name⟩).bytes = text ++ slash :: name) ∨
      (base.bytes ≠ [] ∧ (base.join ⟨name⟩).bytes = base.bytes ++ slash :: name) := by
  have hrelative := isAbsolute_name h
  unfold join
  rw [if_neg (by simp [hrelative])]
  by_cases hnil : base.bytes = []
  · exact .inl ⟨hnil, by simp [hnil]⟩
  · by_cases hslash : base.bytes.getLast? = some slash
    · obtain ⟨text, hbytes⟩ := List.getLast?_eq_some_iff.1 hslash
      exact .inr (.inl ⟨text, hbytes, by simp [hbytes]⟩)
    · exact .inr (.inr ⟨hnil, by simp [hnil, hslash]⟩)

theorem bytes_join_ne_nil (base : Path) (h : name.IsFileName) : (base.join ⟨name⟩).bytes ≠ [] := by
  rcases join_cases base h with ⟨-, hbytes⟩ | ⟨text, -, hbytes⟩ | ⟨-, hbytes⟩
  · rw [hbytes]
    exact h.ne_nil
  · simp [hbytes]
  · simp [hbytes]

/-- **Joining a name adds one piece**, in the place of an empty last one. -/
theorem pieces_join (base : Path) (h : name.IsFileName) :
    ∃ pieces, splitAt slash (base.join ⟨name⟩).bytes = pieces ++ [name] ∧
      (splitAt slash base.bytes = pieces ∨ splitAt slash base.bytes = pieces ++ [[]]) := by
  have hname := splitAt_of_not_mem h.no_slash
  rcases join_cases base h with ⟨hnil, hbytes⟩ | ⟨text, hbase, hbytes⟩ | ⟨-, hbytes⟩
  · refine ⟨[], ?_, .inr ?_⟩
    · rw [hbytes, hname, List.nil_append]
    · rw [hnil]; rfl
  · refine ⟨splitAt slash text, ?_, .inr ?_⟩
    · rw [hbytes, splitAt_append_cons, hname]
    · rw [hbase, splitAt_append_cons]; rfl
  · refine ⟨splitAt slash base.bytes, ?_, .inl rfl⟩
    rw [hbytes, splitAt_append_cons, hname]

/-- A path is absolute with or without a name below it. -/
theorem isAbsolute_join (base : Path) (h : name.IsFileName) :
    (base.join ⟨name⟩).isAbsolute = base.isAbsolute := by
  rcases join_cases base h with ⟨hnil, hbytes⟩ | ⟨text, hbase, hbytes⟩ | ⟨hnil, hbytes⟩
  · have hname := isAbsolute_name h
    simpa [isAbsolute, hnil, hbytes] using hname
  · cases text with
    | nil => simp [isAbsolute, hbase, hbytes]
    | cons c text => simp [isAbsolute, hbase, hbytes]
  · unfold isAbsolute
    rw [hbytes, List.head?_append, List.head?_eq_some_head hnil]
    rfl

/-- The text of an absolute path starts with an empty piece before the first slash. -/
theorem splitAt_of_isAbsolute (h : path.isAbsolute = true) :
    ∃ pieces, pieces ≠ [] ∧ splitAt slash path.bytes = [] :: pieces := by
  unfold isAbsolute at h
  cases hbytes : path.bytes with
  | nil => simp [hbytes] at h
  | cons c rest =>
    rw [hbytes] at h
    obtain rfl : c = slash := by simpa using h
    refine ⟨splitAt slash rest, splitAt_ne_nil slash rest, ?_⟩
    exact splitAt_append_cons slash [] rest

/-- The first piece of a relative path is not empty, unless the path is. -/
theorem exists_piece (h : path.isAbsolute = false) (hne : path.bytes ≠ []) :
    ∃ piece pieces, splitAt slash path.bytes = piece :: pieces ∧ piece ≠ [] := by
  obtain ⟨c, rest, hbytes⟩ := List.exists_cons_of_ne_nil hne
  have hc : c ≠ slash := by simpa [isAbsolute, hbytes] using h
  obtain ⟨piece, pieces, -, hsplit⟩ := splitAt_cons slash c rest
  rw [if_neg hc, ← hbytes] at hsplit
  exact ⟨c :: piece, pieces, hsplit, List.cons_ne_nil c piece⟩

/-- The parts of a path with a name below it. -/
theorem parts_join (base : Path) (h : name.IsFileName) :
    ∃ before, (base.join ⟨name⟩).parts = name :: before ∧
      (base.parts = before ∨ base.parts = [] :: before) := by
  obtain ⟨pieces, hjoin, hbase⟩ := pieces_join base h
  unfold parts
  rw [isAbsolute_join base h, hjoin]
  cases habsolute : base.isAbsolute with
  | false =>
    refine ⟨pieces.reverse, by simp, ?_⟩
    rcases hbase with hbase | hbase
    · exact .inl (by simp [hbase])
    · exact .inr (by simp [hbase])
  | true =>
    -- the first piece is the one before the slash at the start, and there is another
    obtain ⟨rest, hrest, hsplit⟩ := splitAt_of_isAbsolute habsolute
    have hpieces : pieces ≠ [] := by
      rintro rfl
      rcases hbase with hbase | hbase
      · rw [hbase] at hsplit; cases hsplit
      · rw [hbase] at hsplit
        cases hsplit
        exact hrest rfl
    refine ⟨pieces.tail.reverse, by simp [List.tail_append_of_ne_nil hpieces], ?_⟩
    rcases hbase with hbase | hbase
    · exact .inl (by simp [hbase])
    · exact .inr (by simp [hbase, List.tail_append_of_ne_nil hpieces])

/-- **What a name is joined to holds it directly**: the name is the one component more. -/
theorem components_join (base : Path) (h : name.IsFileName) :
    (base.join ⟨name⟩).components = name :: base.components := by
  obtain ⟨before, hjoin, hbase⟩ := parts_join base h
  have hkeep : keepParts base.isAbsolute base.parts = keepParts base.isAbsolute before := by
    rcases hbase with hbase | hbase
    · rw [hbase]
    · rw [hbase, keepParts, if_pos (isIdle_nil _ _)]
  unfold components
  rw [isAbsolute_join base h, hjoin, keepParts, isIdle_of_isFileName h, hkeep]
  rfl

/-- A name that was joined to a path is its file name. -/
theorem fileName?_join (base : Path) (h : name.IsFileName) :
    (base.join ⟨name⟩).fileName? = some name := by
  obtain ⟨before, hjoin, -⟩ := parts_join base h
  unfold fileName?
  rw [hjoin, trimParts, isIdle_of_isFileName h]
  exact if_neg (not_or.2 ⟨h.ne_dot, h.ne_dots⟩)

end Path

end Stencil
