/-!
# Lists in pieces

A list is taken apart at every occurrence of an element: a text at its line ends, the bytes of a
path at its slashes.

* `splitAt_append_cons`: the pieces before and after a separator are those of the two lists.
* `splitAt_induction`: a list is gone through piece by piece.
-/

namespace Stencil

variable {α : Type} [DecidableEq α] {separator : α} {items : List α}

/-- The pieces between the occurrences of `separator`; they are one more than the occurrences. -/
def splitAt (separator : α) : List α → List (List α)
  | [] => [[]]
  | a :: rest =>
    match splitAt separator rest with
    | [] => [[a]]
    | piece :: pieces =>
      if a = separator then [] :: piece :: pieces else (a :: piece) :: pieces

theorem splitAt_ne_nil (separator : α) (items : List α) : splitAt separator items ≠ [] := by
  cases items with
  | nil => simp [splitAt]
  | cons a rest =>
    unfold splitAt
    split
    · simp
    · split <;> simp

/-- An element is a separator, or it belongs to the first piece of the rest. -/
theorem splitAt_cons (separator a : α) (rest : List α) :
    ∃ piece pieces, splitAt separator rest = piece :: pieces ∧
      splitAt separator (a :: rest) =
        if a = separator then [] :: piece :: pieces else (a :: piece) :: pieces := by
  cases hrest : splitAt separator rest with
  | nil => exact absurd hrest (splitAt_ne_nil separator rest)
  | cons piece pieces =>
    refine ⟨piece, pieces, rfl, ?_⟩
    rw [splitAt, hrest]

/-- No piece has a separator in it. -/
theorem not_mem_of_mem_splitAt {piece : List α} (h : piece ∈ splitAt separator items) :
    separator ∉ piece := by
  induction items generalizing piece with
  | nil =>
    rw [splitAt, List.mem_singleton] at h
    subst h
    exact List.not_mem_nil
  | cons a rest ih =>
    obtain ⟨first, pieces, hrest, hsplit⟩ := splitAt_cons separator a rest
    rw [hsplit] at h
    rw [hrest] at ih
    split at h
    · rcases List.mem_cons.1 h with rfl | h
      · exact List.not_mem_nil
      · exact ih h
    · next ha =>
      rcases List.mem_cons.1 h with rfl | h
      · intro hmem
        rcases List.mem_cons.1 hmem with rfl | hmem
        · exact ha rfl
        · exact ih List.mem_cons_self hmem
      · exact ih (List.mem_cons_of_mem _ h)

/-- A list without separators is one piece. -/
theorem splitAt_of_not_mem (h : separator ∉ items) : splitAt separator items = [items] := by
  induction items with
  | nil => rfl
  | cons a rest ih =>
    rw [List.mem_cons, not_or] at h
    rw [splitAt, ih h.2]
    exact if_neg (Ne.symm h.1)

/-- **The pieces before and after a separator** are those of the two lists. -/
theorem splitAt_append_cons (separator : α) (before after : List α) :
    splitAt separator (before ++ separator :: after) =
      splitAt separator before ++ splitAt separator after := by
  induction before with
  | nil =>
    obtain ⟨piece, pieces, hafter, hsplit⟩ := splitAt_cons separator separator after
    rw [List.nil_append, hsplit, if_pos rfl, hafter]
    rfl
  | cons a before ih =>
    obtain ⟨piece, pieces, hbefore, hsplit⟩ := splitAt_cons separator a before
    rw [List.cons_append, splitAt, ih, hsplit, hbefore, List.cons_append]
    by_cases ha : a = separator
    · simp [ha]
    · simp [ha]

/-- A list piece by piece: it has no separator in it, or it begins with a piece and a separator. -/
theorem splitAt_induction {motive : List α → Prop} (separator : α)
    (last : ∀ piece, separator ∉ piece → motive piece)
    (next : ∀ piece rest, separator ∉ piece → motive rest → motive (piece ++ separator :: rest))
    (items : List α) : motive items := by
  induction hn : items.length using Nat.strongRecOn generalizing items with
  | ind n ih =>
    subst hn
    by_cases hmem : separator ∈ items
    · obtain ⟨piece, rest, rfl, hpiece⟩ := List.eq_append_cons_of_mem hmem
      refine next piece rest hpiece (ih rest.length ?_ rest rfl)
      rw [List.length_append, List.length_cons]
      omega
    · exact last items hmem

end Stencil
