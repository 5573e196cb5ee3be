import Stencil.Text.Basic

/-!
# Sorted lists

Lists in strictly increasing order, built by inserting. Texts are ordered character by character,
which is the order of their UTF-8 bytes.

* `mem_insertBy_self`: an inserted element is in the list.
* `mem_insertBy_iff`, `mem_insertText_iff`: nothing else gets lost.
* `insertBy_perm`: an element of a new rank is added to the others.
* `pairwise_insertBy`, `pairwise_insertBy_text`: inserting keeps the order.
-/

namespace Stencil

/-- The list with `x` at its place in the order `lt`, instead of an element of the same rank. -/
def insertBy {α : Type} (lt : α → α → Bool) (x : α) : List α → List α
  | [] => [x]
  | y :: ys =>
    if lt x y then x :: y :: ys
    else if lt y x then y :: insertBy lt x ys
    else x :: ys

/-- The order of texts. -/
def Text.before (a b : Text) : Bool := decide (a < b)

/-- The set of texts with one more text. -/
def insertText (x : Text) (xs : List Text) : List Text := insertBy Text.before x xs

variable {α : Type} {lt : α → α → Bool}

theorem mem_insertBy_self (x : α) (xs : List α) : x ∈ insertBy lt x xs := by
  induction xs with
  | nil => simp [insertBy]
  | cons y ys ih =>
    unfold insertBy
    split
    · simp
    · split <;> simp [ih]

theorem mem_of_mem_insertBy {x z : α} {xs : List α} (h : z ∈ insertBy lt x xs) :
    z = x ∨ z ∈ xs := by
  induction xs with
  | nil => simpa [insertBy] using h
  | cons y ys ih =>
    unfold insertBy at h
    split at h
    · simpa using h
    · split at h
      · rcases List.mem_cons.1 h with h | h
        · exact .inr (by simp [h])
        · exact (ih h).imp id (by simp_all)
      · rcases List.mem_cons.1 h with h | h
        · exact .inl h
        · exact .inr (by simp [h])

/-- Nothing gets lost by inserting, if only equal elements are of one rank. -/
theorem mem_insertBy_iff {x z : α} {xs : List α}
    (h : ∀ y ∈ xs, lt x y = false → lt y x = false → x = y) :
    z ∈ insertBy lt x xs ↔ z = x ∨ z ∈ xs := by
  refine ⟨mem_of_mem_insertBy, ?_⟩
  rintro (rfl | hz)
  · exact mem_insertBy_self z xs
  · induction xs with
    | nil => simp at hz
    | cons y ys ih =>
      unfold insertBy
      split
      · exact List.mem_cons_of_mem _ hz
      · next hxy =>
        split
        · rcases List.mem_cons.1 hz with rfl | hz
          · simp
          · exact List.mem_cons_of_mem _ (ih (fun y hy => h y (List.mem_cons_of_mem _ hy)) hz)
        · next hyx =>
          have he : x = y := h y (by simp) (by simpa using hxy) (by simpa using hyx)
          exact he ▸ hz

/-- An element of a new rank is added, and nothing else changes but the places. -/
theorem insertBy_perm {x : α} {xs : List α}
    (h : ∀ y ∈ xs, lt x y = true ∨ lt y x = true) : (insertBy lt x xs).Perm (x :: xs) := by
  induction xs with
  | nil => exact .refl _
  | cons y ys ih =>
    unfold insertBy
    split
    · exact .refl _
    · next hxy =>
      have hyx : lt y x = true := (h y List.mem_cons_self).resolve_left hxy
      rw [if_pos hyx]
      exact ((ih fun z hz => h z (List.mem_cons_of_mem y hz)).cons y).trans (.swap x y ys)

/-- **Inserting keeps the order**, if elements of one rank compare alike. -/
theorem pairwise_insertBy {x : α} {xs : List α}
    (trans : ∀ a b c, lt a b = true → lt b c = true → lt a c = true)
    (alike : ∀ a b c, lt a b = false → lt b a = false → lt b c = true → lt a c = true)
    (h : xs.Pairwise (lt · · = true)) : (insertBy lt x xs).Pairwise (lt · · = true) := by
  induction xs with
  | nil => simp [insertBy]
  | cons y ys ih =>
    rw [List.pairwise_cons] at h
    unfold insertBy
    split
    · next hxy =>
      refine List.pairwise_cons.2 ⟨fun z hz => ?_, List.pairwise_cons.2 h⟩
      rcases List.mem_cons.1 hz with rfl | hz
      · exact hxy
      · exact trans _ _ _ hxy (h.1 z hz)
    · next hxy =>
      split
      · next hyx =>
        refine List.pairwise_cons.2 ⟨fun z hz => ?_, ih h.2⟩
        rcases mem_of_mem_insertBy hz with rfl | hz
        · exact hyx
        · exact h.1 z hz
      · next hyx =>
        exact List.pairwise_cons.2
          ⟨fun z hz => alike _ _ _ (by simpa using hxy) (by simpa using hyx) (h.1 z hz), h.2⟩

theorem Text.eq_of_not_before {a b : Text} (h : Text.before a b = false)
    (h' : Text.before b a = false) : a = b := by
  simp only [Text.before, decide_eq_false_iff_not, List.not_lt] at h h'
  exact List.le_antisymm h' h

/-- Inserting by a text keeps the order of the texts. -/
theorem pairwise_insertBy_text (key : α → Text) {x : α} {xs : List α}
    (h : xs.Pairwise fun a b => Text.before (key a) (key b) = true) :
    (insertBy (fun a b => Text.before (key a) (key b)) x xs).Pairwise
      fun a b => Text.before (key a) (key b) = true := by
  refine pairwise_insertBy ?_ ?_ h
  · intro a b c hab hbc
    simp only [Text.before, decide_eq_true_eq] at *
    exact List.lt_trans hab hbc
  · intro a b c hab hba hbc
    rwa [Text.eq_of_not_before hab hba]

theorem mem_insertText_iff {x z : Text} {xs : List Text} :
    z ∈ insertText x xs ↔ z = x ∨ z ∈ xs :=
  mem_insertBy_iff fun _ _ => Text.eq_of_not_before

end Stencil
