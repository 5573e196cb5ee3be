/-!
# Lists with keys

A list of pairs, of which the first part is the key. A key that is put again keeps its place and
gets the new value.

* `lookup_cons_pair`: a key is looked up from the first pair on.
* `lookup_putKey_self`, `lookup_putKey_of_ne`: what putting does to the values.
* `keys_putKey`, `putKey_of_not_mem`: what it does to the keys, and to a list without the key.
* `putKey_of_lookup`: what is there can be put again.
* `putKey_append_cons`: a key that is there keeps its place.
* `mem_of_mem_putKey`: a pair is the one that was put, or one from before.
* `lookup_eq_some_of_mem`: without a key twice, every pair is found.
* `perm_of_map_perm`, `eq_of_map_eq`: lists with the same keys have the same elements.
-/

namespace Stencil

variable {α β : Type} [BEq α]

/-- The list with the value at the key, in the place of the key or at the end. -/
def putKey (key : α) (value : β) : List (α × β) → List (α × β)
  | [] => [(key, value)]
  | (k, v) :: rest => if k == key then (k, value) :: rest else (k, v) :: putKey key value rest

variable [LawfulBEq α]

/-- A key is looked up from the first pair on. -/
theorem lookup_cons_pair [DecidableEq α] (entry : α × β) (key : α) (entries : List (α × β)) :
    (entry :: entries).lookup key = if key = entry.1 then some entry.2 else entries.lookup key := by
  by_cases h : key = entry.1
  · rw [List.lookup_cons, h, beq_self_eq_true, if_pos rfl]
  · rw [List.lookup_cons, beq_false_of_ne h, if_neg h]

theorem lookup_putKey_self (key : α) (value : β) (entries : List (α × β)) :
    (putKey key value entries).lookup key = some value := by
  induction entries with
  | nil => simp [putKey]
  | cons entry rest ih =>
    obtain ⟨k, v⟩ := entry
    by_cases h : k = key
    · simp [putKey, h]
    · rw [putKey, if_neg (by simpa using h), List.lookup_cons, beq_false_of_ne (Ne.symm h)]
      exact ih

theorem lookup_putKey_of_ne {key other : α} (value : β) (entries : List (α × β))
    (h : other ≠ key) : (putKey key value entries).lookup other = entries.lookup other := by
  induction entries with
  | nil => simp [putKey, List.lookup_cons, beq_false_of_ne h]
  | cons entry rest ih =>
    obtain ⟨k, v⟩ := entry
    by_cases hk : k = key
    · subst hk
      simp [putKey, List.lookup_cons, beq_false_of_ne h]
    · rw [putKey, if_neg (by simpa using hk), List.lookup_cons, List.lookup_cons, ih]

/-- A key is added at the end, unless the list has it. -/
theorem keys_putKey [DecidableEq α] (key : α) (value : β) (entries : List (α × β)) :
    (putKey key value entries).map Prod.fst =
      if key ∈ entries.map Prod.fst then entries.map Prod.fst
      else entries.map Prod.fst ++ [key] := by
  induction entries with
  | nil => simp [putKey]
  | cons entry rest ih =>
    obtain ⟨k, v⟩ := entry
    by_cases h : k = key
    · simp [putKey, h]
    · rw [putKey, if_neg (by simpa using h), List.map_cons, ih]
      simp only [List.map_cons, List.mem_cons, Ne.symm h, false_or]
      split <;> simp

/-- A key that the list does not have is put at the end. -/
theorem putKey_of_not_mem {key : α} (value : β) {entries : List (α × β)}
    (h : key ∉ entries.map Prod.fst) : putKey key value entries = entries ++ [(key, value)] := by
  induction entries with
  | nil => rfl
  | cons entry rest ih =>
    obtain ⟨k, v⟩ := entry
    rw [List.map_cons, List.mem_cons, not_or] at h
    rw [putKey, if_neg (by simpa using Ne.symm h.1), ih h.2, List.cons_append]

/-- A pair that is found is put in its own place. -/
theorem putKey_of_lookup {key : α} {value : β} {entries : List (α × β)}
    (h : entries.lookup key = some value) : putKey key value entries = entries := by
  induction entries with
  | nil => cases h
  | cons entry rest ih =>
    obtain ⟨k, v⟩ := entry
    by_cases hk : k = key
    · subst hk
      rw [List.lookup_cons, beq_self_eq_true] at h
      simp only [Option.some.injEq] at h
      rw [putKey, if_pos (beq_self_eq_true k), h]
    · rw [List.lookup_cons, beq_false_of_ne (Ne.symm hk)] at h
      rw [putKey, if_neg (by simpa using hk), ih h]

/-- A key that is there gets the value in its own place. -/
theorem putKey_append_cons {key : α} {first : List (α × β)} (h : key ∉ first.map Prod.fst)
    (old value : β) (rest : List (α × β)) :
    putKey key value (first ++ (key, old) :: rest) = first ++ (key, value) :: rest := by
  induction first with
  | nil => exact if_pos (beq_self_eq_true key)
  | cons entry first ih =>
    obtain ⟨k, v⟩ := entry
    rw [List.map_cons, List.mem_cons, not_or] at h
    rw [List.cons_append, putKey, if_neg (by simpa using Ne.symm h.1), ih h.2, List.cons_append]

/-- A pair is the one that was put, or it was there before. -/
theorem mem_of_mem_putKey {key : α} {value : β} {entry : α × β} {entries : List (α × β)}
    (h : entry ∈ putKey key value entries) : entry = (key, value) ∨ entry ∈ entries := by
  induction entries with
  | nil => exact .inl (List.mem_singleton.1 h)
  | cons first rest ih =>
    obtain ⟨k, v⟩ := first
    unfold putKey at h
    split at h
    · next hk =>
      rcases List.mem_cons.1 h with hput | hrest
      · exact .inl (by rw [hput, beq_iff_eq.1 hk])
      · exact .inr (List.mem_cons_of_mem _ hrest)
    · rcases List.mem_cons.1 h with hfirst | hrest
      · exact .inr (hfirst ▸ List.mem_cons_self)
      · rcases ih hrest with hput | hold
        · exact .inl hput
        · exact .inr (List.mem_cons_of_mem _ hold)

/-- In a list without a key twice, every pair is found by its key. -/
theorem lookup_eq_some_of_mem {key : α} {value : β} {entries : List (α × β)}
    (hnodup : (entries.map Prod.fst).Nodup) (h : (key, value) ∈ entries) :
    entries.lookup key = some value := by
  induction entries with
  | nil => cases h
  | cons entry rest ih =>
    obtain ⟨k, v⟩ := entry
    rw [List.map_cons, List.nodup_cons] at hnodup
    rcases List.mem_cons.1 h with heq | hrest
    · cases heq
      simp
    · have hne : key ≠ k := by
        rintro rfl
        exact hnodup.1 (List.mem_map.2 ⟨_, hrest, rfl⟩)
      rw [List.lookup_cons, beq_false_of_ne hne]
      exact ih hnodup.2 hrest

/-- Lists with the same keys have the same elements, if the key tells them apart. -/
theorem perm_of_map_perm {α β : Type} (key : α → β) {items others : List α}
    (h : (items.map key).Perm (others.map key))
    (hkey : ∀ a ∈ items, ∀ b ∈ others, key a = key b → a = b) : items.Perm others := by
  induction items generalizing others with
  | nil =>
    rw [List.map_nil, List.nil_perm, List.map_eq_nil_iff] at h
    rw [h]
  | cons a items ih =>
    obtain ⟨b, hb, hsame⟩ := List.mem_map.1 (h.subset (List.mem_map_of_mem List.mem_cons_self))
    obtain rfl : a = b := hkey a List.mem_cons_self b hb hsame.symm
    obtain ⟨before, after, rfl⟩ := List.append_of_mem hb
    have hkeys : ((a :: items).map key).Perm ((a :: (before ++ after)).map key) :=
      h.trans (List.perm_middle.map key)
    have hrest : items.Perm (before ++ after) := by
      refine ih (List.Perm.cons_inv hkeys) fun c hc d hd => ?_
      exact hkey c (List.mem_cons_of_mem a hc) d
        (List.perm_middle.mem_iff.2 (List.mem_cons_of_mem a hd))
    exact (hrest.cons a).trans List.perm_middle.symm

/-- Lists with the same keys in the same order are the same, if the key tells their elements
apart. -/
theorem eq_of_map_eq {α β : Type} (key : α → β) {items others : List α}
    (h : items.map key = others.map key)
    (hkey : ∀ a ∈ items, ∀ b ∈ others, key a = key b → a = b) : items = others := by
  induction items generalizing others with
  | nil => exact (List.map_eq_nil_iff.1 h.symm).symm
  | cons a items ih =>
    cases others with
    | nil => cases h
    | cons b others =>
      rw [List.map_cons, List.map_cons, List.cons.injEq] at h
      rw [hkey a List.mem_cons_self b List.mem_cons_self h.1]
      congr 1
      exact ih h.2 fun c hc d hd => hkey c (List.mem_cons_of_mem a hc) d (List.mem_cons_of_mem b hd)

end Stencil
