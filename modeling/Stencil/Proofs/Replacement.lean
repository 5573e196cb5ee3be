import Stencil.Text.Replace

/-!
# Where a replacement acts

Replacing a text goes over the whole text from the left. These lemmas say when it acts on two parts
of a text separately, and put beside it the replacement of many texts in one go.

* `replaceAll_induction`: a text from the left, by its occurrences and the characters between them.
* `replaceAll_append`: if no occurrence reaches over the border, the two parts are replaced apart.
* `replaceAll_of_spares`: a piece that no occurrence touches stays, and the parts around it are
  replaced apart.
* `replaceInTurn_of_spares`: the same for the entries of a table, replaced one after the other.
* `replaceEach_append`, `replaceEach_of_entryAt?`: how a text is replaced in one go.
-/

namespace Stencil.Text

variable {old new before piece after rest : Text}

theorem replaceAll_of_isPrefix (h : old ≠ []) :
    replaceAll old new (old ++ rest) = new ++ replaceAll old new rest := by
  obtain ⟨c, cs, rfl⟩ := List.exists_cons_of_ne_nil h
  have hp : (c :: cs).isPrefixOf (c :: (cs ++ rest)) = true := by
    rw [List.isPrefixOf_iff_prefix]; exact ⟨rest, rfl⟩
  rw [List.cons_append, replaceAll, if_pos hp]
  simp

theorem replaceAll_of_not_isPrefix {c : Char} (h : ¬ old <+: c :: rest) :
    replaceAll old new (c :: rest) = c :: replaceAll old new rest := by
  rw [replaceAll, if_neg (by rwa [List.isPrefixOf_iff_prefix])]

/-- The text itself becomes what is put in for it. -/
theorem replaceAll_self (h : old ≠ []) : replaceAll old new old = new := by
  have hself : replaceAll old new (old ++ []) = new ++ replaceAll old new [] :=
    replaceAll_of_isPrefix h
  rwa [List.append_nil, replaceAll_nil, List.append_nil] at hself

/-- A text from the left, as a replacement goes over it: an occurrence at its start is taken whole,
any other first character is passed. -/
theorem replaceAll_induction {motive : Text → Prop} (hold : old ≠ []) (nil : motive [])
    (found : ∀ rest, motive rest → motive (old ++ rest))
    (passed : ∀ c rest, ¬ old <+: c :: rest → motive rest → motive (c :: rest)) (text : Text) :
    motive text := by
  induction hn : text.length using Nat.strongRecOn generalizing text with
  | ind n ih =>
    subst hn
    cases text with
    | nil => exact nil
    | cons c rest =>
      by_cases hp : old <+: c :: rest
      · obtain ⟨tail, htail⟩ := hp
        have hlen := congrArg List.length htail
        have hpos := List.length_pos_iff.2 hold
        rw [← htail]
        refine found tail (ih tail.length ?_ tail rfl)
        rw [List.length_append] at hlen; omega
      · exact passed c rest hp (ih rest.length (by simp) rest rfl)

/-- **Two parts are replaced apart**, if every occurrence lies in one of them. -/
theorem replaceAll_append (hold : old ≠ [])
    (h : ∀ x y, before ++ after = x ++ old ++ y → x ++ old <+: before ∨ before <+: x) :
    replaceAll old new (before ++ after) =
      replaceAll old new before ++ replaceAll old new after := by
  induction hn : before.length using Nat.strongRecOn generalizing before with
  | ind n ih =>
    subst hn
    cases before with
    | nil => simp
    | cons c cs =>
      by_cases hp : old <+: c :: cs
      · -- an occurrence at the start: go on after it
        obtain ⟨tail, htail⟩ := hp
        have hlen : 0 < old.length := List.length_pos_iff.2 hold
        rw [← htail, List.append_assoc, replaceAll_of_isPrefix hold, replaceAll_of_isPrefix hold,
          List.append_assoc, ih tail.length ?_ ?_ rfl]
        · rw [← htail, List.length_append]; omega
        · intro x y hxy
          have := h (old ++ x) y (by rw [← htail]; simp [hxy])
          rw [← htail, List.append_assoc] at this
          simpa using this
      · have hp' : ¬ old <+: c :: (cs ++ after) := by
          rintro ⟨y, hy⟩
          rcases h [] y (by simpa using hy.symm) with h1 | h1
          · exact hp (by simpa using h1)
          · simp at h1
        rw [List.cons_append, replaceAll_of_not_isPrefix hp', replaceAll_of_not_isPrefix hp,
          ih cs.length (by simp) ?_ rfl, List.cons_append]
        intro x y hxy
        simpa using h (c :: x) y (by simp [hxy])

/-- No occurrence of `old` touches `piece` where it stands after `before`, whatever follows. -/
def Spares (old before piece : Text) : Prop :=
  ∀ x y after, before ++ piece ++ after = x ++ old ++ y →
    x ++ old <+: before ∨ before ++ piece <+: x

/-- **A piece that no occurrence touches stays**, and the parts around it are replaced apart. -/
theorem replaceAll_of_spares (hold : old ≠ []) (h : Spares old before piece) :
    replaceAll old new (before ++ piece ++ after) =
      replaceAll old new before ++ piece ++ replaceAll old new after := by
  have hlen : 0 < old.length := List.length_pos_iff.2 hold
  -- an occurrence in the two first parts lies in the first
  have hin : ∀ x y, before ++ piece = x ++ old ++ y → x ++ old <+: before := by
    intro x y hxy
    rcases h x y [] (by simpa using hxy) with h1 | h1
    · exact h1
    · have := h1.length_le
      have := congrArg List.length hxy
      simp only [List.length_append] at *
      omega
  have hpiece : ¬ old <:+: piece := by
    rintro ⟨x, y, hxy⟩
    have := (hin (before ++ x) y (by simp [← hxy])).length_le
    simp only [List.length_append] at this
    omega
  have hbefore : replaceAll old new (before ++ piece) = replaceAll old new before ++ piece := by
    rw [replaceAll_append hold fun x y hxy => .inl (hin x y hxy), replaceAll_of_not_isInfix hpiece]
  rw [replaceAll_append hold, hbefore]
  intro x y hxy
  exact (h x y after hxy).imp (fun h1 => h1.trans (List.prefix_append _ _)) id

/-- Beside a piece that no occurrence touches, what occurs does so before or after it. -/
theorem infix_iff_of_spares (h : Spares old before piece) :
    old <:+: before ++ piece ++ after ↔ old <:+: before ∨ old <:+: after := by
  constructor
  · rintro ⟨x, y, hxy⟩
    rcases h x y after hxy.symm with hin | ⟨u, rfl⟩
    · exact .inl ((List.suffix_append x old).isInfix.trans hin.isInfix)
    · exact .inr ⟨u, y, by simpa using hxy⟩
  · rintro (hin | hin)
    · exact hin.trans ⟨[], piece ++ after, by simp⟩
    · exact hin.trans (List.suffix_append _ _).isInfix

/-- The first occurrence is replaced, if none reaches over its start. -/
theorem replaceAll_first (hold : old ≠ []) (hbefore : ¬ old <:+: before)
    (h : ∀ x y, before ++ (old ++ after) = x ++ old ++ y → x ++ old <+: before ∨ before <+: x) :
    replaceAll old new (before ++ old ++ after) = before ++ new ++ replaceAll old new after := by
  rw [List.append_assoc, replaceAll_append hold h, replaceAll_of_not_isInfix hbefore,
    replaceAll_of_isPrefix hold, List.append_assoc]

/-- The text with the entries of the table replaced one after the other. -/
def replaceInTurn (table : List (Text × Text)) (text : Text) : Text :=
  table.foldl (fun text (old, new) => replaceAll old new text) text

theorem replaceInTurn_cons (entry : Text × Text) (table : List (Text × Text)) (text : Text) :
    replaceInTurn (entry :: table) text =
      replaceInTurn table (replaceAll entry.1 entry.2 text) := rfl

theorem replaceInTurn_append (first second : List (Text × Text)) (text : Text) :
    replaceInTurn (first ++ second) text = replaceInTurn second (replaceInTurn first text) :=
  List.foldl_append

/-- **A piece that no entry touches stays.** What stands before it may change on the way; `P` says
what is known of it. -/
theorem replaceInTurn_of_spares {table : List (Text × Text)} (P : Text → Prop)
    (h : ∀ entry ∈ table, ∀ before, P before →
      entry.1 ≠ [] ∧ Spares entry.1 before piece ∧ P (replaceAll entry.1 entry.2 before))
    (hP : P before) :
    replaceInTurn table (before ++ piece ++ after) =
      replaceInTurn table before ++ piece ++ replaceInTurn table after := by
  induction table generalizing before after with
  | nil => rfl
  | cons entry table ih =>
    obtain ⟨hold, hspares, hnext⟩ := h entry List.mem_cons_self before hP
    rw [replaceInTurn_cons, replaceInTurn_cons, replaceInTurn_cons,
      replaceAll_of_spares hold hspares]
    exact ih (fun entry he => h entry (List.mem_cons_of_mem _ he)) hnext

theorem replaceInTurn_of_not_infix {table : List (Text × Text)} {text : Text}
    (h : ∀ entry ∈ table, ¬ entry.1 <:+: text) : replaceInTurn table text = text := by
  induction table with
  | nil => rfl
  | cons entry table ih =>
    rw [replaceInTurn_cons, replaceAll_of_not_isInfix (h entry List.mem_cons_self)]
    exact ih fun entry he => h entry (List.mem_cons_of_mem _ he)

/-- A piece that no entry touches stays, with a text before it that has no entry. -/
theorem replaceInTurn_append_of_spares {table : List (Text × Text)}
    (h : ∀ entry ∈ table, entry.1 ≠ [] ∧ Spares entry.1 before piece ∧ ¬ entry.1 <:+: before) :
    replaceInTurn table (before ++ piece ++ after) =
      before ++ piece ++ replaceInTurn table after := by
  have hbefore := replaceInTurn_of_not_infix fun entry he => (h entry he).2.2
  rw [replaceInTurn_of_spares (· = before) ?_ rfl, hbefore]
  rintro entry he _ rfl
  obtain ⟨hold, hspares, hnot⟩ := h entry he
  exact ⟨hold, hspares, replaceAll_of_not_isInfix hnot⟩

/-- The first entry of the table whose old text the text starts with. -/
def entryAt? (table : List (Text × Text)) (text : Text) : Option (Text × Text) :=
  table.find? fun entry => entry.1.isPrefixOf text

/-- The text with the entries of the table replaced in one go: it is scanned once from the left,
what an entry stands for is put in its place and not scanned again, and all else is copied. -/
def replaceEach (table : List (Text × Text)) : Text → Text
  | [] => []
  | c :: rest =>
    match entryAt? table (c :: rest) with
    | some (old, new) => new ++ replaceEach table (rest.drop (old.length - 1))
    | none => c :: replaceEach table rest
  termination_by text => text.length
  decreasing_by all_goals simp; try omega

variable {table : List (Text × Text)}

theorem entryAt?_eq_none_iff {text : Text} :
    entryAt? table text = none ↔ ∀ entry ∈ table, ¬ entry.1 <+: text := by
  simp [entryAt?, List.find?_eq_none, List.isPrefixOf_iff_prefix]

@[simp] theorem replaceEach_nil : replaceEach table [] = [] := by rw [replaceEach]

theorem replaceEach_of_entryAt? (hold : old ≠ [])
    (h : entryAt? table (old ++ rest) = some (old, new)) :
    replaceEach table (old ++ rest) = new ++ replaceEach table rest := by
  obtain ⟨c, cs, rfl⟩ := List.exists_cons_of_ne_nil hold
  rw [List.cons_append] at h ⊢
  rw [replaceEach, h]
  simp

/-- What stands before the first place of an entry is copied. -/
theorem replaceEach_append
    (h : ∀ s, s ≠ [] → s <:+ before → entryAt? table (s ++ after) = none) :
    replaceEach table (before ++ after) = before ++ replaceEach table after := by
  induction before with
  | nil => rfl
  | cons c cs ih =>
    have hc := h (c :: cs) (by simp) List.suffix_rfl
    rw [List.cons_append] at hc ⊢
    rw [replaceEach, hc, List.cons_append]
    exact congrArg (c :: ·) (ih fun s hs hsuf => h s hs (hsuf.trans (List.suffix_cons c cs)))

theorem entryAt?_eq_some {text : Text} (h : entryAt? table text = some (old, new)) :
    ∃ after, text = old ++ after := by
  unfold entryAt? at h
  have hp := List.find?_some h
  obtain ⟨after, hafter⟩ := List.isPrefixOf_iff_prefix.1 hp
  exact ⟨after, hafter.symm⟩

/-- **The first place of an entry**: a text that has an entry somewhere has a first one. -/
theorem exists_first_entry (table : List (Text × Text)) (text : Text) :
    (∀ entry ∈ table, ¬ entry.1 <:+: text) ∨
      ∃ before old new after, text = before ++ old ++ after ∧
        entryAt? table (old ++ after) = some (old, new) ∧
        ∀ s, s ≠ [] → s <:+ before → entryAt? table (s ++ (old ++ after)) = none := by
  induction text with
  | nil =>
    cases hat : entryAt? table [] with
    | none =>
      refine .inl fun entry he hin => entryAt?_eq_none_iff.1 hat entry he ?_
      exact List.prefix_nil.2 (List.infix_nil.1 hin)
    | some entry =>
      obtain ⟨after, hafter⟩ := entryAt?_eq_some hat
      exact .inr ⟨[], entry.1, entry.2, after, hafter, hafter ▸ hat, by simp +contextual⟩
  | cons c rest ih =>
    cases hat : entryAt? table (c :: rest) with
    | some entry =>
      obtain ⟨after, hafter⟩ := entryAt?_eq_some hat
      exact .inr ⟨[], entry.1, entry.2, after, hafter, hafter ▸ hat, by simp +contextual⟩
    | none =>
      rcases ih with ih | ⟨before, old, new, after, rfl, hentry, hfirst⟩
      · refine .inl fun entry he hin => ?_
        rcases List.infix_cons_iff.1 hin with hp | hin
        · exact entryAt?_eq_none_iff.1 hat entry he hp
        · exact ih entry he hin
      · refine .inr ⟨c :: before, old, new, after, by simp, hentry, fun s hs hsuf => ?_⟩
        rcases List.suffix_cons_iff.1 hsuf with rfl | hsuf
        · simpa using hat
        · exact hfirst s hs hsuf

end Stencil.Text
