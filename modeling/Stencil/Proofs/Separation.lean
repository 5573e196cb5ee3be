import Mathlib.Data.List.Infix
import Stencil.Placeholder.Delimiters
import Stencil.Placeholder.Name

/-!
# Delimiters that keep placeholders apart

A placeholder is a run of word characters between two texts without any. So two placeholders can
only overlap in their delimiters, and well separated delimiters rule that out.

* `Pair.wrap_overlap`: where a second placeholder starts inside a first one, their delimiters
  overlap.
* `Delimiters.wrap_apart`: **two placeholders in one text are the same or do not touch**, whatever
  else the text holds.
* `Delimiters.standard_wellSeparated`: the braces and bars are well separated.
-/

namespace Stencil

namespace Text

variable {P : Char → Prop} {a b x y : Text}

/-- The text has a first character, and it is in the class. -/
def StartsIn (P : Char → Prop) (text : Text) : Prop := ∃ c ∈ text.head?, P c

/-- The text is a run of characters of the class, and not empty. -/
def IsRun (P : Char → Prop) (text : Text) : Prop := text ≠ [] ∧ ∀ c ∈ text, P c

/-- What is said of every character of a text is decided by the text, not by all characters. -/
instance (priority := high) decidableForallMem {P : Char → Prop} [DecidablePred P] (text : Text) :
    Decidable (∀ c ∈ text, P c) :=
  List.decidableBAll P text

instance {P : Char → Prop} [DecidablePred P] (text : Text) : Decidable (IsRun P text) :=
  inferInstanceAs (Decidable (text ≠ [] ∧ ∀ c ∈ text, P c))

theorem IsRun.startsIn (h : IsRun P a) (x : Text) : StartsIn P (a ++ x) := by
  obtain ⟨c, cs, rfl⟩ := List.exists_cons_of_ne_nil h.1
  exact ⟨c, by simp, h.2 c (by simp)⟩

/-- Characters of a class are skipped up to the first one outside it. -/
theorem exists_of_append_eq (h : a ++ x = b ++ y) (ha : ∀ c ∈ a, P c)
    (hy : StartsIn (¬ P ·) y) : ∃ r, b = a ++ r ∧ x = r ++ y := by
  rcases List.append_eq_append_iff.1 h with ⟨r, hb, hx⟩ | ⟨r, rfl, rfl⟩
  · exact ⟨r, hb, hx⟩
  · cases r with
    | nil => exact ⟨[], by simp, by simp⟩
    | cons c r =>
      obtain ⟨d, hd, hP⟩ := hy
      obtain rfl : c = d := by simpa using hd
      exact absurd (ha c (by simp)) hP

/-- A text is cut in one way where a class of characters ends. -/
theorem append_inj_of_class (h : a ++ x = b ++ y) (ha : ∀ c ∈ a, P c) (hb : ∀ c ∈ b, P c)
    (hx : StartsIn (¬ P ·) x) (hy : StartsIn (¬ P ·) y) : a = b ∧ x = y := by
  obtain ⟨r, rfl, rfl⟩ := exists_of_append_eq h ha hy
  cases r with
  | nil => simp
  | cons c r =>
    obtain ⟨d, hd, hP⟩ := hx
    obtain rfl : c = d := by simpa using hd
    exact absurd (hb c (by simp)) hP

end Text

instance Form.decidableForall {p : Form → Prop} [DecidablePred p] : Decidable (∀ form, p form) :=
  decidable_of_iff (p .plain ∧ p .encoded)
    ⟨fun ⟨h₁, h₂⟩ form => by cases form <;> assumption, fun h => ⟨h .plain, h .encoded⟩⟩

instance Form.decidableExists {p : Form → Prop} [DecidablePred p] : Decidable (∃ form, p form) :=
  decidable_of_iff (p .plain ∨ p .encoded)
    ⟨fun h => h.elim (⟨_, ·⟩) (⟨_, ·⟩), fun ⟨form, h⟩ => by cases form <;> simp [h]⟩

theorem isName_iff_isRun {text : Text} :
    isName text = true ↔ Text.IsRun (isNameChar · = true) text := isName_iff

namespace Pair

open Text

/-- The texts of the pair are not empty and have no character of the class. -/
structure Without (P : Char → Prop) (pair : Pair) : Prop where
  opening : IsRun (¬ P ·) pair.opening
  closing : IsRun (¬ P ·) pair.closing

variable {P : Char → Prop} {p q : Pair} {m n s y z : Text}

theorem wrap_append (pair : Pair) (name rest : Text) :
    pair.wrap name ++ rest = pair.opening ++ (name ++ (pair.closing ++ rest)) := by
  simp [wrap]

theorem startsIn_name (hn : IsRun P n) (rest : Text) : StartsIn (¬ ¬ P ·) (n ++ rest) :=
  IsRun.startsIn ⟨hn.1, fun c hc => not_not_intro (hn.2 c hc)⟩ rest

/-- **Placeholders at one place are the same.** -/
theorem wrap_inj (hp : p.Without P) (hq : q.Without P) (hm : IsRun P m) (hn : IsRun P n)
    (h : q.wrap m ++ y = p.wrap n ++ z) : q.opening = p.opening ∧ m = n := by
  rw [wrap_append, wrap_append] at h
  obtain ⟨ho, h⟩ := append_inj_of_class h hq.opening.2 hp.opening.2 (startsIn_name hm _)
    (startsIn_name hn _)
  obtain ⟨hname, -⟩ := append_inj_of_class h hm.2 hn.2 (hq.closing.startsIn y)
    (hp.closing.startsIn z)
  exact ⟨ho, hname⟩

/-- **Placeholders overlap only in their delimiters.** If one of `q` starts inside one of `p`, then
the opening of `q` ends that of `p`, or begins with an end of the closing of `p`. -/
theorem wrap_overlap (hp : p.Without P) (hq : q.Without P) (hm : IsRun P m) (hn : IsRun P n)
    (h : s ++ (q.wrap m ++ y) = p.wrap n ++ z) (hs : s.length < (p.wrap n).length) :
    s ++ q.opening = p.opening ∨ ∃ e, e ≠ [] ∧ e <:+ p.closing ∧ e <+: q.opening := by
  rw [wrap_append, wrap_append] at h
  rcases List.append_eq_append_iff.1 h with ⟨r, ho, h'⟩ | ⟨s', rfl, h'⟩
  · -- it starts in the opening, which it has to end
    have hr : ∀ c ∈ r, ¬ P c := fun c hc => hp.opening.2 c (by simp [ho, hc])
    obtain ⟨rfl, -⟩ := append_inj_of_class h' hq.opening.2 hr (startsIn_name hm _)
      (startsIn_name hn _)
    exact .inl ho.symm
  · -- it cannot start in the name, so it starts in the closing
    obtain ⟨t, rfl, ht⟩ := exists_of_append_eq h' hn.2 (hq.opening.startsIn _)
    simp only [wrap, List.length_append] at hs
    refine .inr ?_
    rcases List.append_eq_append_iff.1 ht with ⟨e, rfl, -⟩ | ⟨e, hclosing, he⟩
    · simp only [List.length_append] at hs; omega
    · have hnil : e ≠ [] := by
        rintro rfl
        simp only [hclosing, List.append_nil] at hs; omega
      have hmarks : ∀ c ∈ e, ¬ P c := fun c hc => hp.closing.2 c (by simp [hclosing, hc])
      obtain ⟨r, hr, -⟩ := exists_of_append_eq he.symm hmarks (startsIn_name hm _)
      exact ⟨e, hnil, ⟨t, hclosing.symm⟩, ⟨r, hr.symm⟩⟩

end Pair

namespace Delimiters

open Text

variable (d : Delimiters)

/-- The characters of the delimiters. -/
def marks : Text :=
  d.plain.opening ++ d.plain.closing ++ (d.encoded.opening ++ d.encoded.closing)

theorem mem_marks_iff {c : Char} :
    c ∈ d.marks ↔ ∃ form, c ∈ (d.pair form).opening ∨ c ∈ (d.pair form).closing := by
  constructor
  · intro h
    rcases List.mem_append.1 h with h | h
    · exact ⟨.plain, List.mem_append.1 h⟩
    · exact ⟨.encoded, List.mem_append.1 h⟩
  · rintro ⟨form, h⟩
    cases form
    · exact List.mem_append_left _ (List.mem_append.2 h)
    · exact List.mem_append_right _ (List.mem_append.2 h)

/-- **Well separated delimiters.** They have no characters of names, no opening ends the other one,
and what a closing ends with is not what an opening begins with. -/
structure WellSeparated : Prop where
  nameless : ∀ c ∈ d.marks, isNameChar c = false
  openings : ∀ form other, form ≠ other → ¬ (d.pair form).opening <:+ (d.pair other).opening
  closings : ∀ form other e, e ≠ [] → e <:+ (d.pair form).closing →
    ¬ e <+: (d.pair other).opening

instance : Decidable d.WellSeparated :=
  decidable_of_iff
    ((∀ c ∈ d.marks, isNameChar c = false) ∧
      (∀ form other, form ≠ other → ¬ (d.pair form).opening <:+ (d.pair other).opening) ∧
      ∀ form other, ∀ e ∈ (d.pair form).closing.tails, e ≠ [] → ¬ e <+: (d.pair other).opening)
    ⟨fun ⟨h₁, h₂, h₃⟩ => ⟨h₁, h₂, fun form other e hne hsuf =>
        h₃ form other e ((List.mem_tails e _).2 hsuf) hne⟩,
      fun h => ⟨h.nameless, h.openings, fun form other e he hne =>
        h.closings form other e hne ((List.mem_tails e _).1 he)⟩⟩

/-- The two braces and the two bars are well separated. -/
theorem standard_wellSeparated : standard.WellSeparated := by decide

/-- A text without characters of the delimiters, and not empty. -/
def Unmarked (text : Text) : Prop := IsRun (· ∉ d.marks) text

instance (text : Text) : Decidable (d.Unmarked text) :=
  inferInstanceAs (Decidable (IsRun (· ∉ d.marks) text))

variable {d}

theorem pair_without (form : Form) : (d.pair form).Without (· ∉ d.marks) := by
  have hp := d.proper form
  exact ⟨⟨hp.1, fun c hc => not_not_intro (d.mem_marks_iff.2 ⟨form, .inl hc⟩)⟩,
    ⟨hp.2, fun c hc => not_not_intro (d.mem_marks_iff.2 ⟨form, .inr hc⟩)⟩⟩

theorem wrap_ne_nil (form : Form) (name : Text) : (d.pair form).wrap name ≠ [] := by
  have := (pair_without (d := d) form).opening.1
  simp [Pair.wrap, this]

namespace WellSeparated

variable (sep : d.WellSeparated) {form other : Form} {key name before after x y : Text}
include sep

theorem unmarked_of_isName (h : isName name = true) : d.Unmarked name := by
  refine ⟨(isName_iff.1 h).1, fun c hc hmark => ?_⟩
  have := sep.nameless c hmark
  rw [(isName_iff.1 h).2 c hc] at this
  exact Bool.noConfusion this

/-- Each opening belongs to one form. -/
theorem form_eq (h : (d.pair form).opening = (d.pair other).opening) : form = other := by
  by_contra hne
  exact sep.openings form other hne (h ▸ List.suffix_rfl)

/-- A placeholder tells its form and its key. -/
theorem wrap_inj (hkey : d.Unmarked key) (hname : d.Unmarked name)
    (h : (d.pair form).wrap key ++ x = (d.pair other).wrap name ++ y) :
    form = other ∧ key = name := by
  obtain ⟨ho, hk⟩ := Pair.wrap_inj (pair_without other) (pair_without form) hkey hname h
  exact ⟨sep.form_eq ho, hk⟩

/-- No placeholder starts inside another one. -/
theorem not_overlap (hkey : d.Unmarked key) (hname : d.Unmarked name) {s : Text} (hs : s ≠ [])
    (hlen : s.length < ((d.pair other).wrap name).length) :
    s ++ ((d.pair form).wrap key ++ x) ≠ (d.pair other).wrap name ++ y := by
  intro h
  rcases Pair.wrap_overlap (pair_without other) (pair_without form) hkey hname h hlen with
    ho | ⟨e, hne, hsuf, hpre⟩
  · have hsuf : (d.pair form).opening <:+ (d.pair other).opening := ⟨s, ho⟩
    have hform : form = other := by
      by_contra hne
      exact sep.openings form other hne hsuf
    subst hform
    exact hs (by simpa using ho)
  · exact sep.closings other form e hne hsuf hpre

/-- **Two placeholders in one text are the same or do not touch.** -/
theorem wrap_apart (hkey : d.Unmarked key) (hname : d.Unmarked name)
    (h : before ++ (d.pair form).wrap key ++ after = x ++ (d.pair other).wrap name ++ y) :
    x ++ (d.pair other).wrap name <+: before ∨ before ++ (d.pair form).wrap key <+: x ∨
      (x = before ∧ other = form ∧ name = key) := by
  rw [List.append_assoc, List.append_assoc] at h
  rcases List.append_eq_append_iff.1 h with ⟨s, rfl, h'⟩ | ⟨s, rfl, h'⟩
  · -- the second one starts at or after the first one
    by_cases hs : s = []
    · subst hs
      obtain ⟨hf, hk⟩ := sep.wrap_inj hkey hname (by simpa using h')
      exact .inr (.inr ⟨by simp, hf.symm, hk.symm⟩)
    · by_cases hlen : s.length < ((d.pair form).wrap key).length
      · exact absurd h'.symm (sep.not_overlap hname hkey hs hlen)
      · refine .inr (.inl ((List.prefix_append_right_inj before).2 ?_))
        exact List.prefix_of_prefix_length_le ⟨after, rfl⟩ ⟨_, h'.symm⟩ (by omega)
  · by_cases hs : s = []
    · subst hs
      obtain ⟨hf, hk⟩ := sep.wrap_inj hname hkey (by simpa using h')
      exact .inr (.inr ⟨by simp, hf, hk⟩)
    · by_cases hlen : s.length < ((d.pair other).wrap name).length
      · exact absurd h'.symm (sep.not_overlap hkey hname hs hlen)
      · refine .inl ((List.prefix_append_right_inj x).2 ?_)
        exact List.prefix_of_prefix_length_le ⟨y, rfl⟩ ⟨_, h'.symm⟩ (by omega)

end WellSeparated

end Delimiters

end Stencil
