import Stencil.Placeholder.Unresolved
import Stencil.Proofs.Separation

/-!
# What the search finds

Placeholders are read off a text from the left, each with the longest name. Whatever the delimiters
are, a text in which nothing is read has no placeholder; and where placeholders cannot overlap,
every one is read.

* `Pair.exists_nameAt?`: where a placeholder stands, one is read, with a name at least as long.
* `Pair.names_eq_nil_iff`: **nothing is read exactly if there is nothing**, for any pair.
* `Pair.mem_names_iff`: all is read that is there, for a separated pair.
* `Delimiters.unresolved_eq_nil_iff`: what that says of the report.
* `Delimiters.unresolved_placeholders`: **the report is the set of the placeholders in the text**,
  if each pair is separated by itself.
-/

namespace Stencil

/-- Where a name stands before the closing text, one at least as long is read. -/
theorem exists_closedName? {closing text m : Text} (hm : isName m = true)
    (h : m ++ closing <+: text) : ∃ n, closedName? closing text = some n ∧ m <+: n := by
  induction text generalizing m with
  | nil =>
    have := List.append_eq_nil_iff.1 (List.prefix_nil.1 h)
    exact absurd this.1 (isName_iff.1 hm).1
  | cons c rest ih =>
    obtain ⟨c', m', rfl⟩ := List.exists_cons_of_ne_nil (isName_iff.1 hm).1
    obtain ⟨rfl, hrest⟩ := List.cons_prefix_cons.1 h
    have hc : isNameChar c' = true := (isName_iff.1 hm).2 c' (by simp)
    rw [closedName?, if_pos hc]
    cases hlonger : closedName? closing rest with
    | some n =>
      refine ⟨c' :: n, rfl, List.cons_prefix_cons.2 ⟨rfl, ?_⟩⟩
      by_cases hm' : m' = []
      · simp [hm']
      · have hname : isName m' = true :=
          isName_iff.2 ⟨hm', fun x hx => (isName_iff.1 hm).2 x (by simp [hx])⟩
        obtain ⟨n', hn', hpre⟩ := ih hname hrest
        rw [hlonger] at hn'
        exact Option.some.inj hn' ▸ hpre
    | none =>
      -- no longer name is closed, so this one is a single character
      have hm' : m' = [] := by
        by_contra hm'
        have hname : isName m' = true :=
          isName_iff.2 ⟨hm', fun x hx => (isName_iff.1 hm).2 x (by simp [hx])⟩
        obtain ⟨n', hn', -⟩ := ih hname hrest
        rw [hlonger] at hn'
        cases hn'
      subst hm'
      have hclosing : closing.isPrefixOf rest = true := List.isPrefixOf_iff_prefix.2 hrest
      exact ⟨[c'], by simp [hclosing], List.prefix_rfl⟩

namespace Pair

variable {pair : Pair} {text name m after : Text}

/-- **Where a placeholder stands, one is read**, with a name at least as long. -/
theorem exists_nameAt? (hm : isName m = true) (h : pair.wrap m <+: text) :
    ∃ n, pair.nameAt? text = some n ∧ m <+: n := by
  obtain ⟨after, rfl⟩ := h
  have hclosed : m ++ pair.closing <+: m ++ (pair.closing ++ after) := ⟨after, by simp⟩
  obtain ⟨n, hn, hpre⟩ := exists_closedName? hm hclosed
  refine ⟨n, ?_, hpre⟩
  rw [nameAt?, Text.after?_eq_some_iff.2 (pair.wrap_append m after)]
  exact hn

theorem wrap_ne_nil_of_isName (pair : Pair) (h : isName name = true) : pair.wrap name ≠ [] := by
  have := (isName_iff.1 h).1
  simp [wrap, this]

@[simp] theorem names_nil (pair : Pair) : pair.names [] = [] := by rw [names]

/-- A placeholder that is read is taken off the text. -/
theorem names_of_nameAt? (h : pair.nameAt? (pair.wrap name ++ after) = some name) :
    pair.names (pair.wrap name ++ after) = name :: pair.names after := by
  have hne := pair.wrap_ne_nil_of_isName (nameAt?_eq_some h).1
  obtain ⟨c, cs, hcs⟩ := List.exists_cons_of_ne_nil hne
  rw [hcs, List.cons_append] at h ⊢
  rw [names, h]
  simp [hcs]

theorem names_of_none {c : Char} {rest : Text} (h : pair.nameAt? (c :: rest) = none) :
    pair.names (c :: rest) = pair.names rest := by
  rw [names, h]

/-- What is read off a text, step by step: a placeholder at its start, or nothing there. -/
theorem names_induction {motive : Text → Prop} (pair : Pair) (nil : motive [])
    (found : ∀ name after, pair.nameAt? (pair.wrap name ++ after) = some name → isName name = true →
      motive after → motive (pair.wrap name ++ after))
    (passed : ∀ c rest, pair.nameAt? (c :: rest) = none → motive rest → motive (c :: rest))
    (text : Text) : motive text := by
  induction hn : text.length using Nat.strongRecOn generalizing text with
  | ind n ih =>
    subst hn
    cases text with
    | nil => exact nil
    | cons c rest =>
      cases hat : pair.nameAt? (c :: rest) with
      | none => exact passed c rest hat (ih rest.length (by simp) rest rfl)
      | some name =>
        obtain ⟨hname, after, hafter⟩ := nameAt?_eq_some hat
        have hlen := congrArg List.length hafter
        have hpos := List.length_pos_iff.2 (pair.wrap_ne_nil_of_isName hname)
        rw [← hafter] at hat ⊢
        refine found name after hat hname (ih after.length ?_ after rfl)
        simp only [List.length_append] at hlen; omega

/-- What is read is there. -/
theorem infix_of_mem_names (h : name ∈ pair.names text) :
    isName name = true ∧ pair.wrap name <:+: text := by
  induction text using names_induction pair with
  | nil => simp at h
  | found n after hat hn ih =>
    rw [names_of_nameAt? hat] at h
    rcases List.mem_cons.1 h with rfl | h
    · exact ⟨hn, (List.prefix_append _ _).isInfix⟩
    · exact ⟨(ih h).1, (ih h).2.trans (List.suffix_append _ _).isInfix⟩
  | passed c rest hat ih =>
    rw [names_of_none hat] at h
    exact ⟨(ih h).1, (ih h).2.trans (List.suffix_cons c rest).isInfix⟩

/-- **Nothing is read exactly if there is nothing**, whatever the pair is. -/
theorem names_eq_nil_iff :
    pair.names text = [] ↔ ∀ name, isName name = true → ¬ pair.wrap name <:+: text := by
  constructor
  · intro h name hname hin
    induction text using names_induction pair with
    | nil => exact pair.wrap_ne_nil_of_isName hname (List.infix_nil.1 hin)
    | found n after hat hn ih => simp [names_of_nameAt? hat] at h
    | passed c rest hat ih =>
      rw [names_of_none hat] at h
      rcases List.infix_cons_iff.1 hin with hpre | hin
      · obtain ⟨n, hn, -⟩ := exists_nameAt? hname hpre
        rw [hat] at hn
        cases hn
      · exact ih h hin
  · intro h
    rw [List.eq_nil_iff_forall_not_mem]
    intro name hmem
    obtain ⟨hname, hin⟩ := infix_of_mem_names hmem
    exact h name hname hin

/-- **A separated pair**: its texts have no characters of names, and what the closing ends with is
not what the opening begins with. -/
structure Separated (pair : Pair) : Prop extends pair.Without (isNameChar · = true) where
  apart : ∀ e, e ≠ [] → e <:+ pair.closing → ¬ e <+: pair.opening

instance (pair : Pair) : Decidable pair.Separated :=
  decidable_of_iff
    (Text.IsRun (¬ isNameChar · = true) pair.opening ∧
      Text.IsRun (¬ isNameChar · = true) pair.closing ∧
      ∀ e ∈ pair.closing.tails, e ≠ [] → ¬ e <+: pair.opening)
    ⟨fun ⟨hopening, hclosing, hapart⟩ =>
        ⟨⟨hopening, hclosing⟩, fun e hne hsuf => hapart e ((List.mem_tails e _).2 hsuf) hne⟩,
      fun h => ⟨h.opening, h.closing, fun e he hne => h.apart e hne ((List.mem_tails e _).1 he)⟩⟩

/-- **All is read that is there**, for a separated pair. -/
theorem mem_names_iff (sep : pair.Separated) :
    name ∈ pair.names text ↔ isName name = true ∧ pair.wrap name <:+: text := by
  refine ⟨infix_of_mem_names, ?_⟩
  rintro ⟨hname, hin⟩
  have hrun := isName_iff_isRun.1 hname
  induction text using names_induction pair with
  | nil => exact absurd (List.infix_nil.1 hin) (pair.wrap_ne_nil_of_isName hname)
  | passed c rest hat ih =>
    rw [names_of_none hat]
    rcases List.infix_cons_iff.1 hin with hpre | hin
    · obtain ⟨n, hn, -⟩ := exists_nameAt? hname hpre
      rw [hat] at hn
      cases hn
    · exact ih hin
  | found n after hat hn ih =>
    rw [names_of_nameAt? hat, List.mem_cons]
    obtain ⟨s, y, h⟩ := hin
    have hnrun := isName_iff_isRun.1 hn
    rw [List.append_assoc] at h
    by_cases hs : s = []
    · subst hs
      exact .inl (wrap_inj sep.toWithout sep.toWithout hrun hnrun h).2
    · -- it does not start in the first one, so it stands after it
      have hlen : ¬ s.length < (pair.wrap n).length := by
        intro hlen
        rcases wrap_overlap sep.toWithout sep.toWithout hrun hnrun h hlen with
          ho | ⟨e, hne, hsuf, hpre⟩
        · exact hs (by simpa using ho)
        · exact sep.apart e hne hsuf hpre
      obtain ⟨t, rfl⟩ : pair.wrap n <+: s :=
        List.prefix_of_prefix_length_le ⟨after, rfl⟩ ⟨_, h⟩ (by omega)
      refine .inr (ih ⟨t, y, ?_⟩)
      simpa using h

end Pair

namespace Delimiters

variable {d : Delimiters} {text z : Text}

/-- **The report is empty exactly if no placeholder is left**, of whatever name and form. -/
theorem unresolved_eq_nil_iff :
    d.unresolved text = [] ↔
      ∀ form name, isName name = true → ¬ (d.pair form).wrap name <:+: text := by
  have hnames : d.unresolved text = [] ↔ ∀ form, (d.pair form).names text = [] := by
    simp only [List.eq_nil_iff_forall_not_mem, mem_unresolved_iff]
    exact ⟨fun h form name hmem => h _ ⟨form, name, hmem, rfl⟩,
      fun h z ⟨form, name, hmem, _⟩ => h form name hmem⟩
  rw [hnames]
  exact forall_congr' fun form => Pair.names_eq_nil_iff

theorem WellSeparated.separated (sep : d.WellSeparated) (form : Form) :
    (d.pair form).Separated := by
  obtain ⟨hopening, hclosing⟩ := pair_without (d := d) form
  have hmarks : ∀ {c}, c ∈ d.marks → ¬ isNameChar c = true := by
    intro c hc
    simp [sep.nameless c hc]
  exact ⟨⟨⟨hopening.1, fun c hc => hmarks (not_not.1 (hopening.2 c hc))⟩,
    ⟨hclosing.1, fun c hc => hmarks (not_not.1 (hclosing.2 c hc))⟩⟩, sep.closings form form⟩

/-- **The report is the set of the placeholders in the text**, of whatever name and form, if each
pair is separated by itself. The two pairs may have anything in common. -/
theorem unresolved_placeholders (separated : ∀ form, (d.pair form).Separated) (text : Text) :
    (d.unresolved text).Pairwise (· < ·) ∧
      ∀ z, z ∈ d.unresolved text ↔
        z <:+: text ∧ ∃ form name, isName name = true ∧ z = (d.pair form).wrap name := by
  refine ⟨Text.setOf_pairwise _, fun z => ?_⟩
  rw [mem_unresolved_iff]
  constructor
  · rintro ⟨form, name, hmem, rfl⟩
    obtain ⟨hname, hin⟩ := Pair.infix_of_mem_names hmem
    exact ⟨hin, form, name, hname, rfl⟩
  · rintro ⟨hin, form, name, hname, rfl⟩
    have hmem : name ∈ (d.pair form).names text :=
      (Pair.mem_names_iff (separated form)).2 ⟨hname, hin⟩
    exact ⟨form, name, hmem, rfl⟩

/-- Three braces for the plain form, and two of them for the encoded one. -/
def nested : Delimiters where
  plain := ⟨['{', '{', '{'], ['}', '}', '}']⟩
  encoded := ⟨['{', '{'], ['}', '}']⟩
  plain_proper := by decide
  encoded_proper := standard.plain_proper
  distinct := by decide

/-- A placeholder of one form inside one of the other form: both are reported. -/
theorem unresolved_placeholders_nested :
    (∀ form, (nested.pair form).Separated) ∧
      nested.encoded.wrap ['A'] ∈ nested.unresolved (nested.plain.wrap ['A']) ∧
      nested.plain.wrap ['A'] ∈ nested.unresolved (nested.plain.wrap ['A']) := by
  have separated : ∀ form, (nested.pair form).Separated := by decide
  have hreport := (unresolved_placeholders separated (nested.plain.wrap ['A'])).2
  refine ⟨separated, (hreport _).2 ⟨by decide, .encoded, ['A'], rfl, rfl⟩, ?_⟩
  exact (hreport _).2 ⟨List.infix_rfl, .plain, ['A'], rfl, rfl⟩

-- Where the closing ends with what the opening begins with, the second of two placeholders is
-- not read.
example : (Pair.mk ['$', '['] [']', '$']).names "$[A]$[B]$".toList = [['A']] := by decide +kernel

end Delimiters

end Stencil
