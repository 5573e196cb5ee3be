import Mathlib.Data.List.Forall2
import Mathlib.Data.List.Induction
import Stencil.Proofs.Selecting

/-!
# Settings that are a catalog

The delimiters of a catalog are those of the last entries for them. Its options are the entries, one
by one; they are judged in the order of the document, after the delimiters, and the first entry
whose id cannot be used is reported.

* `Catalog.Governs`: the pair that a list of prefixes sets for a form.
* `Catalog.Clean`: entries with ids of their own.
* `Catalog.Blames`: what is wrong with the id of an entry.
* `Catalog.optionsOf_eq_ok_iff`, `Catalog.optionsOf_eq_error_iff`: **the first id that cannot be
  used is reported**, and if there is none the entries are options.
* `Catalog.ofSettings_judges`: **which settings are a catalog, and what is wrong with all others.**
-/

namespace Stencil.Catalog

variable {base : Option Path} {taken more : List Text} {entry : OptionEntry}
  {before entries : List OptionEntry} {options : List NamedJob} {fault : IdFault}

section Prefixes

/-- The pair of a form is that of the last entry with the id of the form, or the standard one if
there is no such entry. -/
def Governs (form : Form) (prefixes : List PrefixEntry) (pair : Pair) : Prop :=
  (∃ before entry after, prefixes = before ++ entry :: after ∧ entry.id = formId form ∧
    (∀ later ∈ after, later.id ≠ formId form) ∧ pair = ⟨entry.opening, entry.closing⟩) ∨
  (∀ entry ∈ prefixes, entry.id ≠ formId form) ∧ pair = Delimiters.standard.pair form

/-- One more entry sets the pair if it is for the form, and changes nothing otherwise. -/
theorem pairOf_concat (form : Form) (prefixes : List PrefixEntry) (entry : PrefixEntry) :
    pairOf form (prefixes ++ [entry]) =
      if entry.id = formId form then ⟨entry.opening, entry.closing⟩ else pairOf form prefixes := by
  rw [pairOf, List.foldl_append]
  rfl

/-- **The last entry for a form governs.** -/
theorem governs_pairOf (form : Form) (prefixes : List PrefixEntry) :
    Governs form prefixes (pairOf form prefixes) := by
  induction prefixes using List.reverseRecOn with
  | nil => exact .inr ⟨nofun, rfl⟩
  | append_singleton prefixes entry ih =>
    rw [pairOf_concat]
    by_cases hid : entry.id = formId form
    · rw [if_pos hid]
      exact .inl ⟨prefixes, entry, [], rfl, hid, nofun, rfl⟩
    · rw [if_neg hid]
      rcases ih with ⟨before, found, after, rfl, hfound, hafter, hpair⟩ | ⟨hnone, hpair⟩
      · refine .inl ⟨before, found, after ++ [entry], by simp, hfound, ?_, hpair⟩
        exact List.forall_mem_append.2 ⟨hafter, List.forall_mem_singleton.2 hid⟩
      · exact .inr ⟨List.forall_mem_append.2 ⟨hnone, List.forall_mem_singleton.2 hid⟩, hpair⟩

/-- The entry is for one of the forms. -/
def IsForForm (entry : PrefixEntry) : Bool :=
  entry.id == formId .plain || entry.id == formId .encoded

/-- **Entries for no form have no effect.** -/
theorem pairOf_filter (form : Form) (prefixes : List PrefixEntry) :
    pairOf form (prefixes.filter IsForForm) = pairOf form prefixes := by
  induction prefixes using List.reverseRecOn with
  | nil => rfl
  | append_singleton prefixes entry ih =>
    rw [List.filter_append, pairOf_concat]
    by_cases hfor : IsForForm entry = true
    · rw [List.filter_singleton, hfor, cond_true, pairOf_concat, ih]
    · have hid : entry.id ≠ formId form := by
        rw [IsForForm, Bool.or_eq_true, beq_iff_eq, beq_iff_eq, not_or] at hfor
        cases form with
        | plain => exact hfor.1
        | encoded => exact hfor.2
      rw [List.filter_singleton, Bool.eq_false_iff.2 hfor, cond_false, List.append_nil, ih,
        if_neg hid]

end Prefixes

/-- The ids of the entries, without the blanks around them. -/
def idsOf (entries : List OptionEntry) : List Text := entries.map fun entry => entry.id.trim

/-- **Entries with ids of their own**: no id is empty or cancels, and no two are one. -/
structure Clean (entries : List OptionEntry) : Prop where
  ne_nil : ∀ id ∈ idsOf entries, id ≠ []
  not_cancel : ∀ id ∈ idsOf entries, id ≠ ['c'] ∧ id ≠ ['C']
  nodup : (idsOf entries).Nodup

/-- **What is wrong with the id of an entry** where others are taken: it is empty, or else it
cancels, or else it is taken. -/
def Blames (taken : List Text) (entry : OptionEntry) : IdFault → Prop
  | .empty name => entry.id.trim = [] ∧ entry.name = name
  | .reserved id => (entry.id.trim = ['c'] ∨ entry.id.trim = ['C']) ∧ entry.id.trim = id
  | .duplicate id => entry.id.trim ≠ [] ∧ ¬ (entry.id.trim = ['c'] ∨ entry.id.trim = ['C']) ∧
      entry.id.trim ∈ taken ∧ entry.id.trim = id

theorem idFault?_eq_some_iff : idFault? taken entry = some fault ↔ Blames taken entry fault := by
  unfold idFault?
  dsimp only
  by_cases hnil : entry.id.trim = []
  · cases fault <;> simp [Blames, hnil]
  · by_cases hcancel : isCancel entry.id.trim = true
    · have hletter := isCancel_eq_true_iff.1 hcancel
      cases fault <;> simp [Blames, hnil, hcancel, hletter]
    · have hletter := mt isCancel_eq_true_iff.2 hcancel
      by_cases htaken : entry.id.trim ∈ taken <;>
        cases fault <;> simp [Blames, hnil, hcancel, hletter, htaken]

/-- It only matters which ids are taken. -/
theorem Blames.congr (h : ∀ id, id ∈ taken ↔ id ∈ more) :
    Blames taken entry fault ↔ Blames more entry fault := by
  cases fault with
  | empty name => rfl
  | reserved id => rfl
  | duplicate id => simp only [Blames, h]

theorem clean_nil : Clean [] := ⟨nofun, nofun, List.nodup_nil⟩

theorem clean_cons (h : idFault? taken entry = none) (hentries : Clean entries)
    (hnew : entry.id.trim ∉ idsOf entries) : Clean (entry :: entries) := by
  obtain ⟨hcancel, -⟩ := of_idFault?_eq_none h
  rw [← Bool.not_eq_true, isCancel_eq_true_iff, not_or] at hcancel
  exact ⟨List.forall_mem_cons.2 ⟨ne_nil_of_idFault?_eq_none h, hentries.ne_nil⟩,
    List.forall_mem_cons.2 ⟨hcancel, hentries.not_cancel⟩, List.nodup_cons.2 ⟨hnew, hentries.nodup⟩⟩

/-- Entries with ids of their own are options, if none of the ids is taken. -/
theorem Clean.optionsOf_eq (h : Clean entries) (hnew : ∀ id ∈ idsOf entries, id ∉ taken) :
    optionsOf base taken entries = .ok (entries.map (optionOf base)) := by
  refine optionsOf_eq_map (fun entry hentry => ?_) h.nodup fun entry hentry =>
    hnew _ (List.mem_map_of_mem hentry)
  have hid : entry.id.trim ∈ idsOf entries := List.mem_map_of_mem hentry
  refine ⟨h.ne_nil _ hid, ?_⟩
  rw [← Bool.not_eq_true, isCancel_eq_true_iff, not_or]
  exact h.not_cancel _ hid

/-- **Entries are options exactly if they have ids of their own** and none of them is taken. -/
theorem optionsOf_eq_ok_iff : optionsOf base taken entries = .ok options ↔
    Clean entries ∧ (∀ id ∈ idsOf entries, id ∉ taken) ∧ options = entries.map (optionOf base) := by
  constructor
  · intro h
    induction entries generalizing taken options with
    | nil =>
      cases h
      exact ⟨clean_nil, nofun, rfl⟩
    | cons entry entries ih =>
      unfold optionsOf at h
      split at h
      · cases h
      · next hfault =>
        cases hlater : optionsOf base (entry.id.trim :: taken) entries with
        | error fault =>
          rw [hlater] at h
          cases h
        | ok later =>
          rw [hlater] at h
          cases h
          obtain ⟨hclean, hnew, rfl⟩ := ih hlater
          have hself : entry.id.trim ∉ idsOf entries := fun hmem => hnew _ hmem List.mem_cons_self
          refine ⟨clean_cons hfault hclean hself, List.forall_mem_cons.2 ⟨?_, ?_⟩, rfl⟩
          · exact (of_idFault?_eq_none hfault).2
          · exact fun id hid hmem => hnew id hid (List.mem_cons_of_mem _ hmem)
  · rintro ⟨hclean, hnew, rfl⟩
    exact hclean.optionsOf_eq hnew

/-- An entry with a fault after entries with ids of their own is reported. -/
theorem optionsOf_of_blames (hbefore : Clean before) (hnew : ∀ id ∈ idsOf before, id ∉ taken)
    (hblames : Blames (idsOf before ++ taken) entry fault) (after : List OptionEntry) :
    optionsOf base taken (before ++ entry :: after) = .error fault := by
  induction before generalizing taken with
  | nil =>
    have hfault : idFault? taken entry = some fault := idFault?_eq_some_iff.2 hblames
    rw [List.nil_append, optionsOf, hfault]
  | cons first before ih =>
    obtain ⟨hnewFirst, hnewBefore⟩ := List.forall_mem_cons.1 hnew
    obtain ⟨hself, hnodup⟩ := List.nodup_cons.1 hbefore.nodup
    obtain ⟨hneFirst, hneBefore⟩ := List.forall_mem_cons.1 hbefore.ne_nil
    obtain ⟨hcancelFirst, hcancelBefore⟩ := List.forall_mem_cons.1 hbefore.not_cancel
    have hfault : idFault? taken first = none := by
      refine Option.eq_none_iff_forall_not_mem.2 fun found hfound => ?_
      have hfound := idFault?_eq_some_iff.1 hfound
      cases found with
      | empty name => exact hneFirst hfound.1
      | reserved id => exact hfound.1.elim hcancelFirst.1 hcancelFirst.2
      | duplicate id => exact hnewFirst hfound.2.2.1
    have hlater : optionsOf base (first.id.trim :: taken) (before ++ entry :: after) =
        .error fault := by
      refine ih ⟨hneBefore, hcancelBefore, hnodup⟩ (fun id hid hmem => ?_) ?_
      · rcases List.mem_cons.1 hmem with rfl | hmem
        · exact hself hid
        · exact hnewBefore id hid hmem
      · refine (Blames.congr fun id => ?_).1 hblames
        simp only [idsOf, List.map_cons, List.cons_append, List.mem_cons, List.mem_append]
        tauto
    rw [List.cons_append, optionsOf, hfault]
    simp only [hlater]
    rfl

/-- **The first entry whose id cannot be used is reported**, with what is wrong with it. -/
theorem optionsOf_eq_error_iff : optionsOf base taken entries = .error fault ↔
    ∃ before entry after, entries = before ++ entry :: after ∧ Clean before ∧
      (∀ id ∈ idsOf before, id ∉ taken) ∧ Blames (idsOf before ++ taken) entry fault := by
  constructor
  · intro h
    induction entries generalizing taken with
    | nil => cases h
    | cons entry entries ih =>
      unfold optionsOf at h
      split at h
      · next found hfault =>
        cases h
        exact ⟨[], entry, entries, rfl, clean_nil, nofun, idFault?_eq_some_iff.1 hfault⟩
      · next hfault =>
        cases hlater : optionsOf base (entry.id.trim :: taken) entries with
        | ok later =>
          rw [hlater] at h
          cases h
        | error found =>
          rw [hlater] at h
          cases h
          obtain ⟨before, blamed, after, rfl, hclean, hnew, hblames⟩ := ih hlater
          have hself : entry.id.trim ∉ idsOf before := fun hmem => hnew _ hmem List.mem_cons_self
          refine ⟨entry :: before, blamed, after, rfl, clean_cons hfault hclean hself,
            List.forall_mem_cons.2 ⟨(of_idFault?_eq_none hfault).2, fun id hid hmem => ?_⟩, ?_⟩
          · exact hnew id hid (List.mem_cons_of_mem _ hmem)
          · refine (Blames.congr fun id => ?_).1 hblames
            simp only [idsOf, List.map_cons, List.cons_append, List.mem_cons, List.mem_append]
            tauto
  · rintro ⟨before, entry, after, rfl, hclean, hnew, hblames⟩
    exact optionsOf_of_blames hclean hnew hblames after

/-- The path that a value stands for: an absolute one stays as it is, a relative one is joined to
the base if there is one. -/
def SeenFrom (base : Option Path) (value : Text) (path : Path) : Prop :=
  if (Path.ofText value).isAbsolute then path = .ofText value
  else path = base.elim (.ofText value) fun folder => folder.join (.ofText value)

theorem seenFrom_resolve (base : Option Path) (value : Text) :
    SeenFrom base value (resolve base value) := by
  unfold SeenFrom
  split
  · next habsolute =>
    cases base with
    | none => rfl
    | some folder => exact Path.join_absolute habsolute
  · cases base <;> rfl

/-- The option is what the entry describes, as seen from the base. -/
structure Describes (base : Option Path) (entry : OptionEntry) (option : NamedJob) : Prop where
  id : option.id = entry.id.trim
  name : option.name = entry.name
  templateFolder : SeenFrom base entry.templateFolder option.templateFolder
  outputFolder : SeenFrom base entry.outputFolder option.outputFolder
  variableFile : SeenFrom base entry.variableFile option.variableFile
  searchPattern : option.searchPattern = entry.searchPattern

theorem describes_optionOf (base : Option Path) (entry : OptionEntry) :
    Describes base entry (optionOf base entry) :=
  ⟨rfl, rfl, seenFrom_resolve base _, seenFrom_resolve base _, seenFrom_resolve base _, rfl⟩

/-- Settings are a catalog if the pairs are its delimiters and the entries its options. -/
theorem ofSettings_eq_ok_iff {settings : Settings} {catalog : Catalog} :
    ofSettings base settings = .ok catalog ↔
      Delimiters.ofPairs (pairOf .plain settings.prefixes) (pairOf .encoded settings.prefixes) =
        .ok catalog.delimiters ∧ optionsOf base [] settings.options = .ok catalog.options := by
  unfold ofSettings
  dsimp only
  split
  · next hpairs => simp [hpairs]
  · next hpairs =>
    split
    · next hoptions => simp [hoptions]
    · next hoptions =>
      rw [hpairs, hoptions]
      cases catalog
      simp

/-- **The delimiters are judged first**, and then the options. -/
theorem ofSettings_eq_error_iff {settings : Settings} {failure : Failure} :
    ofSettings base settings = .error failure ↔
      (∃ fault, Delimiters.ofPairs (pairOf .plain settings.prefixes)
        (pairOf .encoded settings.prefixes) = .error fault ∧ failure = .badDelimiters fault) ∨
      (∃ delimiters, Delimiters.ofPairs (pairOf .plain settings.prefixes)
        (pairOf .encoded settings.prefixes) = .ok delimiters) ∧
        ∃ fault, optionsOf base [] settings.options = .error fault ∧
          failure = .badCatalog none (.id fault) := by
  unfold ofSettings
  dsimp only
  split
  · next hpairs => simp [hpairs, eq_comm]
  · next hpairs =>
    split
    · next hoptions => simp [hpairs, hoptions, eq_comm]
    · next hoptions => simp [hpairs, hoptions]

/-- **Settings are a catalog** exactly if the pairs are delimiters and the options have ids of their
own. -/
theorem exists_ofSettings_iff {settings : Settings} :
    (∃ catalog, ofSettings base settings = .ok catalog) ↔
      (∃ delimiters, Delimiters.ofPairs (pairOf .plain settings.prefixes)
        (pairOf .encoded settings.prefixes) = .ok delimiters) ∧ Clean settings.options := by
  constructor
  · rintro ⟨catalog, h⟩
    obtain ⟨hpairs, hoptions⟩ := ofSettings_eq_ok_iff.1 h
    exact ⟨⟨_, hpairs⟩, (optionsOf_eq_ok_iff.1 hoptions).1⟩
  · rintro ⟨⟨delimiters, hpairs⟩, hclean⟩
    have hoptions : optionsOf base [] settings.options = .ok (settings.options.map (optionOf base)) :=
      hclean.optionsOf_eq fun _ _ => List.not_mem_nil
    exact ⟨⟨delimiters, _⟩, ofSettings_eq_ok_iff.2 ⟨hpairs, hoptions⟩⟩

/-- **The first option is blamed** whose id cannot be used. -/
theorem exists_idFault_iff {entries : List OptionEntry} {failure : Failure} :
    (∃ fault, optionsOf base [] entries = .error fault ∧ failure = .badCatalog none (.id fault)) ↔
      ∃ before entry after fault, entries = before ++ entry :: after ∧ Clean before ∧
        Blames (idsOf before) entry fault ∧ failure = .badCatalog none (.id fault) := by
  constructor
  · rintro ⟨fault, hoptions, rfl⟩
    obtain ⟨before, entry, after, hsplit, hclean, -, hblames⟩ := optionsOf_eq_error_iff.1 hoptions
    rw [List.append_nil] at hblames
    exact ⟨before, entry, after, fault, hsplit, hclean, hblames, rfl⟩
  · rintro ⟨before, entry, after, fault, rfl, hclean, hblames, rfl⟩
    rw [← List.append_nil (idsOf before)] at hblames
    exact ⟨fault, optionsOf_of_blames hclean (fun _ _ => List.not_mem_nil) hblames after, rfl⟩

/-- **What a catalog holds**: the delimiters of the pairs, and an option for each entry. -/
theorem describes_of_ofSettings {settings : Settings} {catalog : Catalog}
    (h : ofSettings base settings = .ok catalog) :
    catalog.delimiters.plain = pairOf .plain settings.prefixes ∧
      catalog.delimiters.encoded = pairOf .encoded settings.prefixes ∧
      List.Forall₂ (Describes base) settings.options catalog.options := by
  obtain ⟨hpairs, hoptions⟩ := ofSettings_eq_ok_iff.1 h
  obtain ⟨hplain, hencoded⟩ := Delimiters.pairs_of_ofPairs hpairs
  obtain ⟨-, -, hmap⟩ := optionsOf_eq_ok_iff.1 hoptions
  refine ⟨hplain, hencoded, ?_⟩
  rw [hmap, List.forall₂_map_right_iff, List.forall₂_same]
  exact fun entry _ => describes_optionOf base entry

/-- **Which settings are a catalog, and what is wrong with all others.**

The pair of a form is that of the last entry for it, or the standard one; entries for no form have
no effect. The settings are a catalog exactly if the pairs are delimiters and the options have ids
of their own. If not, delimiters that are none are reported before any option, and otherwise the
first option whose id cannot be used, where the ids of the options before it are taken. The catalog
has these delimiters, and its options are the entries one by one. The catalog of a document is that
of its settings. -/
theorem ofSettings_judges (base : Option Path) (settings : Settings) :
    let plain := pairOf .plain settings.prefixes
    let encoded := pairOf .encoded settings.prefixes
    (∀ form, Governs form settings.prefixes (pairOf form settings.prefixes)) ∧
    ofSettings base ⟨settings.prefixes.filter IsForForm, settings.options⟩ =
      ofSettings base settings ∧
    ((∃ catalog, ofSettings base settings = .ok catalog) ↔
      (∃ delimiters, Delimiters.ofPairs plain encoded = .ok delimiters) ∧ Clean settings.options) ∧
    (∀ failure, ofSettings base settings = .error failure ↔
      (∃ fault, Delimiters.ofPairs plain encoded = .error fault ∧
        failure = .badDelimiters fault) ∨
      (∃ delimiters, Delimiters.ofPairs plain encoded = .ok delimiters) ∧
        ∃ before entry after fault, settings.options = before ++ entry :: after ∧ Clean before ∧
          Blames (idsOf before) entry fault ∧ failure = .badCatalog none (.id fault)) ∧
    (∀ catalog, ofSettings base settings = .ok catalog →
      catalog.delimiters.plain = plain ∧ catalog.delimiters.encoded = encoded ∧
        List.Forall₂ (Describes base) settings.options catalog.options) ∧
    ∀ document, Settings.ofDocument document = .ok settings →
      ofDocument base document = ofSettings base settings := by
  intro plain encoded
  refine ⟨fun form => governs_pairOf form _, ?_, exists_ofSettings_iff, fun failure => ?_,
    fun catalog h => describes_of_ofSettings h, fun document h => ?_⟩
  · simp only [ofSettings, pairOf_filter]
  · rw [ofSettings_eq_error_iff, exists_idFault_iff]
  · simp only [ofDocument, h]

/-- An improper pair is set again later, so it does not matter; the second id is the first one, but
for a blank. -/
example : ofSettings (some (.ofText ['b']))
    ⟨[⟨"NORMAL", [], []⟩, ⟨"OTHER", [], []⟩, ⟨"NORMAL", ['<'], ['>']⟩],
      [⟨['1'], ['A'], ['t'], ['/', 'o'], ['v'], ['*']⟩, ⟨['1', ' '], ['B'], [], [], [], []⟩,
        ⟨['c'], ['C'], [], [], [], []⟩]⟩ = .error (.badCatalog none (.id (.duplicate ['1']))) := by
  decide

end Stencil.Catalog
