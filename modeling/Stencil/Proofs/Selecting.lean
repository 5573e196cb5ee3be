import Mathlib.Data.List.Nodup
import Mathlib.Logic.ExistsUnique
import Stencil.Fixture
import Stencil.Proofs.CatalogLoading
import Stencil.Proofs.MenuInput

/-!
# Options that can be selected

The ids of a catalog are checked when it is loaded, and a line of input is compared with them when
the menu is shown. What was checked is what the menu needs: every option is selected by its own id,
and by nothing else.

* `Catalog.Checked`: the ids are proper, each is that of one option, and none cancels.
* `Catalog.checked_of_ofDocument`: **a catalog of a document is checked.**
* `Menu.answerTo_eq_cancel_iff`, `Menu.answerTo_eq_unknown_iff`: what else a line can mean.
* `Session.ofInput_id`: an id on a line of its own selects its option.
* `Catalog.selectable_of_ofDocument`: **no option of a document is shadowed or out of reach.**
-/

namespace Stencil

/-- **A byte below 128** is a character by itself. -/
theorem Utf8.toNat_of_mem_utf8EncodeChar {c : Char} {b : UInt8}
    (h : b ∈ String.utf8EncodeChar c) (hlow : b.toNat < 128) : c.toNat = b.toNat := by
  have hhigh : ∀ n, 128 ≤ n → n < 256 → b ≠ UInt8.ofNat n := by
    rintro n hn hlt rfl
    rw [UInt8.toNat_ofNat', Nat.mod_eq_of_lt hlt] at hlow
    omega
  unfold String.utf8EncodeChar at h
  dsimp only at h
  split at h
  · next hone =>
    rw [List.mem_singleton] at h
    rw [h, UInt8.toNat_ofNat', Nat.mod_eq_of_lt (by omega)]
    rfl
  · exfalso
    -- all bytes of a longer character are at least 128
    split at h
    · simp only [List.mem_cons, List.not_mem_nil, or_false] at h
      rcases h with h | h <;> exact hhigh _ (by omega) (by omega) h
    · split at h
      · simp only [List.mem_cons, List.not_mem_nil, or_false] at h
        rcases h with h | h | h <;> exact hhigh _ (by omega) (by omega) h
      · simp only [List.mem_cons, List.not_mem_nil, or_false] at h
        rcases h with h | h | h | h <;> exact hhigh _ (by omega) (by omega) h

/-- The bytes of a text without a line feed are part of one line. -/
theorem Menu.lineFeed_not_mem_encode {text : Text} (h : '\n' ∉ text) :
    lineFeed ∉ Utf8.encode text := by
  intro hmem
  obtain ⟨c, hc, hbyte⟩ := List.mem_flatMap.1 hmem
  have hnumber : c.toNat = '\n'.toNat := Utf8.toNat_of_mem_utf8EncodeChar hbyte (by decide)
  have hfeed : c = '\n' := Char.toNat_inj.1 hnumber
  exact h (hfeed ▸ hc)

namespace Catalog

variable {base : Option Path} {seen : List Text} {entry : OptionEntry} {entries : List OptionEntry}
  {options : List NamedJob} {option : NamedJob} {catalog : Catalog} {document : Text}

/-- Every id is what is left of it after trimming, and that is not nothing. No two options have one
id, and no id is the letter for cancelling. -/
structure Checked (catalog : Catalog) : Prop extends catalog.Coherent where
  ne_nil : ∀ option ∈ catalog.options, option.id ≠ []
  trimmed : ∀ option ∈ catalog.options, option.id.trim = option.id

/-- Every option is that of an entry whose id was found without a fault. -/
theorem exists_entry_of_optionsOf (h : optionsOf base seen entries = .ok options)
    (hoption : option ∈ options) :
    ∃ entry ∈ entries, ∃ taken, idFault? taken entry = none ∧ option = optionOf base entry := by
  induction entries generalizing seen options with
  | nil =>
    cases h
    cases hoption
  | cons entry entries ih =>
    unfold optionsOf at h
    split at h
    · cases h
    · next hfault =>
      cases hlater : optionsOf base (entry.id.trim :: seen) entries with
      | error fault =>
        rw [hlater] at h
        cases h
      | ok later =>
        rw [hlater] at h
        cases h
        rcases List.mem_cons.1 hoption with rfl | hmem
        · exact ⟨entry, List.mem_cons_self, seen, hfault, rfl⟩
        · obtain ⟨other, hother, found⟩ := ih hlater hmem
          exact ⟨other, List.mem_cons_of_mem entry hother, found⟩

/-- An id without a fault is not empty. -/
theorem ne_nil_of_idFault?_eq_none (h : idFault? seen entry = none) : entry.id.trim ≠ [] := by
  intro hnil
  unfold idFault? at h
  rw [hnil] at h
  cases h

/-- A catalog of a document has the delimiters that its prefixes give, and the options that its
entries give. -/
theorem exists_settings_of_ofDocument (h : ofDocument base document = .ok catalog) :
    ∃ settings, Settings.ofDocument document = .ok settings ∧
      Delimiters.ofPairs (pairOf .plain settings.prefixes) (pairOf .encoded settings.prefixes) =
        .ok catalog.delimiters ∧
      optionsOf base [] settings.options = .ok catalog.options := by
  unfold ofDocument at h
  split at h
  · cases h
  · next settings hsettings =>
    refine ⟨settings, hsettings, ?_⟩
    unfold ofSettings at h
    dsimp only at h
    split at h
    · cases h
    · next hdelimiters =>
      split at h
      · cases h
      · next hoptions =>
        cases h
        exact ⟨hdelimiters, hoptions⟩

/-- **A catalog of a document is checked.** -/
theorem checked_of_ofDocument (h : ofDocument base document = .ok catalog) : catalog.Checked := by
  obtain ⟨settings, -, -, hoptions⟩ := exists_settings_of_ofDocument h
  refine ⟨coherent_of_ofDocument h, fun option hoption => ?_, fun option hoption => ?_⟩
  · obtain ⟨entry, -, taken, hfault, rfl⟩ := exists_entry_of_optionsOf hoptions hoption
    exact ne_nil_of_idFault?_eq_none hfault
  · obtain ⟨entry, -, taken, hfault, rfl⟩ := exists_entry_of_optionsOf hoptions hoption
    exact Text.trim_trim entry.id

/-- Only one option has the id. -/
theorem Coherent.eq_of_id_eq (coherent : catalog.Coherent) {other : NamedJob}
    (hoption : option ∈ catalog.options) (hother : other ∈ catalog.options)
    (hid : option.id = other.id) : option = other :=
  List.inj_on_of_nodup_map coherent.nodup hoption hother hid

theorem isCancel_eq_true_iff {text : Text} : isCancel text = true ↔ text = ['c'] ∨ text = ['C'] := by
  rw [isCancel, Bool.or_eq_true, beq_iff_eq, beq_iff_eq, or_comm]

end Catalog

namespace Menu

variable {options : List NamedJob} {option : NamedJob} {line : Text} {bytes rest : Bytes}

/-- A line cancels if it is the letter for that, blanks aside. -/
theorem answerTo_eq_cancel_iff :
    answerTo options line = .cancel ↔ line.trim = ['c'] ∨ line.trim = ['C'] := by
  rw [← Catalog.isCancel_eq_true_iff]
  unfold answerTo
  by_cases hcancel : Catalog.isCancel line.trim = true
  · simp [hcancel]
  · rw [if_neg hcancel]
    split <;> simp [hcancel]

/-- A line decides nothing if it is neither that letter nor an id. -/
theorem answerTo_eq_unknown_iff : answerTo options line = .unknown line ↔
    ¬ (line.trim = ['c'] ∨ line.trim = ['C']) ∧ ∀ option ∈ options, option.id ≠ line.trim := by
  rw [← Catalog.isCancel_eq_true_iff]
  unfold answerTo
  by_cases hcancel : Catalog.isCancel line.trim = true
  · simp [hcancel]
  · rw [if_neg hcancel]
    by_cases hany : options.any (·.id == line.trim) = true
    · rw [if_pos hany]
      obtain ⟨option, hoption, hid⟩ := List.any_eq_true.1 hany
      constructor
      · intro h
        cases h
      · rintro ⟨-, hids⟩
        exact absurd (beq_iff_eq.1 hid) (hids option hoption)
    · rw [if_neg hany]
      refine ⟨fun _ => ⟨hcancel, fun option hoption hid => hany ?_⟩, fun _ => rfl⟩
      exact List.any_eq_true.2 ⟨option, hoption, beq_iff_eq.2 hid⟩

/-- The first line of an input ends with its first line feed. -/
theorem firstLine_append_lineFeed (h : lineFeed ∉ bytes) (rest : Bytes) :
    firstLine (bytes ++ lineFeed :: rest) = bytes ++ [lineFeed] := by
  induction bytes with
  | nil => exact if_pos rfl
  | cons b bytes ih =>
    rw [List.mem_cons, not_or] at h
    rw [List.cons_append, firstLine, if_neg (Ne.symm h.1), ih h.2, List.cons_append]

theorem afterLine_append_lineFeed (h : lineFeed ∉ bytes) (rest : Bytes) :
    afterLine (bytes ++ lineFeed :: rest) = rest := by
  have hloses := firstLine_append_rest (bytes ++ lineFeed :: rest)
  rw [firstLine_append_lineFeed h, List.append_assoc, List.append_cancel_left_eq] at hloses
  exact (List.cons.inj hloses).2

/-- What a line says is read without the line feed. -/
theorem wordOf?_encode (text : Text) :
    wordOf? (Utf8.encode text ++ [lineFeed]) = some text.trim := by
  have hline : Utf8.encode text ++ [lineFeed] = Utf8.encode (text ++ ['\n']) := by
    rw [Utf8.encode, Utf8.encode, List.flatMap_append]
    rfl
  rw [wordOf?, hline, Utf8.decode?_encode, Option.map_some,
    Text.trim_append_of_blank (by simp [isBlank])]

end Menu

/-- A line that decides ends the menu, and nothing after it is read. -/
theorem Session.run_of_decision {options : List NamedJob} {input : Bytes}
    {result : Except IoError Selection}
    (h : Menu.decision? options (Menu.firstLine input) = some result) (afterUnknown : Bool) :
    run options afterUnknown input =
      ⟨result, [.screen afterUnknown, .prompt], Menu.afterLine input⟩ := by
  rw [run]
  split
  · next found hfound =>
    rw [h] at hfound
    cases hfound
    rfl
  · next hnone =>
    rw [h] at hnone
    cases hnone

/-- **An id on a line of its own** selects its option, and the rest of the input is left. -/
theorem Session.ofInput_id {catalog : Catalog} (checked : catalog.Checked) {option : NamedJob}
    (hoption : option ∈ catalog.options) (hfeed : '\n' ∉ option.id) (rest : Bytes) :
    ofInput catalog.options (Utf8.encode option.id ++ Menu.lineFeed :: rest) =
      ⟨.ok (.option option.id), [.screen false, .prompt], rest⟩ := by
  have hbytes := Menu.lineFeed_not_mem_encode hfeed
  have hnames : Menu.Names catalog.options (Utf8.encode option.id ++ [Menu.lineFeed]) option := by
    refine ⟨hoption, ?_⟩
    rw [Menu.wordOf?_encode, checked.trimmed option hoption]
  have hdecision := Menu.decision?_of_names (by simp) hnames (checked.not_cancel option hoption)
  rw [← Menu.firstLine_append_lineFeed hbytes rest] at hdecision
  rw [ofInput, run_of_decision hdecision, Menu.afterLine_append_lineFeed hbytes]

/-- **No option of a document is shadowed, ambiguous or out of reach.**

The ids of its catalog are proper and all different, and none is the letter for cancelling; its
delimiters are those of the document. So a line cancels if it is that letter, selects an option if
it is the id of one, which is then the only one, and decides nothing otherwise. Every option is
found by its id, as a job with just its paths, its pattern and the delimiters of the catalog, and it
is selected by a line with its id, if the id is one line. -/
theorem Catalog.selectable_of_ofDocument {base : Option Path} {document : Text} {catalog : Catalog}
    (h : ofDocument base document = .ok catalog) :
    (∀ option ∈ catalog.options, option.id ≠ [] ∧ option.id.trim = option.id ∧
      option.id ≠ ['c'] ∧ option.id ≠ ['C']) ∧
    (catalog.options.map NamedJob.id).Nodup ∧
    (∃ settings, Settings.ofDocument document = .ok settings ∧
      catalog.delimiters.plain = pairOf .plain settings.prefixes ∧
      catalog.delimiters.encoded = pairOf .encoded settings.prefixes ∧
      (pairOf .plain settings.prefixes).Proper ∧ (pairOf .encoded settings.prefixes).Proper ∧
      pairOf .plain settings.prefixes ≠ pairOf .encoded settings.prefixes) ∧
    (∀ line,
      (Menu.answerTo catalog.options line = .cancel ↔ line.trim = ['c'] ∨ line.trim = ['C']) ∧
      (∀ id, Menu.answerTo catalog.options line = .chosen id ↔
        ∃! option, option ∈ catalog.options ∧ line.trim = option.id ∧ id = option.id) ∧
      (Menu.answerTo catalog.options line = .unknown line ↔
        ¬ (line.trim = ['c'] ∨ line.trim = ['C']) ∧
          ∀ option ∈ catalog.options, line.trim ≠ option.id)) ∧
    ∀ option ∈ catalog.options,
      catalog.find? option.id = some option ∧
      catalog.job option.id = .ok ⟨option.templateFolder, option.outputFolder, option.variableFile,
        option.searchPattern, catalog.delimiters⟩ ∧
      ('\n' ∉ option.id → ∀ rest,
        let session :=
          Session.ofInput catalog.options (Utf8.encode option.id ++ Menu.lineFeed :: rest)
        session.result = .ok (.option option.id) ∧ session.unread = rest) := by
  have checked := checked_of_ofDocument h
  obtain ⟨settings, hsettings, hdelimiters, -⟩ := exists_settings_of_ofDocument h
  have hpairs := Delimiters.pairs_of_ofPairs hdelimiters
  have hproper := Delimiters.ofPairs_isOk_iff.1 ⟨_, hdelimiters⟩
  refine ⟨fun option hoption => ?_, checked.nodup,
    ⟨settings, hsettings, hpairs.1, hpairs.2, hproper⟩, fun line => ⟨?_, fun id => ?_, ?_⟩,
    fun option hoption => ⟨?_, ?_, fun hfeed rest => ?_⟩⟩
  · have hcancel := checked.not_cancel option hoption
    rw [← Bool.not_eq_true, isCancel_eq_true_iff, not_or] at hcancel
    exact ⟨checked.ne_nil option hoption, checked.trimmed option hoption, hcancel⟩
  · exact Menu.answerTo_eq_cancel_iff
  · rw [answerTo_eq_chosen_iff]
    constructor
    · rintro ⟨rfl, -, option, hoption, hid⟩
      refine ⟨option, ⟨hoption, hid.symm, hid.symm⟩, fun other hother => ?_⟩
      exact checked.eq_of_id_eq hother.1 hoption (hother.2.1.symm.trans hid.symm)
    · rintro ⟨option, ⟨hoption, hline, rfl⟩, -⟩
      exact ⟨hline.symm, checked.not_cancel option hoption, option, hoption, rfl⟩
  · rw [Menu.answerTo_eq_unknown_iff]
    simp only [ne_comm]
  · exact find?_of_nodup checked.nodup hoption
  · exact checked.job_eq hoption
  · intro session
    have hsession : session = _ := Session.ofInput_id checked hoption hfeed rest
    rw [hsession]
    exact ⟨rfl, rfl⟩

/-- An id of two words is found by both of them, and not by the first. -/
theorem Catalog.selectable_of_ofDocument_words :
    let document := Fixture.catalogText
      [([' ', 'a', ' ', 'b'], "first", ['*']), (['b'], "second", ['*'])]
    let catalog : Catalog := ⟨.standard,
      [⟨['a', ' ', 'b'], "first", .ofText "templates", .ofText "out", .ofText "vars.txt", ['*']⟩,
        ⟨['b'], "second", .ofText "templates", .ofText "out", .ofText "vars.txt", ['*']⟩]⟩
    ofDocument none document = .ok catalog ∧
      Menu.answerTo catalog.options ['\t', 'a', ' ', 'b'] = .chosen ['a', ' ', 'b'] ∧
      Menu.answerTo catalog.options ['a'] = .unknown ['a'] ∧
      ∀ option ∈ catalog.options, catalog.find? option.id = some option ∧
        ('\n' ∉ option.id → (Session.ofInput catalog.options
          (Utf8.encode option.id ++ [Menu.lineFeed])).result = .ok (.option option.id)) := by
  intro document catalog
  have hdocument : ofDocument none document = .ok catalog := by decide +kernel
  obtain ⟨-, -, -, hlines, hoptions⟩ := selectable_of_ofDocument hdocument
  have hchosen : Menu.answerTo catalog.options ['\t', 'a', ' ', 'b'] = .chosen ['a', ' ', 'b'] := by
    have honly : ∀ other ∈ catalog.options,
        other.id = ['a', ' ', 'b'] → other = catalog.options[0] := by decide +kernel
    apply ((hlines _).2.1 _).2
    exact ⟨catalog.options[0], by decide +kernel, fun other h => honly other h.1 h.2.2.symm⟩
  have hunknown : Menu.answerTo catalog.options ['a'] = .unknown ['a'] :=
    (hlines ['a']).2.2.2 (by decide +kernel)
  refine ⟨hdocument, hchosen, hunknown, fun option hoption => ?_⟩
  obtain ⟨hfind, -, hsession⟩ := hoptions option hoption
  exact ⟨hfind, fun hfeed => (hsession hfeed []).1⟩

end Stencil
