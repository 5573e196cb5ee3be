import Mathlib.Data.List.Forall2
import Stencil.Fixture
import Stencil.Proofs.Choosing
import Stencil.Proofs.DiskWriting
import Stencil.Proofs.Parents
import Stencil.Proofs.WrittenSettings

/-!
# The catalog of a fixture

The catalog that a fixture writes is loaded as the options that it was written for. The values can
hold blanks, line breaks, brackets and single quotes; the root of the fixture can be spelled in any
way, since the folder above the catalog is the root whatever its spelling.

* `Fixture.ofDocument_catalogText`: the settings in the document of a fixture.
* `Fixture.loadCatalog_of_writeCatalog`: **the catalog of a fixture is loaded as it was meant.**
-/

namespace Stencil

open Markup Catalog

namespace Catalog

variable {base : Option Path} {entries : List OptionEntry}

/-- Without prefixes a catalog has the standard delimiters. -/
theorem ofSettings_of_options {options : List NamedJob}
    (h : optionsOf base [] entries = .ok options) :
    ofSettings base ⟨[], entries⟩ = .ok ⟨.standard, options⟩ := by
  have hpairs : Delimiters.ofPairs (pairOf .plain []) (pairOf .encoded []) = .ok .standard := by
    decide
  simp only [ofSettings, hpairs, h]

/-- A value in a catalog is seen from the folder above its file, be that the empty path. -/
theorem resolve_filter (folder : Path) (value : Text) :
    resolve ((some folder).filter fun folder => !folder.bytes.isEmpty) value =
      folder.join (.ofText value) := by
  by_cases hnil : folder.bytes = []
  · have hnone : (some folder).filter (fun folder => !folder.bytes.isEmpty) = none := by
      simp [Option.filter, hnil]
    rw [hnone]
    simp [resolve, Path.join, hnil]
  · have hsome : (some folder).filter (fun folder => !folder.bytes.isEmpty) = some folder := by
      simp [Option.filter, hnil]
    rw [hsome]
    rfl

end Catalog

namespace Fixture

variable {options : List (Text × Text × Text)} {option : Text × Text × Text}

/-- The entry that a fixture writes for an option. -/
def entryOf (option : Text × Text × Text) : OptionEntry where
  id := option.1
  name := option.2.1
  templateFolder := "templates"
  outputFolder := "out"
  variableFile := "vars.txt"
  searchPattern := option.2.2

/-- The id, the name and the pattern can stand in quotes. -/
structure Quotable (option : Text × Text × Text) : Prop where
  id : Attribute.Quotable option.1
  name : Attribute.Quotable option.2.1
  searchPattern : Attribute.Quotable option.2.2

theorem Quotable.simple (h : Quotable option) :
    ∀ item ∈ (entryOf option).attributes, item.Simple := by
  refine OptionEntry.simple_attributes fun item hitem => ?_
  simp only [OptionEntry.attributes, entryOf, List.mem_cons, List.not_mem_nil, or_false] at hitem
  rcases hitem with rfl | rfl | rfl | rfl | rfl | rfl
  · exact h.id
  · exact h.name
  · exact ⟨by decide, by decide⟩
  · exact ⟨by decide, by decide⟩
  · exact ⟨by decide, by decide⟩
  · exact h.searchPattern

/-- What follows the name in the tag of an option. -/
def rowOf (option : Text × Text × Text) : Text :=
  Attribute.writeRow (entryOf option).attributes ++ [' ']

/-- The element that a fixture writes for an option. -/
def elementOf (option : Text × Text × Text) : Node := .element "Option" (rowOf option) []

/-- The line of an option is an empty element, between blanks. -/
theorem optionLine_append (option : Text × Text × Text) (rest : Text) :
    '\n' :: (optionLine option ++ rest) =
      "\n    ".toList ++
        '<' :: ("Option".toList ++ rowOf option ++ '/' :: '>' :: '\n' :: rest) := by
  simp [optionLine, Text.concat, rowOf, Attribute.writeRow, Attribute.write, OptionEntry.attributes,
    entryOf]

/-- The lines of the options write their elements. -/
theorem written_options (h : ∀ option ∈ options, Quotable option) :
    Node.Written ('\n' :: (options.flatMap optionLine ++ "  ".toList))
      (onLines "\n    " "\n  " (options.map elementOf)) := by
  induction options with
  | nil =>
    have hlast : Node.Written ("\n  ".toList ++ []) [.text "\n  "] :=
      .text (by decide) (by decide) (by simp) .nil
    exact hlast
  | cons option options ih =>
    obtain ⟨hoption, hoptions⟩ := List.forall_mem_cons.1 h
    have hrow := isRow_writeRow hoption.simple
    rw [List.flatMap_cons, List.append_assoc, optionLine_append, List.map_cons, onLines_cons]
    exact .text (by decide) (by decide) (by simp) (.empty (by decide) hrow (ih hoptions))

/-- **The catalog of a fixture writes one list of options.** -/
theorem written_catalogText (h : ∀ option ∈ options, Quotable option) :
    Node.Written (catalogText options)
      [.element "Settings" [] (onLines "\n  " "\n" [.element "Options" []
        (onLines "\n    " "\n  " (options.map elementOf))]), .text "\n"] := by
  have htext : catalogText options = '<' :: ("Settings".toList ++ [] ++ '>' :: (("\n  ".toList ++
      '<' :: ("Options".toList ++ [] ++ '>' :: (('\n' :: (options.flatMap optionLine ++
        "  ".toList)) ++ '<' :: '/' :: ("Options".toList ++ '>' :: ("\n".toList ++ []))))) ++
      '<' :: '/' :: ("Settings".toList ++ '>' :: ("\n".toList ++ [])))) := by
    simp [catalogText, Text.concat]
  have hbreak : Node.Written ("\n".toList ++ []) [.text "\n"] :=
    .text (by decide) (by decide) (by simp) .nil
  rw [htext]
  exact .element (by decide) isRow_nil
    (.text (by decide) (by decide) (by simp)
      (.element (by decide) isRow_nil (written_options h) hbreak)) hbreak

/-- The settings in the document of a fixture. -/
theorem ofDocument_catalogText (h : ∀ option ∈ options, Quotable option) :
    Settings.ofDocument (catalogText options) = .ok ⟨[], options.map entryOf⟩ := by
  have hentries : (entriesOf "Option" OptionEntry.ofElement .before
      (onLines "\n    " "\n  " (options.map elementOf))).run [[], []] =
      .ok (options.map entryOf, [[], []]) :=
    entriesOf_onLines
      (fun option hoption => OptionEntry.ofElement_attributes (h option hoption).simple (by decide))
      (by decide) (by decide) (by decide) (.inl rfl)
  have hmark : (catalogText options).dropMark = catalogText options := rfl
  rw [Settings.ofDocument, hmark, (written_catalogText h).ofDocument_eq]
  exact Settings.ofNodes_options (by decide) (by decide) hentries

/-- The catalog in the document of a fixture, seen from a folder. -/
theorem catalog_catalogText (base : Option Path) (h : ∀ option ∈ options, Quotable option)
    (hids : ∀ option ∈ options, option.1.trim ≠ [] ∧ isCancel option.1.trim = false)
    (hnodup : (options.map fun option => option.1.trim).Nodup) :
    Catalog.ofDocument base (catalogText options) =
      .ok ⟨.standard, options.map fun option => optionOf base (entryOf option)⟩ := by
  have hoptions : optionsOf base [] (options.map entryOf) =
      .ok (options.map fun option => optionOf base (entryOf option)) := by
    rw [optionsOf_eq_map, List.map_map]
    · rfl
    · intro entry hentry
      obtain ⟨option, hoption, rfl⟩ := List.mem_map.1 hentry
      exact hids option hoption
    · rw [List.map_map]
      exact hnodup
    · exact fun _ _ => List.not_mem_nil
  rw [Catalog.ofDocument, ofDocument_catalogText h]
  exact ofSettings_of_options hoptions

/-- An option that was loaded is the one of the fixture: its id is trimmed, its name and its pattern
are as they were written, and its paths are those of the fixture, however they are spelled. -/
structure Offers (fixture : Fixture) (option : Text × Text × Text) (loaded : NamedJob) : Prop where
  id : loaded.id = option.1.trim
  name : loaded.name = option.2.1
  searchPattern : loaded.searchPattern = option.2.2
  templateFolder : loaded.templateFolder.Same fixture.templateFolder
  outputFolder : loaded.outputFolder.Same fixture.outputFolder
  variableFile : loaded.variableFile.Same fixture.variableFile

/-- The paths of an option are seen from the root, of which the folder above the catalog is one
spelling. -/
theorem offers_optionOf (fixture : Fixture) (option : Text × Text × Text) :
    fixture.Offers option
      (optionOf (fixture.catalogFile.parent?.filter fun folder => !folder.bytes.isEmpty)
        (entryOf option)) := by
  have hfile : (Utf8.encode "Options.xml").IsFileName := by decide
  obtain ⟨folder, hparent, hsame⟩ : ∃ folder, fixture.catalogFile.parent? = some folder ∧
      folder.Same fixture.root := Path.parent?_join fixture.root hfile
  have hpath : ∀ name : Text, (Utf8.encode name).IsFileName →
      (resolve (fixture.catalogFile.parent?.filter fun folder => !folder.bytes.isEmpty) name).Same
        (fixture.root.join (.ofText name)) := by
    intro name hname
    rw [hparent, resolve_filter]
    exact hsame.join hname
  exact ⟨rfl, rfl, rfl, hpath "templates" (by decide), hpath "out" (by decide),
    hpath "vars.txt" (by decide)⟩

/-- **The catalog of a fixture is loaded as it was meant**, at any desk whose disk is a tree, over
whatever links its path leads: with the standard delimiters, and with one option for each that was
written, in their order. The ids have to be distinct and not empty without the blanks around them,
and must not cancel; nothing is asked of the spelling of the root. -/
theorem loadCatalog_of_writeCatalog (fixture : Fixture) {engine : Engine} {desk : Desk} {after : Disk}
    (sound : desk.disk.Sound)
    (hwrite : fixture.writeCatalog desk.disk desk.folder options = .ok after)
    (h : ∀ option ∈ options, Quotable option)
    (hids : ∀ option ∈ options, option.1.trim ≠ [] ∧ isCancel option.1.trim = false)
    (hnodup : (options.map fun option => option.1.trim).Nodup) :
    ∃ catalog, (((Desk.workspace engine).loadCatalog fixture.catalogFile).run.run
        { desk with disk := after }).1 = .ok catalog ∧
      catalog.delimiters = .standard ∧
      List.Forall₂ fixture.Offers options catalog.options := by
  have hbytes : desk.disk.writeBytes desk.folder fixture.catalogFile
      (Utf8.encode (catalogText options)) = .ok after := by
    unfold writeCatalog writeText at hwrite
    cases hresult : desk.disk.writeBytes desk.folder fixture.catalogFile
        (Utf8.encode (catalogText options)) with
    | error cause =>
      rw [hresult] at hwrite
      cases hwrite
    | ok written =>
      rw [hresult] at hwrite
      cases hwrite
      rfl
  have hread : Desk.textAt fixture.catalogFile after desk.folder = .ok (catalogText options) := by
    have hmark : (catalogText options).head? ≠ some byteOrderMark := by
      have hhead : (catalogText options).head? = some '<' := rfl
      rw [hhead]
      decide
    rw [Desk.textAt, sound.readBytes_of_writeBytes hbytes, Except.map, Storage.textOf_encode hmark]
  refine ⟨_, (Desk.loadCatalog_eq_ok_iff hread).2 (catalog_catalogText _ h hids hnodup), rfl, ?_⟩
  rw [List.forall₂_map_right_iff, List.forall₂_same]
  exact fun option _ => fixture.offers_optionOf option

/-- A desk at which a link leads to the folder of a fixture. -/
def linked : Desk where
  disk := ⟨[([Utf8.encode "jobs"], .folder), ([Utf8.encode "here"], .link (Utf8.encode "jobs"))]⟩

theorem linked_sound : linked.disk.Sound := Disk.sound_of_entries (by decide) (by decide)

/-- The catalog is written and read over the link, from a root that is spelled with a dot and with
two slashes, for values with blanks, a line break, brackets and quotes. -/
theorem loadCatalog_of_writeCatalog_linked :
    let fixture : Fixture := ⟨.ofText "./here//"⟩
    let options : List (Text × Text × Text) :=
      [(" 1\t", "a > b\n= 'c'", "*.t<>t"), ("c1", [], "*")]
    let after := linked.disk.put [Utf8.encode "Options.xml", Utf8.encode "jobs"]
      (.file (Utf8.encode (catalogText options)))
    (linked.disk.Sound ∧ fixture.writeCatalog linked.disk linked.folder options = .ok after ∧
      (∀ option ∈ options, Quotable option) ∧
      (∀ option ∈ options, option.1.trim ≠ [] ∧ isCancel option.1.trim = false) ∧
      (options.map fun option => option.1.trim).Nodup) ∧
    ∃ catalog, (((Desk.workspace .unbounded).loadCatalog fixture.catalogFile).run.run
        { linked with disk := after }).1 = .ok catalog ∧
      catalog.delimiters = .standard ∧
      List.Forall₂ fixture.Offers options catalog.options := by
  intro fixture options after
  have hwrite : fixture.writeCatalog linked.disk linked.folder options = .ok after := by
    decide +kernel
  have hquotable : ∀ option ∈ options, Quotable option := by
    intro option hoption
    simp only [options, List.mem_cons, List.not_mem_nil, or_false] at hoption
    rcases hoption with rfl | rfl
    · exact ⟨⟨by decide, by decide⟩, ⟨by decide, by decide⟩, ⟨by decide, by decide⟩⟩
    · exact ⟨⟨by decide, by decide⟩, ⟨by decide, by decide⟩, ⟨by decide, by decide⟩⟩
  have hids : ∀ option ∈ options, option.1.trim ≠ [] ∧ isCancel option.1.trim = false := by
    decide
  have hnodup : (options.map fun option => option.1.trim).Nodup := by decide
  exact ⟨⟨linked_sound, hwrite, hquotable, hids, hnodup⟩,
    loadCatalog_of_writeCatalog fixture linked_sound hwrite hquotable hids hnodup⟩

end Fixture

end Stencil
