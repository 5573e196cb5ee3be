import Stencil.Catalog.Settings
import Stencil.Keyed
import Stencil.Proofs.WrittenMarkup

/-!
# Settings that are written

An entry can be written as the attributes of an empty element, and entries on lines of their own. So
written, they are read back.

* `field_of_mem`: a field is read from the attribute of its name.
* `OptionEntry.ofElement_attributes`: **an entry is read from the attributes that it is written
  as.**
* `entriesOf_onLines`: **entries on lines of their own are read one by one**, in their order.
* `Settings.ofNodes_options`: a document with nothing but a list of options.
-/

namespace Stencil.Catalog

open Markup

variable {wanted : List Text} {items : List Attribute} {found : List (Text × Text)} {blanks : Text}
  {scopes : Scopes}

/-- The name of an attribute with its value. -/
def pairOfAttribute (item : Attribute) : Text × Text := (item.name, item.value)

theorem valuesOf_simple (h : ∀ item ∈ items, item.Simple)
    (hwanted : ∀ item ∈ items, item.name ∈ wanted) (hnodup : (items.map Attribute.name).Nodup)
    (hnew : ∀ item ∈ items, item.name ∉ found.map Prod.fst) :
    valuesOf wanted found items = .ok (found ++ items.map pairOfAttribute) := by
  induction items generalizing found with
  | nil => simp [valuesOf]
  | cons item items ih =>
    obtain ⟨hitem, hitems⟩ := List.forall_mem_cons.1 h
    obtain ⟨hwantedItem, hwantedItems⟩ := List.forall_mem_cons.1 hwanted
    obtain ⟨hnewItem, hnewItems⟩ := List.forall_mem_cons.1 hnew
    rw [List.map_cons, List.nodup_cons] at hnodup
    have hlookup : found.lookup item.name = none := by
      rw [List.lookup_eq_none_iff]
      intro pair hpair
      rw [bne_iff_ne]
      rintro heq
      exact hnewItem (heq ▸ List.mem_map_of_mem hpair)
    have hlater : ∀ other ∈ items,
        other.name ∉ (found ++ [pairOfAttribute item]).map Prod.fst := by
      intro other hother hmem
      rw [List.map_append, List.mem_append] at hmem
      rcases hmem with hmem | hmem
      · exact hnewItems other hother hmem
      · -- the name would come twice
        have heq : other.name = item.name := by simpa [pairOfAttribute] using hmem
        exact hnodup.1 (heq ▸ List.mem_map_of_mem hother)
    have hvalues := ih hitems hwantedItems hnodup.2 hlater
    unfold valuesOf
    simp only [hitem.localName_eq, hwantedItem, not_true_eq_false, if_false, hlookup,
      Option.isSome_none, expand?_eq_self hitem.value.literal]
    exact hvalues.trans (by simp [pairOfAttribute])

section Row

variable (h : ∀ item ∈ items, item.Simple) (hnodup : (items.map Attribute.name).Nodup)
  (hwanted : ∀ item ∈ items, item.name ∈ wanted) (hblanks : ∀ c ∈ blanks, isSpace c = true)

include h hnodup hwanted hblanks

theorem tagValues_writeRow :
    tagValues wanted (Attribute.writeRow items ++ blanks) = .ok (items.map pairOfAttribute) := by
  have hvalues : valuesOf wanted [] items = .ok ([] ++ items.map pairOfAttribute) :=
    valuesOf_simple h hwanted hnodup fun _ _ => List.not_mem_nil
  rw [tagValues, Attribute.row_writeRow h hnodup hblanks]
  simp [hvalues, bind, Except.bind, pure, Except.pure]

/-- The fields of an empty element are its attributes. -/
theorem recordValues_writeRow (scopes : Scopes) :
    (recordValues wanted (Attribute.writeRow items ++ blanks) []).run scopes =
      .ok (items.map pairOfAttribute, scopes) := by
  have hdeclared := Scopes.declarations?_writeRow h hnodup hblanks
  have hvalues := tagValues_writeRow h hnodup hwanted hblanks
  unfold recordValues enter
  rw [hdeclared, hvalues]
  rfl

end Row

/-- A field is read from the attribute of its name. -/
theorem field_of_mem (hnodup : (items.map Attribute.name).Nodup) {item : Attribute}
    (h : item ∈ items) : field item.name (items.map pairOfAttribute) = .ok item.value := by
  have hkeys : ((items.map pairOfAttribute).map Prod.fst).Nodup := by
    rw [List.map_map]
    exact hnodup
  have hlookup := lookup_eq_some_of_mem hkeys (List.mem_map_of_mem (f := pairOfAttribute) h)
  unfold field
  rw [show (items.map pairOfAttribute).lookup item.name = some item.value from hlookup]

/-- The attributes that an entry is written as. -/
def OptionEntry.attributes (entry : OptionEntry) : List Attribute :=
  [⟨"Id", entry.id⟩, ⟨"Name", entry.name⟩, ⟨"TemplateFolder", entry.templateFolder⟩,
    ⟨"OutputFolder", entry.outputFolder⟩, ⟨"VariableFile", entry.variableFile⟩,
    ⟨"SearchPattern", entry.searchPattern⟩]

theorem OptionEntry.nodup_fields : fields.Nodup := by decide

theorem OptionEntry.simple_fields : ∀ name ∈ fields, isSimpleName name = true := by decide

theorem OptionEntry.mem_fields {entry : OptionEntry} {item : Attribute}
    (h : item ∈ entry.attributes) : item.name ∈ fields :=
  List.mem_map_of_mem (f := Attribute.name) h

/-- The attributes of an entry are simple if its values can stand in quotes. -/
theorem OptionEntry.simple_attributes {entry : OptionEntry}
    (h : ∀ item ∈ entry.attributes, Attribute.Quotable item.value) :
    ∀ item ∈ entry.attributes, item.Simple :=
  fun item hitem => ⟨simple_fields item.name (mem_fields hitem), h item hitem⟩

/-- **An entry is read from the attributes that it is written as.** -/
theorem OptionEntry.ofElement_attributes {entry : OptionEntry}
    (h : ∀ item ∈ entry.attributes, item.Simple) (hblanks : ∀ c ∈ blanks, isSpace c = true) :
    (ofElement (Attribute.writeRow entry.attributes ++ blanks) []).run scopes =
      .ok (entry, scopes) := by
  have hnodup : (entry.attributes.map Attribute.name).Nodup := nodup_fields
  have hfound := recordValues_writeRow h hnodup (fun item => mem_fields) hblanks scopes
  have hfield : ∀ name value, ⟨name, value⟩ ∈ entry.attributes →
      field name (entry.attributes.map pairOfAttribute) = .ok value :=
    fun name value hmem => field_of_mem hnodup hmem
  unfold ofElement
  rw [StateT.run_bind, hfound]
  simp only [bind, Except.bind]
  rw [hfield "Id" entry.id (by simp [attributes]), hfield "Name" entry.name (by simp [attributes]),
    hfield "TemplateFolder" entry.templateFolder (by simp [attributes]),
    hfield "OutputFolder" entry.outputFolder (by simp [attributes]),
    hfield "VariableFile" entry.variableFile (by simp [attributes]),
    hfield "SearchPattern" entry.searchPattern (by simp [attributes])]
  rfl

/-- Elements on lines of their own: the text `indent` before each of them, the text `last` after
them. -/
def onLines (indent last : Text) (elements : List Node) : List Node :=
  elements.flatMap (fun element => [.text indent, element]) ++ [.text last]

theorem onLines_cons (indent last : Text) (element : Node) (elements : List Node) :
    onLines indent last (element :: elements) =
      .text indent :: element :: onLines indent last elements := rfl

theorem pass_blank {written : Text} (h : written.all isSpace = true) :
    pass (.text written) = pure () := by
  have hplain : '&' ∉ written := by
    intro hmem
    have hspace := List.all_eq_true.1 h '&' hmem
    cases hspace
  have htext : (Node.text written).text? = some written := expand?_eq_self hplain
  change (if (Node.text written).text?.isNone then throw .malformed else pure () : Scan Unit) = _
  rw [htext]
  rfl

section Entries

variable {α : Type} {label written indent last : Text} {ofElement : Text → List Node → Scan α}
  {progress : Progress} {nodes : List Node}

/-- Blanks between entries are passed over. -/
theorem entriesOf_blank (h : written.all isSpace = true) :
    entriesOf label ofElement progress (.text written :: nodes) =
      entriesOf label ofElement progress nodes := by
  cases progress with
  | before =>
    change (do
      pass (.text written)
      entriesOf label ofElement .before nodes) = _
    rw [pass_blank h, pure_bind]
  | inside name => rw [entriesOf, if_pos h]
  | past =>
    change (do
      pass (.text written)
      entriesOf label ofElement .past nodes) = _
    rw [pass_blank h, pure_bind]

/-- An element with the label as its full name is an entry, if the list has begun with no other
name. -/
theorem entriesOf_entry {row : Text} {content : List Node}
    (hprogress : progress = .before ∨ progress = .inside label)
    (hlabel : Node.localPart label = label) :
    entriesOf label ofElement progress (.element label row content :: nodes) =
      (do
        let entry ← ofElement row content
        return entry :: (← entriesOf label ofElement (.inside label) nodes)) := by
  rcases hprogress with rfl | rfl
  · rw [entriesOf, if_pos hlabel]
  · rw [entriesOf, if_pos rfl]

/-- **Entries on lines of their own are read one by one**, in their order. -/
theorem entriesOf_onLines {β : Type} {items : List β} {row : β → Text} {entry : β → α}
    (hentry : ∀ item ∈ items, (ofElement (row item) []).run scopes = .ok (entry item, scopes))
    (hlabel : Node.localPart label = label) (hindent : indent.all isSpace = true)
    (hlast : last.all isSpace = true) (hprogress : progress = .before ∨ progress = .inside label) :
    (entriesOf label ofElement progress
      (onLines indent last (items.map fun item => .element label (row item) []))).run scopes =
      .ok (items.map entry, scopes) := by
  induction items generalizing progress with
  | nil =>
    have honly : onLines indent last [] = [.text last] := rfl
    rw [List.map_nil, honly, entriesOf_blank hlast]
    unfold entriesOf
    rfl
  | cons item items ih =>
    obtain ⟨hitem, hitems⟩ := List.forall_mem_cons.1 hentry
    have hlater := ih hitems (.inr rfl)
    rw [List.map_cons, onLines_cons, entriesOf_blank hindent, entriesOf_entry hprogress hlabel,
      StateT.run_bind, hitem]
    -- the entry is put before those that are read after it
    have hrest : (do
        return entry item :: (← entriesOf label ofElement (.inside label)
          (onLines indent last (items.map fun item => .element label (row item) []))) :
          Scan (List α)).run scopes = .ok (entry item :: items.map entry, scopes) := by
      rw [StateT.run_bind, hlater]
      rfl
    exact hrest

end Entries

/-- A tag without attributes opens a scope in which nothing is declared. -/
theorem enter_nil (scopes : Scopes) : (enter []).run scopes = .ok ((), [] :: scopes) := by
  have hdeclared : Scopes.declarations? [] = some [] := by
    refine Scopes.declarations?_of_none fun item hitem => ?_
    rw [Attribute.leading, Attribute.items_of_blank false [] (by simp)] at hitem
    cases hitem
  unfold enter
  rw [hdeclared]
  rfl

/-- Without attributes nothing says that an element is absent. -/
theorem isAbsent_nil (content : List Node) (scopes : Scopes) :
    (isAbsent [] [] content).run scopes = .ok (false, scopes) := by
  have hnone : ∀ scopes, Scopes.isAbsent scopes [] = false := by
    intro scopes
    rw [Scopes.isAbsent, Attribute.sound, Attribute.items_of_blank true [] (by simp)]
    rfl
  unfold isAbsent
  simp only [hnone]
  rfl

/-- The content of a list element without attributes is read for its entries. -/
theorem listOf_plain {α : Type} {label : Text} {ofElement : Text → List Node → Scan α}
    {content : List Node} {entries : List α}
    (h : (entriesOf label ofElement .before content).run ([] :: scopes) =
      .ok (entries, [] :: scopes)) :
    (listOf label ofElement [] [] content).run scopes = .ok (entries, scopes) := by
  have htag : tagValues [] [] = .ok [] := tagValues_of_none [] (by simp)
  simp only [listOf, StateT.run_bind, enter_nil, isAbsent_nil, htag]
  -- the list is not absent, and its tag has no values
  change (do
    let entries ← entriesOf label ofElement .before content
    leave
    return entries : Scan (List α)).run ([] :: scopes) = .ok (entries, scopes)
  rw [StateT.run_bind, h]
  rfl

/-- Blanks between lists are passed over. -/
theorem listsOf_blank {outer written : Text} {prefixes : Option (List PrefixEntry)}
    {options : Option (List OptionEntry)} {nodes : List Node} (h : written.all isSpace = true) :
    listsOf outer prefixes options (.text written :: nodes) =
      listsOf outer prefixes options nodes := by
  change (do
    pass (.text written)
    listsOf outer prefixes options nodes) = _
  rw [pass_blank h, pure_bind]

/-- **A document with nothing but a list of options** has their entries as its settings. -/
theorem Settings.ofNodes_options {name before after final : Text} {content : List Node}
    {entries : List OptionEntry} (hbefore : before.all isSpace = true)
    (hafter : after.all isSpace = true)
    (h : (entriesOf "Option" OptionEntry.ofElement .before content).run [[], []] =
      .ok (entries, [[], []])) :
    (Settings.ofNodes [.element name [] (onLines before after [.element "Options" [] content]),
      .text final]).run' [] = .ok ⟨[], entries⟩ := by
  have hlists : (listsOf [] none none
      (onLines before after [.element "Options" [] content])).run [[]] =
      .ok (⟨[], entries⟩, [[]]) := by
    rw [onLines_cons, listsOf_blank hbefore, listsOf, if_neg (by decide), if_pos (by decide)]
    -- no list of options was met before
    change (do
      let entries ← listOf "Option" OptionEntry.ofElement [] [] content
      listsOf [] none (some entries) [.text after] : Scan Settings).run [[]] = _
    rw [StateT.run_bind, listOf_plain h]
    change (listsOf [] none (some entries) [.text after]).run [[]] = _
    rw [listsOf_blank hafter]
    rfl
  have hnodes : (Settings.ofNodes [.element name []
      (onLines before after [.element "Options" [] content]), .text final]).run [] =
      .ok (⟨[], entries⟩, [[]]) := by
    have htag : tagValues [] [] = .ok [] := tagValues_of_none [] (by simp)
    unfold ofNodes
    simp only [Node.dropIdle, StateT.run_bind, enter_nil, htag]
    exact hlists
  exact congrArg (fun answer => Prod.fst <$> answer) hnodes

end Stencil.Catalog
