import Stencil.Proofs.FaultyReplay
import Stencil.Proofs.Filling
import Stencil.Proofs.Outputs

/-!
# Templates that fit

Templates of different names are not in each other's way: no output is put in the place of a
template of another name, and none takes the place of another output. So it is settled when the
output folder is made which of them can be rendered, and to what.

* `Rendered.Fits`: what lets a template be rendered.
* `Rendered.leads_calls_iff`: **a template is rendered exactly if it fits.**
* `Rendered.fits_fill_iff`: outputs of other names make no difference to it.
* `Rendered.fits_of_leads`: templates that are rendered one after the other fitted at first.
* `RendersAll.exists_done`: **templates that fit at first are all rendered.**
-/

namespace Stencil

variable {faults : Faults} {job : Job} {store : Variables}
  {folder target : Disk.Location} {disk after : Disk} {templates : List Path}
  {calls : List Call}

/-- The output folder is there, on a disk without links. -/
structure Disk.Opens (disk : Disk) (job : Job) (folder target : Disk.Location) : Prop where
  plain : disk.Plain
  stands : disk.Denotes folder job.outputFolder target
  isFolder : disk.node? target = some .folder

/-- Outputs that are put into the output folder leave it there. -/
theorem Disk.Opens.fill {files : List (Bytes × Bytes)} (h : disk.Opens job folder target)
    (hvacant : disk.Vacant target (files.map Prod.fst)) :
    (disk.fill target files).Opens job folder target where
  plain := (keepsRoutes_fill h.plain hvacant).plain
  stands := h.stands.keep (keepsRoutes_fill h.plain hvacant)
  isFolder := by
    rw [fill_node?_of_ne fun name _ => (List.cons_ne_self _ target).symm]
    exact h.isFolder

namespace Rendered

/-- What is written into the output: the template rendered, and what a fault adds to it. -/
def written (faults : Faults) (job : Job) (store : Variables) (rendered : Rendered) : Text :=
  job.delimiters.render store rendered.text ++ faults.appended (rendered.output job).path

/-- The file that is put into the output folder, by its name and its content. -/
def file (faults : Faults) (job : Job) (store : Variables) (rendered : Rendered) : Bytes × Bytes :=
  (rendered.name, Utf8.encode (rendered.written faults job store))

/-- What lets a template be rendered into the folder: it can be read, and its output can be
written. -/
structure Fits (faults : Faults) (job : Job) (folder target : Disk.Location) (disk : Disk)
    (rendered : Rendered) : Prop where
  readable : faults.textAt rendered.template disk folder = .ok rendered.text
  writable : faults.unwritable? (rendered.output job).path = none
  usable : Disk.unusable? (rendered.output job).path = none
  short : rendered.name.length ≤ Disk.longestName
  free : disk.hasFolder (rendered.name :: target) = false

variable {rendered : Rendered} {done : List Rendered} {files : List (Bytes × Bytes)}

theorem fst_files (done : List Rendered) :
    (done.map (Rendered.file faults job store)).map Prod.fst = done.map Rendered.name := by
  rw [List.map_map]
  rfl

/-- The names of templates that were rendered. -/
theorem filterMap_fileName? (done : List Rendered) :
    (done.map Rendered.template).filterMap Path.fileName? = done.map Rendered.name := by
  induction done with
  | nil => rfl
  | cons first done ih => rw [List.map_cons, List.filterMap_cons_some first.named, ih, List.map_cons]

theorem vacant_of_fits (store : Variables)
    (h : ∀ rendered ∈ done, rendered.Fits faults job folder target disk) :
    disk.Vacant target ((done.map (Rendered.file faults job store)).map Prod.fst) := by
  intro name hname
  rw [fst_files] at hname
  obtain ⟨rendered, hmem, rfl⟩ := List.mem_map.1 hname
  exact (h rendered hmem).free

/-- The output of a template that fits can be written, whatever it says. -/
theorem Fits.writing_eq (h : rendered.Fits faults job folder target disk)
    (hopens : disk.Opens job folder target) (text : Text) :
    faults.writing (rendered.output job).path text disk folder =
      (.ok (), disk.put (rendered.name :: target)
        (.file (Utf8.encode (text ++ faults.appended (rendered.output job).path)))) := by
  have hname := Path.isFileName_of_fileName? rendered.named
  refine Faults.writing_eq_ok_iff.2 ⟨h.writable, ?_⟩
  exact (Disk.writeBytes_join_iff hopens.plain hopens.stands hopens.isFolder hname).2
    ⟨h.usable, h.short, h.free, rfl⟩

/-- A template is read in one way. -/
theorem Fits.unique {found : Rendered} (h : rendered.Fits faults job folder target disk)
    (h' : found.Fits faults job folder target disk)
    (htemplate : rendered.template = found.template) : rendered = found := by
  obtain ⟨template, name, text, hnamed⟩ := rendered
  obtain ⟨_, name', text', hnamed'⟩ := found
  obtain rfl : template = _ := htemplate
  cases hnamed.symm.trans hnamed'
  cases h.readable.symm.trans h'.readable
  rfl

/-- **A template is rendered exactly if it fits.** Its output is all that is put. -/
theorem leads_calls_iff (hopens : disk.Opens job folder target) :
    faults.Leads folder disk (rendered.calls job store) after ↔
      rendered.Fits faults job folder target disk ∧
        after = disk.fill target [rendered.file faults job store] := by
  constructor
  · rintro ⟨_, ⟨hread, rfl⟩, _, hwrite, rfl⟩
    have hname := Path.isFileName_of_fileName? rendered.named
    obtain ⟨hwritable, hwrite⟩ := Faults.writing_eq_ok_iff.1 hwrite
    obtain ⟨husable, hshort, hfree, rfl⟩ :=
      (Disk.writeBytes_join_iff hopens.plain hopens.stands hopens.isFolder hname).1 hwrite
    exact ⟨⟨hread, hwritable, husable, hshort, hfree⟩, rfl⟩
  · rintro ⟨hfits, rfl⟩
    exact ⟨disk, ⟨hfits.readable, rfl⟩, _, hfits.writing_eq hopens _, rfl⟩

/-- **Outputs of other names** neither let a template fit nor keep it from it. -/
theorem fits_fill_iff (plain : disk.Plain) (hvacant : disk.Vacant target (files.map Prod.fst))
    (hother : rendered.name ∉ files.map Prod.fst) :
    rendered.Fits faults job folder target (disk.fill target files) ↔
      rendered.Fits faults job folder target disk := by
  have hread : faults.textAt rendered.template (disk.fill target files) folder =
      .ok rendered.text ↔ faults.textAt rendered.template disk folder = .ok rendered.text := by
    simp only [Faults.textAt_eq_ok_iff, Desk.textAt_eq_ok_iff,
      Disk.readBytes_fill_iff plain hvacant rendered.named hother]
  have hfree : (disk.fill target files).hasFolder (rendered.name :: target) =
      disk.hasFolder (rendered.name :: target) := by
    unfold Disk.hasFolder
    rw [Disk.fill_node?_of_ne fun name hname => Disk.cons_ne_of_not_mem hother hname target target]
  constructor
  · intro h
    exact ⟨hread.1 h.readable, h.writable, h.usable, h.short, hfree ▸ h.free⟩
  · intro h
    exact ⟨hread.2 h.readable, h.writable, h.usable, h.short, hfree ▸ h.free⟩

/-- Templates of different names that are rendered one after the other fitted all at first, and
their outputs are put. -/
theorem fits_of_leads (hopens : disk.Opens job folder target)
    (hnodup : (done.map Rendered.name).Nodup)
    (h : faults.Leads folder disk (done.flatMap (Rendered.calls job store)) after) :
    (∀ rendered ∈ done, rendered.Fits faults job folder target disk) ∧
      after = disk.fill target (done.map (Rendered.file faults job store)) := by
  induction done generalizing disk with
  | nil => exact ⟨by simp, h⟩
  | cons first done ih =>
    rw [List.map_cons, List.nodup_cons] at hnodup
    rw [List.flatMap_cons, Faults.leads_append_iff] at h
    obtain ⟨between, hfirst, hlater⟩ := h
    obtain ⟨hfits, rfl⟩ := (leads_calls_iff hopens).1 hfirst
    have hvacant : disk.Vacant target ([first.file faults job store].map Prod.fst) := by
      intro name hname
      obtain rfl := List.mem_singleton.1 hname
      exact hfits.free
    obtain ⟨hall, rfl⟩ := ih (hopens.fill hvacant) hnodup.2 hlater
    refine ⟨fun rendered hmem => ?_, rfl⟩
    rcases List.mem_cons.1 hmem with rfl | hmem
    · exact hfits
    · -- a later template has another name than the one just put
      have hother : rendered.name ∉ [first.file faults job store].map Prod.fst := by
        intro hname
        have heq : rendered.name = first.name := List.mem_singleton.1 hname
        exact hnodup.1 (heq ▸ List.mem_map_of_mem hmem)
      exact (fits_fill_iff hopens.plain hvacant hother).1 (hall rendered hmem)

/-- A template that fits does not stop the run. -/
theorem Fits.not_stops {failure : Failure} (h : rendered.Fits faults job folder target disk)
    (hopens : disk.Opens job folder target) (hstop : Stops job store rendered.template calls failure)
    (hleads : faults.Leads folder disk calls after) : False := by
  cases hstop with
  | nameless hname =>
    rw [rendered.named] at hname
    cases hname
  | unreadable hname cause =>
    obtain ⟨_, ⟨hread, -⟩, -⟩ := hleads
    rw [h.readable] at hread
    cases hread
  | unwritable hname text cause =>
    obtain ⟨_, ⟨-, rfl⟩, _, hwrite, -⟩ := hleads
    rw [rendered.named] at hname
    cases hname
    change faults.writing (rendered.output job).path _ _ folder = _ at hwrite
    rw [h.writing_eq hopens] at hwrite
    cases hwrite

end Rendered

/-- **Templates that fit at first are all rendered**, if they have different names. -/
theorem RendersAll.exists_done {result : Except Failure (List Output)}
    (h : RendersAll job store templates calls result) (hopens : disk.Opens job folder target)
    (hfits : ∀ template ∈ templates, ∃ rendered : Rendered, rendered.template = template ∧
      rendered.Fits faults job folder target disk)
    (hnodup : (templates.filterMap Path.fileName?).Nodup)
    (hleads : faults.Leads folder disk calls after) :
    ∃ done : List Rendered, done.map Rendered.template = templates ∧
      result = .ok (done.map (Rendered.output job)) ∧
      (∀ rendered ∈ done, rendered.Fits faults job folder target disk) ∧
      after = disk.fill target (done.map (Rendered.file faults job store)) := by
  cases h with
  | finished done =>
    rw [Rendered.filterMap_fileName?] at hnodup
    obtain ⟨hall, hafter⟩ := Rendered.fits_of_leads hopens hnodup hleads
    exact ⟨done, rfl, rfl, hall, hafter⟩
  | stopped done rest hstop =>
    obtain ⟨between, hdone, hstopped⟩ := Faults.leads_append_iff.1 hleads
    obtain ⟨rendered, rfl, hrendered⟩ := hfits _ (List.mem_append_right _ List.mem_cons_self)
    rw [List.filterMap_append, Rendered.filterMap_fileName?, List.filterMap_cons_some rendered.named,
      List.nodup_append] at hnodup
    obtain ⟨hnames, -, hother⟩ := hnodup
    obtain ⟨hall, rfl⟩ := Rendered.fits_of_leads hopens hnames hdone
    have hvacant := Rendered.vacant_of_fits store hall
    have hnew : rendered.name ∉ (done.map (Rendered.file faults job store)).map Prod.fst := by
      rw [Rendered.fst_files]
      exact fun hmem => hother _ hmem _ List.mem_cons_self rfl
    -- the outputs before it have other names, so it still fits
    have hstill := (Rendered.fits_fill_iff hopens.plain hvacant hnew).2 hrendered
    exact (hstill.not_stops (hopens.fill hvacant) hstop hstopped).elim

end Stencil
