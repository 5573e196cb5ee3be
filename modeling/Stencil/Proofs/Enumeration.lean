import Stencil.Proofs.Listing

/-!
# Enumerating a folder

The entries of a folder come in any order. The files among them that fit a pattern are listed in the
order of their names, so the order in which they came does not matter.

* `Desk.workspaceIn`: a desk at which the entries of a folder come in another order.
* `Storage.fittingNames_perm`: the order of the entries does not matter.
* `Desk.listFiles_exact`: **the files of a folder that fit are listed, each once and in the order of
  their names, in whatever order they come.**
-/

namespace Stencil

namespace Storage

variable {entries others : List Entry} {pattern : Glob.Pattern}

/-- **The order in which entries come does not matter**, if no two have one name. -/
theorem fittingNames_perm (hperm : others.Perm entries)
    (hnames : ∀ a ∈ entries, ∀ b ∈ entries, a.name = b.name → a = b) :
    fittingNames pattern others = fittingNames pattern entries := by
  have hothers : ∀ a ∈ others, ∀ b ∈ others, a.name = b.name → a = b :=
    fun a ha b hb => hnames a (hperm.subset ha) b (hperm.subset hb)
  refine eq_of_increasing (fittingNames_pairwise pattern others)
    (fittingNames_pairwise pattern entries) fun name => ?_
  rw [mem_fittingNames_iff hothers, mem_fittingNames_iff hnames, hperm.mem_iff]

end Storage

namespace Desk

variable {desk : Desk} {path : Path} {location : Disk.Location} {pattern : Glob.Pattern}
  {order : List Entry → List Entry} {names : List Bytes}

/-- The files of the desk, where the entries of a folder come in another order. -/
def storageIn (order : List Entry → List Entry) : Storage (StateM Desk) :=
  { storage with listEntries := fun path => Except.map order <$> storage.listEntries path }

/-- The files and the log of the desk, where the entries of a folder come in another order. -/
def workspaceIn (engine : Engine) (order : List Entry → List Entry) : Workspace (StateM Desk) :=
  (storageIn order).workspace engine fun record => modify (note record)

/-- In the order of the disk this is the desk itself. -/
theorem workspaceIn_id (engine : Engine) : workspaceIn engine id = workspace engine := by
  have hstorage : storageIn id = storage := by
    have hentries : ∀ path, Except.map id <$> storage.listEntries path = storage.listEntries path := by
      intro path
      have hsame : (Except.map id : Except IoError (List Entry) → _) = id := by
        funext answer
        cases answer <;> rfl
      rw [hsame, id_map]
    unfold storageIn
    simp only [hentries]
  rw [workspaceIn, hstorage, workspace]

/-- What listing the files does, where the entries come in another order. -/
theorem does_listFilesIn (engine : Engine) (order : List Entry → List Entry) (path : Path)
    (pattern : Glob.Pattern) :
    Does ((workspaceIn engine order).listFiles path pattern) (look fun disk folder =>
      (((disk.listFolder folder path).map fun nodes => nodes.map entryOf).map order).map
        (Storage.selectFiles path pattern)) := by
  have hentries : Does ((storageIn order).listEntries path) (look fun disk folder =>
      ((disk.listFolder folder path).map fun nodes => nodes.map entryOf).map order) :=
    ⟨fun _ => rfl, fun _ => rfl, fun _ => rfl⟩
  refine hentries.bind fun answer =>
    (show Does _ (look fun _ _ => answer.map (Storage.selectFiles path pattern)) from ?_)
  cases answer with
  | error cause => exact .pure _
  | ok entries => exact (does_notes engine _).bind fun _ => .pure _

/-- A folder that is there is listed by the names that fit, whatever the order of its entries. -/
theorem listFilesIn_eq (engine : Engine) (sound : desk.disk.Sound)
    (hlocate : desk.disk.locate .find desk.folder path = .ok location)
    (hfolder : desk.disk.node? location = some .folder)
    (horder : ∀ entries, (order entries).Perm entries) :
    (((workspaceIn engine order).listFiles path pattern).run desk).1 =
      .ok ((Storage.fittingNames pattern ((desk.disk.children location).map entryOf)).map
        fun name => path.join ⟨name⟩) := by
  have hthere : desk.disk.hasFolder location = true := by simp [Disk.hasFolder, hfolder]
  have hlist : desk.disk.listFolder desk.folder path = .ok (desk.disk.children location) := by
    rw [Disk.listFolder, hlocate]
    simp only [bind, Except.bind, hthere, if_true, pure, Except.pure]
  rw [(does_listFilesIn engine order path pattern).answer, look, hlist]
  simp only [Except.map, Storage.selectFiles_eq]
  rw [Storage.fittingNames_perm (horder _) (entries_inj sound location)]

/-- Files that are listed by different names in increasing order are so ordered themselves. -/
theorem pairwise_join (path : Path) (hproper : ∀ name ∈ names, name.IsFileName)
    (h : names.Pairwise (· < ·)) :
    (names.map fun name => path.join ⟨name⟩).Pairwise fun a b => ∃ name other,
      a.fileName? = some name ∧ b.fileName? = some other ∧ name < other := by
  rw [List.pairwise_map]
  refine h.imp_of_mem fun {name other} hname hother hbefore => ?_
  exact ⟨name, other, Path.fileName?_join path (hproper name hname),
    Path.fileName?_join path (hproper other hother), hbefore⟩

/-- **The files of a folder that fit a pattern are listed exactly**, in whatever order its entries
come: those entries that are files themselves and have a name that is text and fits, each once, in
strictly increasing order of the bytes of their names. -/
theorem listFiles_exact (engine : Engine) (sound : desk.disk.Sound)
    (hlocate : desk.disk.locate .find desk.folder path = .ok location)
    (hfolder : desk.disk.node? location = some .folder)
    (hproper : ∀ name node, desk.disk.node? (name :: location) = some node → Bytes.IsFileName name)
    (pattern : Glob.Pattern) :
    ∃ files : List Path,
      (∀ order : List Entry → List Entry, (∀ entries, (order entries).Perm entries) →
        (((workspaceIn engine order).listFiles path pattern).run desk).1 = .ok files) ∧
      (((workspace engine).listFiles path pattern).run desk).1 = .ok files ∧
      files.Nodup ∧
      (files.Pairwise fun a b => ∃ name other, a.fileName? = some name ∧ b.fileName? = some other ∧
        name < other) ∧
      ∀ file, file ∈ files ↔ ∃ text content, file = path.join (.ofText text) ∧
        desk.disk.node? (Utf8.encode text :: location) = some (.file content) ∧
        pattern.fits text = true := by
  have hnames := @mem_names_iff desk.disk pattern sound location
  have hfileName : ∀ name ∈ Storage.fittingNames pattern ((desk.disk.children location).map entryOf),
      Bytes.IsFileName name := by
    intro name hname
    obtain ⟨-, content, hfile⟩ := hnames.1 hname
    exact hproper _ _ hfile
  have hincreasing := pairwise_join path hfileName (Storage.fittingNames_pairwise pattern _)
  refine ⟨_, fun order horder => listFilesIn_eq engine sound hlocate hfolder horder, ?_, ?_,
    hincreasing, fun file => ⟨fun hfile => ?_, ?_⟩⟩
  · rw [← workspaceIn_id]
    exact listFilesIn_eq engine sound hlocate hfolder fun entries => .refl entries
  · -- a file is not before itself
    refine hincreasing.imp fun {a b} ⟨name, other, ha, hb, hbefore⟩ heq => ?_
    rw [heq, hb, Option.some.injEq] at ha
    rw [ha] at hbefore
    exact List.lt_irrefl _ hbefore
  · obtain ⟨name, hname, rfl⟩ := List.mem_map.1 hfile
    obtain ⟨⟨text, rfl, hfits⟩, content, hnode⟩ := hnames.1 hname
    exact ⟨text, content, rfl, hnode, hfits⟩
  · rintro ⟨text, content, rfl, hnode, hfits⟩
    exact List.mem_map.2 ⟨_, hnames.2 ⟨⟨text, rfl, hfits⟩, content, hnode⟩, rfl⟩

/-- A desk with one folder, in which there are two files, a link to one of them, a folder with a
file, and a file whose name is no text. -/
def assorted : Desk where
  disk := ⟨[([Utf8.encode ['w']], .folder),
    ([Utf8.encode ['b'], Utf8.encode ['w']], .file []),
    ([Utf8.encode ['l'], Utf8.encode ['w']], .link (Utf8.encode ['a'])),
    ([Utf8.encode ['d'], Utf8.encode ['w']], .folder),
    ([Utf8.encode ['c'], Utf8.encode ['d'], Utf8.encode ['w']], .file []),
    ([Utf8.encode ['a'], Utf8.encode ['w']], .file []),
    ([[0xFF], Utf8.encode ['w']], .file [])]⟩

/-- Of all these entries the two files are listed, also if the entries come the other way round. -/
theorem listFiles_exact_assorted :
    let files : List Path := [.ofText ['w', '/', 'a'], .ofText ['w', '/', 'b']]
    assorted.disk.Sound ∧
      assorted.disk.locate .find assorted.folder (.ofText ['w']) = .ok [Utf8.encode ['w']] ∧
      assorted.disk.node? [Utf8.encode ['w']] = some .folder ∧
      (∀ name node, assorted.disk.node? [name, Utf8.encode ['w']] = some node →
        Bytes.IsFileName name) ∧
      (((workspace .unbounded).listFiles (.ofText ['w']) ⟨[.anyRun]⟩).run assorted).1 = .ok files ∧
      (((workspaceIn .unbounded List.reverse).listFiles (.ofText ['w']) ⟨[.anyRun]⟩).run
        assorted).1 = .ok files := by
  intro files
  have hsound : assorted.disk.Sound := Disk.sound_of_entries (by decide) (by decide)
  have hlocate : assorted.disk.locate .find assorted.folder (.ofText ['w']) =
      .ok [Utf8.encode ['w']] := by
    decide +kernel
  have hproper : ∀ name node, assorted.disk.node? [name, Utf8.encode ['w']] = some node →
      Bytes.IsFileName name := by
    intro name node hnode
    have hnames : ∀ location ∈ assorted.disk.entries.map Prod.fst, ∀ name ∈ location,
        Bytes.IsFileName name := by decide
    have hentry := List.mem_map_of_mem (f := Prod.fst) (Disk.mem_entries_of_node? hnode)
    exact hnames _ hentry name List.mem_cons_self
  have hlisted : (((workspace .unbounded).listFiles (.ofText ['w']) ⟨[.anyRun]⟩).run assorted).1 =
      .ok files := by
    decide +kernel
  obtain ⟨found, horders, hfound, -⟩ :=
    listFiles_exact .unbounded hsound hlocate rfl hproper ⟨[.anyRun]⟩
  rw [hlisted] at hfound
  cases hfound
  exact ⟨hsound, hlocate, rfl, hproper, hlisted, horders List.reverse List.reverse_perm⟩

end Desk

end Stencil
