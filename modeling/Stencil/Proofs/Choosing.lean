import Stencil.Fixture
import Stencil.Proofs.CatalogLoading
import Stencil.Proofs.ExitCode
import Stencil.Proofs.MenuInput

/-!
# Choosing an option

The menu only reads and shows. What it leaves of a desk is a desk with the same files and the same
output, and there the job of the option that was chosen is run like one that is given by options.

* `Desk.Matches`: desks with the same files and the same output.
* `Desk.run_matches`, `Desk.execute_matches`: a job comes to the same end at desks that match.
* `Desk.loadCatalog_eq_ok_iff`: what a file holds is the catalog that is loaded.
* `Desk.menu_eq`: what the menu does after its choice.
* `Desk.perform_menu`: **choosing an option is running its job**, and no choice does nothing.
-/

namespace Stencil

open CommandLine

/-- The job of an option as one that is given by options, with the delimiters of its catalog. -/
def NamedJob.toDirect (option : NamedJob) (delimiters : Delimiters) : DirectJob where
  templateFolder := option.templateFolder
  outputFolder := option.outputFolder
  variableFile := option.variableFile
  searchPattern := option.searchPattern
  plain := delimiters.plain
  encoded := delimiters.encoded

/-- A relation between desks that every step of a computation keeps. -/
def Likeness.between (R : Desk → Desk → Prop) (refl : ∀ desk, R desk desk)
    (trans : ∀ {a b c}, R a b → R b c → R a c) : Likeness (StateM Desk) (StateM Desk) where
  Alike x _ := ∀ desk, R desk (x.run desk).2
  pure _ desk := refl desk
  bind hx hf desk := trans (hx desk) (hf _ _)

namespace Desk

/-- The desks have the same files and the same output. -/
structure Matches (desk other : Desk) : Prop extends desk.SameFiles other where
  output : desk.output = other.output

/-- Nothing has been done but to note something. -/
structure Noted (desk after : Desk) : Prop extends after.Matches desk where
  input : after.input = desk.input

variable {desk other : Desk}

theorem Matches.refl (desk : Desk) : desk.Matches desk := ⟨.refl desk, rfl⟩

theorem Matches.trans {third : Desk} (h : desk.Matches other) (h' : other.Matches third) :
    desk.Matches third :=
  ⟨h.toSameFiles.trans h'.toSameFiles, h.output.trans h'.output⟩

theorem Matches.symm (h : desk.Matches other) : other.Matches desk :=
  ⟨h.toSameFiles.symm, h.output.symm⟩

theorem Noted.refl (desk : Desk) : desk.Noted desk := ⟨.refl desk, rfl⟩

theorem Noted.trans {third : Desk} (h : desk.Noted other) (h' : other.Noted third) :
    desk.Noted third :=
  ⟨h'.toMatches.trans h.toMatches, h'.input.trans h.input⟩

end Desk

/-- Computations that leave nothing but notes. -/
def Likeness.noting : Likeness (StateM Desk) (StateM Desk) :=
  .between Desk.Noted Desk.Noted.refl Desk.Noted.trans

namespace Desk

open Likeness (noting)

variable {engine : Engine}

theorem noting_note (engine : Engine) (record : Record) :
    noting.Alike ((workspace engine).note record) ((workspace engine).note record) :=
  fun _ => ⟨⟨⟨rfl, rfl⟩, rfl⟩, rfl⟩

theorem noting_notes (engine : Engine) (records : List Record) :
    noting.Alike (records.forM (workspace engine).note) (records.forM (workspace engine).note) := by
  induction records with
  | nil => exact noting.pure ()
  | cons record records ih => exact noting.bind (noting_note engine record) fun _ => ih

theorem noting_readText (file : Path) :
    noting.Alike ((workspace engine).readText file) ((workspace engine).readText file) := by
  have hbytes : noting.Alike (storage.readBytes file) (storage.readBytes file) := .refl
  refine noting.bind hbytes fun answer => ?_
  cases answer with
  | error cause => exact noting.pure _
  | ok content => exact noting.bind (noting_notes engine _) fun _ => noting.pure _

theorem noting_listFiles (folder : Path) (pattern : Glob.Pattern) :
    noting.Alike ((workspace engine).listFiles folder pattern)
      ((workspace engine).listFiles folder pattern) := by
  have hentries : noting.Alike (storage.listEntries folder) (storage.listEntries folder) := .refl
  refine noting.bind hentries fun answer => ?_
  cases answer with
  | error cause => exact noting.pure _
  | ok entries => exact noting.bind (noting_notes engine _) fun _ => noting.pure _

/-- Calls that look leave nothing but notes. -/
theorem noting_looks : noting.Looks (workspace engine) (workspace engine) where
  readText := noting_readText
  listFiles := noting_listFiles
  isPresent _ := .refl
  isFolder _ := .refl
  note := noting_note engine

variable {desk other : Desk} {choice : ReportChoice}

/-- Loading a catalog leaves nothing but notes. -/
theorem noted_loadCatalog (engine : Engine) (file : Path) (desk : Desk) :
    desk.Noted (((workspace engine).loadCatalog file).run.run desk).2 :=
  Likeness.loadCatalog_alike noting_looks file desk

/-- Desks with the same files load the same catalog. -/
theorem loadCatalog_eq_of_sameFiles (h : desk.SameFiles other) (file : Path) :
    (((workspace engine).loadCatalog file).run.run desk).1 =
      (((workspace engine).loadCatalog file).run.run other).1 := by
  obtain ⟨effect, hdoes, -⟩ := Likeness.loadCatalog_alike (byFiles_answers engine).toLooks file
  rw [hdoes.answer, hdoes.answer, h.disk, h.folder]

/-- No call of a workspace prints. -/
theorem silent_answers (engine : Engine) :
    (Likeness.between (fun desk after : Desk => after.output = desk.output) (fun _ => rfl)
      (fun h h' => h'.trans h)).Answers (workspace engine) (workspace engine) where
  engine := rfl
  readText file desk := (noting_readText file desk).output
  listFiles folder pattern desk := (noting_listFiles folder pattern desk).output
  isPresent _ _ := rfl
  isFolder _ _ := rfl
  note _ _ := rfl
  createFolders _ _ := rfl
  writeText path text desk := by
    show ((change (desk.disk.writeBytes desk.folder path (Utf8.encode text))).run desk).2.output = _
    cases desk.disk.writeBytes desk.folder path (Utf8.encode text) <;> rfl

/-- **A job comes to the same end at desks that match**, and they match after it. -/
theorem run_matches (engine : Engine) (h : desk.Matches other) (job : Job) :
    (((workspace engine).run job).run.run desk).1 = (((workspace engine).run job).run.run other).1 ∧
      (((workspace engine).run job).run.run desk).2.Matches
        (((workspace engine).run job).run.run other).2 := by
  obtain ⟨hresult, hfiles⟩ := run_eq_of_sameFiles engine h.toSameFiles job
  have hsilent := Likeness.run_alike (silent_answers engine) job
  exact ⟨hresult, hfiles, (hsilent desk).trans (h.output.trans (hsilent other).symm)⟩

/-- Desks that match do so after one more piece is printed on both. -/
theorem Matches.print (h : desk.Matches other) (text : Text) :
    Matches { desk with printed := text :: desk.printed }
      { other with printed := text :: other.printed } := by
  have hprint : ∀ desk : Desk,
      Desk.output { desk with printed := text :: desk.printed } = desk.output ++ text := by
    intro desk
    simp [Desk.output]
  refine ⟨⟨h.disk, h.folder⟩, ?_⟩
  rw [hprint, hprint, h.output]

/-- A job that is run and reported comes to the same end, too. -/
theorem execute_matches (h : desk.Matches other) (ownCatalog otherCatalog : Path) (job : Job)
    (choice : ReportChoice) :
    (((console engine ownCatalog).execute job choice).run.run desk).1 =
        (((console engine otherCatalog).execute job choice).run.run other).1 ∧
      (((console engine ownCatalog).execute job choice).run.run desk).2.Matches
        (((console engine otherCatalog).execute job choice).run.run other).2 := by
  have hannounced : (desk.announced job choice).Matches (other.announced job choice) := by
    unfold announced
    split
    · exact h
    · exact h.print job.header
  obtain ⟨hresult, hafter⟩ := run_matches engine hannounced job
  rw [execute_eq, execute_eq, hresult]
  cases (((workspace engine).run job).run.run (other.announced job choice)).1 with
  | error failure => exact ⟨rfl, hafter⟩
  | ok report => exact ⟨rfl, hafter.print (report.shown choice)⟩

/-- The end of the program prints nothing, and its exit code is that of the result. -/
theorem finish_matches (h : desk.Matches other) (ownCatalog otherCatalog : Path)
    (result : Except CommandFailure Outcome) :
    ((finish engine ownCatalog result).run desk).1 =
        ((finish engine otherCatalog result).run other).1 ∧
      ((finish engine ownCatalog result).run desk).2.Matches
        ((finish engine otherCatalog result).run other).2 := by
  cases result with
  | ok outcome => exact ⟨rfl, h⟩
  | error failure => exact ⟨rfl, ⟨h.disk, h.folder⟩, h.output⟩

/-- A job, from its header to the exit code. -/
def carryOut (engine : Engine) (ownCatalog : Path) (job : Job) (choice : ReportChoice)
    (desk : Desk) : Nat × Desk :=
  let result := ((console engine ownCatalog).execute job choice).run.run desk
  (finish engine ownCatalog result.1).run result.2

/-- A job is carried out to the same end at desks that match. -/
theorem carryOut_matches (engine : Engine) (h : desk.Matches other) (ownCatalog otherCatalog : Path)
    (job : Job) (choice : ReportChoice) :
    (carryOut engine ownCatalog job choice desk).1 =
        (carryOut engine otherCatalog job choice other).1 ∧
      (carryOut engine ownCatalog job choice desk).2.Matches
        (carryOut engine otherCatalog job choice other).2 := by
  obtain ⟨hresult, hafter⟩ := execute_matches h ownCatalog otherCatalog job choice
  unfold carryOut
  dsimp only
  rw [hresult]
  exact finish_matches hafter ownCatalog otherCatalog _

/-- What is done with the choice of a menu. -/
def follow (engine : Engine) (ownCatalog : Path) (choice : ReportChoice) (file : Path)
    (catalog : Catalog) :
    Except IoError Selection → ExceptT CommandFailure (StateM Desk) Outcome
  | .error cause => throw (.nothingChosen cause)
  | .ok .cancelled => do
    (workspace engine).note ⟨.info, .command, "Menu cancelled"⟩
    return .cancelled
  | .ok (.option id) => do
    (workspace engine).note ⟨.info, .command, .concat ["Selected option ", id, " from ", file.text]⟩
    match catalog.job id with
    | .error failure => throw (.runFailed failure)
    | .ok job => (console engine ownCatalog).execute job choice

/-- The desk after a menu of the options. -/
def answered (desk : Desk) (options : List NamedJob) : Desk :=
  let session := Session.ofInput options desk.input
  { desk with input := session.unread, complained := session.shown options :: desk.complained }

/-- What follows a step is done at the desk after it, unless the step fails. -/
theorem run_bind {ε α β : Type} (x : ExceptT ε (StateM Desk) α) (f : α → ExceptT ε (StateM Desk) β)
    (desk : Desk) : (x >>= f).run.run desk =
      match (x.run.run desk).1 with
      | .error failure => (.error failure, (x.run.run desk).2)
      | .ok a => (f a).run.run (x.run.run desk).2 := by
  show (ExceptT.bindCont f (x.run.run desk).1).run (x.run.run desk).2 = _
  cases (x.run.run desk).1 with
  | error failure => rfl
  | ok a => rfl

/-- Notes can be made at any desk. -/
theorem notes_eq_ok (records : List Record) (desk : Desk) :
    ((records.forM fun record =>
      ((workspace engine).note record : ExceptT Failure (StateM Desk) Unit)).run.run desk).1 =
        .ok () := by
  induction records generalizing desk with
  | nil => rfl
  | cons record records ih => exact ih (desk.note record)

/-- A catalog is loaded from what its file holds. -/
theorem loadCatalog_eq_ok_iff {file : Path} {document : Text} {catalog : Catalog}
    (hread : textAt file desk.disk desk.folder = .ok document) :
    (((workspace engine).loadCatalog file).run.run desk).1 = .ok catalog ↔
      Catalog.ofDocument (file.parent?.filter fun folder => !folder.bytes.isEmpty) document =
        .ok catalog := by
  have hanswer : (((workspace engine).readText file).run desk).1 = .ok document :=
    ((does_readText engine file).answer desk).trans hread
  have hlift : ((liftM ((workspace engine).readText file) :
      ExceptT Failure (StateM Desk) (Except IoError Text)).run.run desk).1 =
      .ok (((workspace engine).readText file).run desk).1 := rfl
  have hattempt : ((attempt .readCatalog file ((workspace engine).readText file)).run.run desk).1 =
      .ok document := by
    unfold attempt
    rw [run_bind, hlift, hanswer]
    rfl
  unfold Workspace.loadCatalog
  rw [run_bind, hattempt]
  dsimp only
  rw [run_bind, notes_eq_ok]
  dsimp only
  split
  · next hcatalog =>
    rw [hcatalog]
    rfl
  · next hcatalog =>
    rw [hcatalog]
    exact ⟨nofun, nofun⟩
  · next hcatalog =>
    rw [hcatalog]
    exact ⟨nofun, nofun⟩

/-- The catalog that is opened is the one that is named, or the one beside the program. -/
theorem openCatalog_eq (ownCatalog : Path) (named : Option Path) (desk : Desk) :
    ((console engine ownCatalog).openCatalog named).run.run desk =
      let file := named.getD ownCatalog
      let loaded := (((workspace engine).loadCatalog file).run.run desk).2
      match (((workspace engine).loadCatalog file).run.run desk).1 with
      | .error failure => (.error (.catalogNotLoaded file failure), loaded)
      | .ok catalog => (.ok (file, catalog), loaded) := by
  have hnamed : ((console engine ownCatalog).openCatalog named).run.run desk =
      ((console engine ownCatalog).openCatalog (some (named.getD ownCatalog))).run.run desk := by
    cases named <;> rfl
  rw [hnamed]
  generalize named.getD ownCatalog = file
  show (match (((workspace engine).loadCatalog file).run.run desk).1 with
    | .error failure => throw (.catalogNotLoaded file failure)
    | .ok catalog => pure (file, catalog) :
      ExceptT CommandFailure (StateM Desk) (Path × Catalog)).run.run
        (((workspace engine).loadCatalog file).run.run desk).2 = _
  dsimp only
  cases (((workspace engine).loadCatalog file).run.run desk).1 with
  | error failure => rfl
  | ok catalog => rfl

/-- **The menu**, from the catalog to what is done with the choice. -/
theorem menu_eq (engine : Engine) (ownCatalog : Path) (named : Option Path) (choice : ReportChoice)
    (desk : Desk) :
    ((console engine ownCatalog).menu named choice).run.run desk =
      let file := named.getD ownCatalog
      let loaded := (((workspace engine).loadCatalog file).run.run desk).2
      match (((workspace engine).loadCatalog file).run.run desk).1 with
      | .error failure => (.error (.catalogNotLoaded file failure), loaded)
      | .ok catalog =>
        (follow engine ownCatalog choice file catalog
          (Session.ofInput catalog.options loaded.input).result).run.run
            (loaded.answered catalog.options) := by
  unfold Console.menu
  rw [run_bind, openCatalog_eq]
  dsimp only
  cases (((workspace engine).loadCatalog (named.getD ownCatalog)).run.run desk).1 with
  | error failure => rfl
  | ok catalog =>
    dsimp only
    generalize (((workspace engine).loadCatalog (named.getD ownCatalog)).run.run desk).2 = loaded
    show (match (Session.ofInput catalog.options loaded.input).result with
      | .error cause => _
      | .ok .cancelled => _
      | .ok (.option id) => _ : ExceptT CommandFailure (StateM Desk) Outcome).run.run
        (loaded.answered catalog.options) = _
    rcases (Session.ofInput catalog.options loaded.input).result with cause | (id | _) <;> rfl

/-- A menu is performed up to its choice at a desk that matches the one before it. -/
theorem perform_menu_eq (desk : Desk) (ownCatalog : Path) {named : Option Path}
    {invocation : Invocation} {catalog : Catalog} (command : invocation.command = .menu named choice)
    (loads : (((workspace engine).loadCatalog (named.getD ownCatalog)).run.run desk).1 = .ok catalog) :
    ∃ ready : Desk, ready.Matches desk ∧
      let result := (follow engine ownCatalog choice (named.getD ownCatalog) catalog
        (Session.ofInput catalog.options desk.input).result).run.run ready
      desk.perform engine ownCatalog invocation = (finish engine ownCatalog result.1).run result.2 := by
  have hstarted : (desk.started invocation).Matches desk := ⟨⟨rfl, rfl⟩, rfl⟩
  have hloads := (loadCatalog_eq_of_sameFiles hstarted.toSameFiles (named.getD ownCatalog)).trans loads
  have hnoted := noted_loadCatalog engine (named.getD ownCatalog) (desk.started invocation)
  have hmenu := menu_eq engine ownCatalog named choice (desk.started invocation)
  dsimp only at hmenu
  rw [hloads] at hmenu
  generalize (((workspace engine).loadCatalog (named.getD ownCatalog)).run.run
    (desk.started invocation)).2 = loaded at hmenu hnoted
  refine ⟨loaded.answered catalog.options, ?_, ?_⟩
  · have hanswered : (loaded.answered catalog.options).Matches loaded := ⟨⟨rfl, rfl⟩, rfl⟩
    exact hanswered.trans (hnoted.toMatches.trans hstarted)
  · have hinput : loaded.input = desk.input := hnoted.input
    rw [hinput] at hmenu
    dsimp only at hmenu ⊢
    rw [← hmenu, perform, command]
    rfl

/-- The job of an option is carried out like one that is given by options. -/
theorem perform_toDirect (engine : Engine) (start : Desk) (ownCatalog : Path)
    (option : NamedJob) (delimiters : Delimiters) (choice : ReportChoice) (verbose : Bool) :
    ∃ ready : Desk, ready.Matches start ∧
      start.perform engine ownCatalog ⟨.direct (option.toDirect delimiters) choice, verbose⟩ =
        carryOut engine ownCatalog (option.withDelimiters delimiters) choice ready := by
  refine ⟨start.started ⟨.direct (option.toDirect delimiters) choice, verbose⟩,
    ⟨⟨rfl, rfl⟩, rfl⟩, ?_⟩
  have hpairs : Delimiters.ofPairs (option.toDirect delimiters).plain
      (option.toDirect delimiters).encoded = .ok delimiters := Delimiters.ofPairs_eq_ok delimiters
  rw [perform_direct start engine ownCatalog rfl, Console.direct, hpairs]
  rfl

end Desk

/-- A run never looks for an option. -/
theorem Runs.ne_noSuchOption {engine : Engine} {job : Job} {calls : List Call} {failure : Failure}
    (h : Runs engine job calls (.error failure)) (id : Text) : failure ≠ .noSuchOption id := by
  rintro rfl
  cases h with
  | unloaded hpattern hmatchers hload => cases hload
  | unlisted hpattern hmatchers hload hlist => cases hlist
  | unrendered survey hrender =>
    cases hrender with
    | stopped done rest hstop => cases hstop
  | unverified survey hrender hcheck =>
    obtain ⟨output, first, hfailed⟩ := hcheck.exists_failed
    cases hfailed

namespace Desk

variable {engine : Engine}

/-- An option that is chosen is run, after a note. -/
theorem follow_option {catalog : Catalog} (coherent : catalog.Coherent) {option : NamedJob}
    (hoption : option ∈ catalog.options) (ownCatalog : Path) (choice : ReportChoice) (file : Path)
    (desk : Desk) : ∃ noted : Desk, noted.Matches desk ∧
      (follow engine ownCatalog choice file catalog (.ok (.option option.id))).run.run desk =
        ((console engine ownCatalog).execute (option.withDelimiters catalog.delimiters) choice).run.run
          noted := by
  refine ⟨desk.note ⟨.info, .command,
    .concat ["Selected option ", option.id, " from ", file.text]⟩, ⟨⟨rfl, rfl⟩, rfl⟩, ?_⟩
  show (match catalog.job option.id with
    | .error failure => throw (.runFailed failure)
    | .ok job => (console engine ownCatalog).execute job choice :
      ExceptT CommandFailure (StateM Desk) Outcome).run.run _ = _
  rw [coherent.job_eq hoption]
  rfl

/-- **The menu never looks in vain** for the option that was chosen. -/
theorem menu_ne_noSuchOption (ownCatalog : Path) (named : Option Path) (choice : ReportChoice)
    (desk : Desk) (id : Text) : (((console engine ownCatalog).menu named choice).run.run desk).1 ≠
      .error (.runFailed (.noSuchOption id)) := by
  intro h
  rw [menu_eq] at h
  dsimp only at h
  cases hload : (((workspace engine).loadCatalog (named.getD ownCatalog)).run.run desk).1 with
  | error failure =>
    rw [hload] at h
    cases h
  | ok catalog =>
    have coherent := (workspace engine).coherent_of_loadCatalog hload
    rw [hload] at h
    dsimp only at h
    generalize (((workspace engine).loadCatalog (named.getD ownCatalog)).run.run desk).2 = loaded at h
    cases hresult : (Session.ofInput catalog.options loaded.input).result with
    | error cause =>
      rw [hresult] at h
      cases h
    | ok selection =>
      cases selection with
      | cancelled =>
        rw [hresult] at h
        cases h
      | option chosen =>
        obtain ⟨option, hoption, rfl⟩ := Session.exists_option_of_result hresult
        obtain ⟨noted, -, hfollow⟩ := follow_option coherent hoption ownCatalog choice
          (named.getD ownCatalog) (loaded.answered catalog.options)
        rw [hresult, hfollow, execute_eq] at h
        -- only the run of the job can fail, and it has no options
        have hruns := (workspace engine).runs_history (option.withDelimiters catalog.delimiters)
          (noted.announced (option.withDelimiters catalog.delimiters) choice)
        cases hrun : (((workspace engine).run (option.withDelimiters catalog.delimiters)).run.run
            (noted.announced (option.withDelimiters catalog.delimiters) choice)).1 with
        | error failure =>
          rw [hrun] at h hruns
          cases h
          exact hruns.ne_noSuchOption id rfl
        | ok report =>
          rw [hrun] at h
          cases h

/-- **Choosing an option is running its job**, and no choice does nothing.

Lines that are text, but neither an id nor the letter for cancelling, are passed over. If the first
other line is an id, the menu ends like the job of the option that is given by options: with the
same exit code, the same files and the same output. If it is the letter for cancelling, or there is
no other line, nothing is done. If it is not text, nothing is done, and the exit code says that the
command failed. That there is no option of the id is never the reason of a failure. -/
theorem perform_menu {desk after : Desk} {ownCatalog : Path} {named : Option Path}
    {choice : ReportChoice} {invocation : Invocation} {catalog : Catalog} {code : Nat}
    (command : invocation.command = .menu named choice)
    (loads : (((workspace engine).loadCatalog (named.getD ownCatalog)).run.run desk).1 = .ok catalog)
    (performed : desk.perform engine ownCatalog invocation = (code, after)) :
    (∀ line option, Menu.Reached catalog.options desk.input line →
      Menu.Names catalog.options line option → ∀ start : Desk, start.Matches desk →
        ∀ (otherCatalog : Path) (verbose : Bool),
          let direct := start.perform engine otherCatalog
            ⟨.direct (option.toDirect catalog.delimiters) choice, verbose⟩
          code = direct.1 ∧ after.Matches direct.2) ∧
    ((∃ line, Menu.Reached catalog.options desk.input line ∧ Menu.Cancels line) ∨
      (∀ line ∈ Menu.lines desk.input, Menu.Idle catalog.options line) →
        code = 0 ∧ after.Matches desk) ∧
    (∀ line, Menu.Reached catalog.options desk.input line → Menu.Broken line →
      code = 1 ∧ after.Matches desk) ∧
    ∀ id, (((console engine ownCatalog).menu named choice).run.run desk).1 ≠
      .error (.runFailed (.noSuchOption id)) := by
  have coherent := (workspace engine).coherent_of_loadCatalog loads
  obtain ⟨ready, hready, hperform⟩ := perform_menu_eq desk ownCatalog command loads
  dsimp only at hperform
  rw [performed] at hperform
  refine ⟨fun line option reached names start hstart otherCatalog verbose => ?_, fun hidle => ?_,
    fun line reached broken => ?_, menu_ne_noSuchOption ownCatalog named choice desk⟩
  · have hcancel := coherent.not_cancel option names.1
    rw [Session.result_of_reached reached
      (Menu.decision?_of_names reached.ne_nil names hcancel)] at hperform
    obtain ⟨noted, hnoted, hfollow⟩ := follow_option coherent names.1 ownCatalog choice
      (named.getD ownCatalog) ready
    rw [hfollow] at hperform
    replace hperform : (code, after) = carryOut engine ownCatalog
      (option.withDelimiters catalog.delimiters) choice noted := hperform
    -- both carry out the job at desks that match
    obtain ⟨begun, hbegun, hdirect⟩ :=
      perform_toDirect engine start otherCatalog option catalog.delimiters choice verbose
    have hsame : noted.Matches begun :=
      (hnoted.trans hready).trans (hbegun.trans hstart).symm
    have hend := carryOut_matches engine hsame ownCatalog otherCatalog
      (option.withDelimiters catalog.delimiters) choice
    rwa [← hperform, ← hdirect] at hend
  · have hcancelled : (Session.ofInput catalog.options desk.input).result = .ok .cancelled := by
      rcases hidle with ⟨line, reached, cancels⟩ | hidle
      · exact Session.result_of_reached reached
          (Menu.decision?_of_cancels reached.ne_nil cancels)
      · exact Session.result_of_idle hidle
    rw [hcancelled] at hperform
    cases hperform
    exact ⟨rfl, ⟨hready.disk, hready.folder⟩, hready.output⟩
  · rw [Session.result_of_reached reached
      (Menu.decision?_of_broken reached.ne_nil broken)] at hperform
    cases hperform
    exact ⟨rfl, ⟨hready.disk, hready.folder⟩, hready.output⟩

/-- A desk with a template and a catalog. The second line of its input is the id of the option. -/
def offered : Desk where
  disk := ⟨[([Utf8.encode "templates"], .folder),
    ([Utf8.encode ['a'], Utf8.encode "templates"],
      .file (Utf8.encode (Delimiters.standard.plain.wrap ['A']))),
    ([Utf8.encode "Options.xml"],
      .file (Utf8.encode (Fixture.catalogText [(['1'], ['n'], ['*'])])))]⟩
  input := Utf8.encode ['x', '\n', ' ', '1', '\n']

/-- The option of that catalog. -/
def offeredOption : NamedJob where
  id := ['1']
  name := ['n']
  templateFolder := .ofText "templates"
  outputFolder := .ofText "out"
  variableFile := .ofText "vars.txt"
  searchPattern := ['*']

/-- Its job is run, and the placeholder that is left is denied. -/
theorem perform_menu_offered :
    let choice : ReportChoice := ⟨false, true⟩
    let performed := offered.perform .unbounded (.ofText "Options.xml") ⟨.menu none choice, false⟩
    let direct :=
      offered.perform .unbounded ⟨[]⟩ ⟨.direct (offeredOption.toDirect .standard) choice, true⟩
    let line := Utf8.encode [' ', '1', '\n']
    (((workspace .unbounded).loadCatalog (.ofText "Options.xml")).run.run offered).1 =
      .ok ⟨.standard, [offeredOption]⟩ ∧
      Menu.Reached [offeredOption] offered.input line ∧ Menu.Names [offeredOption] line offeredOption ∧
      direct.1 = 2 ∧ performed.1 = direct.1 ∧ performed.2.Matches direct.2 := by
  intro choice performed direct line
  have loads : (((workspace .unbounded).loadCatalog (.ofText "Options.xml")).run.run offered).1 =
      .ok ⟨.standard, [offeredOption]⟩ := by decide +kernel
  have idle : Menu.Idle [offeredOption] (Utf8.encode ['x', '\n']) :=
    ⟨['x'], by decide +kernel, by decide, by decide⟩
  have reached : Menu.Reached [offeredOption] offered.input line :=
    ⟨[Utf8.encode ['x', '\n']], [], by decide, by simpa using idle⟩
  have names : Menu.Names [offeredOption] line offeredOption :=
    ⟨List.mem_singleton_self _, by decide +kernel⟩
  have hcode : direct.1 = 2 := by decide +kernel
  have command : (Invocation.mk (.menu none choice) false).command = .menu none choice := rfl
  obtain ⟨hchosen, -⟩ := perform_menu command loads (Prod.eta performed).symm
  exact ⟨loads, reached, names, hcode,
    hchosen line offeredOption reached names offered (.refl offered) ⟨[]⟩ true⟩

end Desk

end Stencil
