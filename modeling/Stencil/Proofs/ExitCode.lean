import Stencil.Proofs.Verification

/-!
# The exit code of a job

The exit code of a job given by options tells whether placeholders are left in the files it has
written.

* `Desk.perform_of_delimiters`: the exit code is decided by the run of the job.
* `Desk.hasPlaceholder_iff`: a placeholder is in a file exactly if one is read from it.
* `Desk.exitCode_direct`: **the exit code tells the truth** about the files on the disk.
-/

namespace Stencil

open CommandLine

/-- A mark at the start of a text is in no placeholder that does not start with one. -/
theorem Text.infix_dropMark_iff {piece text : Text} (h : piece.head? ≠ some byteOrderMark) :
    piece <:+: text.dropMark ↔ piece <:+: text := by
  cases text with
  | nil => exact Iff.rfl
  | cons c rest =>
    rw [Text.dropMark]
    by_cases hmark : c = byteOrderMark
    · rw [if_pos hmark]
      refine ⟨fun hin => hin.trans (List.suffix_cons c rest).isInfix, fun hin => ?_⟩
      rcases List.infix_cons_iff.1 hin with ⟨after, hstart⟩ | hin
      · cases piece with
        | nil => exact List.nil_infix
        | cons b piece =>
          cases hstart
          exact absurd (congrArg some hmark) h
      · exact hin
    · rw [if_neg hmark]

/-- The job that the options give, with delimiters made of its pairs. -/
def CommandLine.DirectJob.withDelimiters (job : DirectJob) (delimiters : Delimiters) : Job :=
  ⟨job.templateFolder, job.outputFolder, job.variableFile, job.searchPattern, delimiters⟩

namespace Desk

variable {engine : Engine} {desk after : Desk} {job : DirectJob} {choice : ReportChoice}
  {delimiters : Delimiters}
  {path : Path} {text : Text}

/-- The run of a job at the desk, with its calls recorded. -/
def watch (desk : Desk) (engine : Engine) (job : Job) : Except Failure Report × Scene :=
  Watched.play ((workspace engine).traced.run job).run ⟨[], desk⟩

/-- The pairs of the job are no delimiters, or its run fails. -/
def Fails (desk : Desk) (engine : Engine) (job : DirectJob) : Prop :=
  match Delimiters.ofPairs job.plain job.encoded with
  | .error _ => True
  | .ok delimiters => ∃ failure,
    (((workspace engine).run (job.withDelimiters delimiters)).run.run desk).1 = .error failure

/-- The files that the run of the job at the desk writes. -/
def written (desk : Desk) (engine : Engine) (job : DirectJob) : List Path :=
  match Delimiters.ofPairs job.plain job.encoded with
  | .error _ => []
  | .ok delimiters => (desk.watch engine (job.withDelimiters delimiters)).2.written

/-- The file holds a placeholder of one of the two forms, whatever its name is. -/
def HasPlaceholder (desk : Desk) (job : DirectJob) (path : Path) : Prop :=
  ∃ text, desk.Holds path text ∧ ∃ pair ∈ [job.plain, job.encoded], ∃ name, isName name = true ∧
    pair.wrap name <:+: text

/-- A watched run is the run itself. -/
theorem run_eq_watch (desk : Desk) (engine : Engine) (job : Job) :
    ((workspace engine).run job).run.run desk =
      ((desk.watch engine job).1, (desk.watch engine job).2.desk) := by
  rw [← (workspace engine).fst_run_traced job []]
  rfl

theorem Holds.text_eq {other : Text} (h : desk.Holds path text) (h' : desk.Holds path other) :
    text = other := by
  have hencode : Utf8.encode text = Utf8.encode other := by
    rw [Holds] at h h'
    rw [h] at h'
    exact Except.ok.inj h'
  have hdecode := congrArg Utf8.decodeLossy hencode
  rwa [Utf8.decodeLossy_encode, Utf8.decodeLossy_encode] at hdecode

/-- **A placeholder is in a file exactly if one is read from it**, if no placeholder starts with a
byte order mark. -/
theorem hasPlaceholder_iff (hpairs : Delimiters.ofPairs job.plain job.encoded = .ok delimiters)
    (unmarked : ∀ pair ∈ [job.plain, job.encoded], pair.opening.head? ≠ some byteOrderMark)
    (holds : desk.Holds path text) :
    desk.HasPlaceholder job path ↔ desk.leftAt delimiters path ≠ [] := by
  obtain ⟨hplain, hencoded⟩ := Delimiters.pairs_of_ofPairs hpairs
  have hmem : ∀ pair, pair ∈ [job.plain, job.encoded] ↔ ∃ form, delimiters.pair form = pair := by
    intro pair
    rw [← hplain, ← hencoded, List.mem_cons, List.mem_singleton]
    constructor
    · rintro (rfl | rfl)
      · exact ⟨.plain, rfl⟩
      · exact ⟨.encoded, rfl⟩
    · rintro ⟨form, rfl⟩
      cases form
      · exact .inl rfl
      · exact .inr rfl
  -- what is read is the text without a mark at its start
  have hread : ∀ form name, (delimiters.pair form).wrap name <:+: text.dropMark ↔
      (delimiters.pair form).wrap name <:+: text := by
    intro form name
    refine Text.infix_dropMark_iff ?_
    have hopening := (delimiters.proper form).1
    have hhead := unmarked _ ((hmem _).2 ⟨form, rfl⟩)
    rw [Pair.wrap, List.append_assoc, List.head?_append_of_ne_nil _ hopening]
    exact hhead
  rw [leftAt_of_holds holds, Ne, Delimiters.unresolved_eq_nil_iff]
  constructor
  · rintro ⟨other, hother, pair, hpair, name, hname, hin⟩ hnone
    obtain ⟨form, rfl⟩ := (hmem pair).1 hpair
    rw [← holds.text_eq hother] at hin
    exact hnone form name hname ((hread form name).2 hin)
  · intro hsome
    by_contra hnot
    refine hsome fun form name hname hin => hnot ?_
    exact ⟨text, holds, _, (hmem _).2 ⟨form, rfl⟩, name, hname, (hread form name).1 hin⟩

/-- What is done with the result of a run. -/
def conclude (engine : Engine) (ownCatalog : Path) (choice : ReportChoice) :
    Except Failure Report → ExceptT CommandFailure (StateM Desk) Outcome
  | .error failure => throw (.runFailed failure)
  | .ok report => do
    (console engine ownCatalog).print (report.shown choice)
    return outcomeOf choice report

/-- The desk with a header on its output, or without one where data are printed. -/
def announced (desk : Desk) (job : Job) (choice : ReportChoice) : Desk :=
  if choice.json then desk else { desk with printed := job.header :: desk.printed }

theorem announced_sameFiles (desk : Desk) (job : Job) (choice : ReportChoice) :
    (desk.announced job choice).SameFiles desk := by
  unfold announced
  split
  · exact .refl desk
  · exact ⟨rfl, rfl⟩

/-- A job is run after its header is printed, and its result concludes the command. -/
theorem execute_eq (engine : Engine) (ownCatalog : Path) (job : Job) (choice : ReportChoice)
    (desk : Desk) :
    ((console engine ownCatalog).execute job choice).run.run desk =
      (conclude engine ownCatalog choice
        (((workspace engine).run job).run.run (desk.announced job choice)).1).run.run
          (((workspace engine).run job).run.run (desk.announced job choice)).2 := by
  obtain ⟨json, denyUnresolved⟩ := choice
  cases json with
  | true => rfl
  | false => rfl

/-- How the program ends when a command came to its outcome. -/
def finish (engine : Engine) (ownCatalog : Path) : Except CommandFailure Outcome → StateM Desk Nat
  | .ok outcome => return outcome.exitCode
  | .error failure => do
    (console engine ownCatalog).complain (.concat ["Error: ", failure.message, "\n"])
    return failureExitCode

/-- The desk when the program starts. -/
def started (desk : Desk) (invocation : Invocation) : Desk :=
  { desk with shownLevel := some invocation.shownLevel }

theorem perform_direct (desk : Desk) (engine : Engine) (ownCatalog : Path) {invocation : Invocation}
    (command : invocation.command = .direct job choice) :
    desk.perform engine ownCatalog invocation =
      (finish engine ownCatalog
        (((console engine ownCatalog).direct job choice).run.run (desk.started invocation)).1).run
          (((console engine ownCatalog).direct job choice).run.run (desk.started invocation)).2 := by
  rw [perform, command]
  rfl

/-- Pairs that are no delimiters end the program before a run. -/
theorem perform_of_badPairs (desk : Desk) (engine : Engine) (ownCatalog : Path)
    {invocation : Invocation} {fault : DelimiterFault}
    (command : invocation.command = .direct job choice)
    (hpairs : Delimiters.ofPairs job.plain job.encoded = .error fault) :
    (desk.perform engine ownCatalog invocation).1 = failureExitCode := by
  rw [perform_direct desk engine ownCatalog command, Console.direct, hpairs]
  rfl

/-- The exit code of the program, by the result of the run. -/
def exitCodeOf (choice : ReportChoice) : Except Failure Report → Nat
  | .error _ => failureExitCode
  | .ok report => (outcomeOf choice report).exitCode

/-- **The exit code is decided by the run**, and what comes after the run changes no file. -/
theorem perform_of_delimiters (desk : Desk) (engine : Engine) (ownCatalog : Path)
    {invocation : Invocation} (command : invocation.command = .direct job choice)
    (hpairs : Delimiters.ofPairs job.plain job.encoded = .ok delimiters) :
    (desk.perform engine ownCatalog invocation).1 =
        exitCodeOf choice (desk.watch engine (job.withDelimiters delimiters)).1 ∧
      (desk.perform engine ownCatalog invocation).2.SameFiles
        (desk.watch engine (job.withDelimiters delimiters)).2.desk := by
  have hdirect : (console engine ownCatalog).direct job choice =
      (console engine ownCatalog).execute (job.withDelimiters delimiters) choice := by
    rw [Console.direct, hpairs]
    rfl
  have hstart : ((desk.started invocation).announced (job.withDelimiters delimiters)
      choice).SameFiles desk := (announced_sameFiles _ _ _).trans ⟨rfl, rfl⟩
  obtain ⟨hresult, hfiles⟩ := run_eq_of_sameFiles engine hstart (job.withDelimiters delimiters)
  rw [run_eq_watch desk] at hresult hfiles
  rw [perform_direct desk engine ownCatalog command, hdirect, execute_eq, hresult]
  -- printing and complaining leave the files as they are
  cases (desk.watch engine (job.withDelimiters delimiters)).1 with
  | error failure => exact ⟨rfl, hfiles.disk, hfiles.folder⟩
  | ok report => exact ⟨rfl, hfiles.disk, hfiles.folder⟩

theorem written_eq (hpairs : Delimiters.ofPairs job.plain job.encoded = .ok delimiters) :
    desk.written engine job = (desk.watch engine (job.withDelimiters delimiters)).2.written := by
  unfold written
  rw [hpairs]

theorem fails_iff (hpairs : Delimiters.ofPairs job.plain job.encoded = .ok delimiters) :
    desk.Fails engine job ↔
      ∃ failure, (desk.watch engine (job.withDelimiters delimiters)).1 = .error failure := by
  unfold Fails
  rw [hpairs]
  show (∃ failure, (((workspace engine).run (job.withDelimiters delimiters)).run.run desk).1 = _) ↔ _
  rw [run_eq_watch]

theorem fails_of_badPairs {fault : DelimiterFault}
    (hpairs : Delimiters.ofPairs job.plain job.encoded = .error fault) : desk.Fails engine job := by
  unfold Fails
  rw [hpairs]
  trivial

/-- After a run on a disk without links every file that was written can be read as text. -/
theorem exists_holds_of_written (plain : desk.disk.Plain)
    (hpairs : Delimiters.ofPairs job.plain job.encoded = .ok delimiters)
    (hfiles : after.SameFiles (desk.watch engine (job.withDelimiters delimiters)).2.desk) :
    ∀ path ∈ desk.written engine job, ∃ text, after.Holds path text := by
  have hlegible : (desk.watch engine (job.withDelimiters delimiters)).2.Legible :=
    Scene.run_legible _ ⟨plain, by simp [Scene.written]⟩
  intro path hpath
  rw [written_eq hpairs] at hpath
  obtain ⟨text, htext⟩ := hlegible.holds path hpath
  exact ⟨text, hfiles.holds_iff.2 htext⟩

/-- **The report tells what is on the disk** after the run. -/
theorem report_hasUnresolved_iff {report : Report} (tree : desk.disk.IsTree)
    (unmarked : ∀ pair ∈ [job.plain, job.encoded], pair.opening.head? ≠ some byteOrderMark)
    (hpairs : Delimiters.ofPairs job.plain job.encoded = .ok delimiters)
    (hreport : (desk.watch engine (job.withDelimiters delimiters)).1 = .ok report)
    (hfiles : after.SameFiles (desk.watch engine (job.withDelimiters delimiters)).2.desk) :
    report.hasUnresolved = true ↔ ∃ path ∈ desk.written engine job, after.HasPlaceholder job path := by
  have hrun :
      Watched.play ((workspace engine).traced.run (job.withDelimiters delimiters)).run ⟨[], desk⟩ =
      (.ok report, (desk.watch engine (job.withDelimiters delimiters)).2) := by
    rw [← hreport]
    rfl
  rw [Scene.run_hasUnresolved_iff tree rfl hrun, written_eq hpairs]
  refine exists_congr fun path => and_congr_right fun hpath => ?_
  rw [← written_eq hpairs] at hpath
  obtain ⟨text, htext⟩ := exists_holds_of_written tree.plain hpairs hfiles path hpath
  rw [hasPlaceholder_iff hpairs unmarked htext, hfiles.leftAt_eq]
  rfl

/-- **The exit code tells the truth** about the files on the disk: it is 1 exactly if there was no
run to an end; else it is 2 exactly if placeholders are denied and some file that was written holds
one; else it is 0. -/
theorem exitCode_direct (engine : Engine) (ownCatalog : Path) {invocation : Invocation} {code : Nat}
    (command : invocation.command = .direct job choice) (tree : desk.disk.IsTree)
    (unmarked : ∀ pair ∈ [job.plain, job.encoded], pair.opening.head? ≠ some byteOrderMark)
    (performed : desk.perform engine ownCatalog invocation = (code, after)) :
    (code = 1 ↔ desk.Fails engine job) ∧
    (¬ desk.Fails engine job → (code = 2 ↔ choice.denyUnresolved = true ∧
      ∃ path ∈ desk.written engine job, after.HasPlaceholder job path)) ∧
    (¬ desk.Fails engine job → code ≠ 2 → code = 0) ∧
    (choice.denyUnresolved = true → code = 0 → ∀ path ∈ desk.written engine job,
      (∃ text, after.Holds path text) ∧ ¬ after.HasPlaceholder job path) := by
  cases hpairs : Delimiters.ofPairs job.plain job.encoded with
  | error fault =>
    have hcode := perform_of_badPairs desk engine ownCatalog command hpairs
    rw [performed] at hcode
    have hfails : desk.Fails engine job := fails_of_badPairs hpairs
    refine ⟨⟨fun _ => hfails, fun _ => hcode⟩, absurd hfails, absurd hfails, fun _ hzero => ?_⟩
    cases hcode.symm.trans hzero
  | ok delimiters =>
    obtain ⟨hcode, hfiles⟩ := perform_of_delimiters desk engine ownCatalog command hpairs
    rw [performed] at hcode hfiles
    have hfails : desk.Fails engine job ↔ _ := fails_iff hpairs
    have hholds := exists_holds_of_written tree.plain hpairs hfiles
    cases hresult : (desk.watch engine (job.withDelimiters delimiters)).1 with
    | error failure =>
      -- the run failed, whatever it has written before
      rw [hresult] at hcode hfails
      have hfailed : desk.Fails engine job := hfails.2 ⟨failure, rfl⟩
      refine ⟨⟨fun _ => hfailed, fun _ => hcode⟩, absurd hfailed, absurd hfailed, fun _ hzero => ?_⟩
      cases hcode.symm.trans hzero
    | ok report =>
      rw [hresult] at hcode hfails
      replace hcode : code = (outcomeOf choice report).exitCode := hcode
      have hdone : ¬ desk.Fails engine job := by simp [hfails]
      -- the code follows the report, and the report follows the files
      have hreport := report_hasUnresolved_iff tree unmarked hpairs hresult hfiles
      have htwo : code = 2 ↔ choice.denyUnresolved = true ∧
          ∃ path ∈ desk.written engine job, after.HasPlaceholder job path := by
        rw [← hreport, ← outcomeOf_exitCode_eq_two_iff, ← hcode]
      have hrange : code = 0 ∨ code = 2 := by
        rw [hcode]
        exact (outcomeOf choice report).exitCode_eq
      refine ⟨⟨?_, ?_⟩, fun _ => htwo, fun _ hne => hrange.resolve_right hne, ?_⟩
      · intro hone
        omega
      · exact fun hfailed => absurd hfailed hdone
      · intro hdeny hzero path hpath
        refine ⟨hholds path hpath, fun hleft => ?_⟩
        have : code = 2 := htwo.2 ⟨hdeny, path, hpath, hleft⟩
        omega

/-- A desk with one template, in which one placeholder stands. -/
def single : Desk where
  disk := ⟨[([Utf8.encode ['t']], .folder),
    ([Utf8.encode ['a'], Utf8.encode ['t']],
      .file (Utf8.encode (Delimiters.standard.plain.wrap ['A'])))]⟩

/-- The job that renders all templates of that desk, without variables. -/
def singleJob : DirectJob where
  templateFolder := .ofText ['t']
  outputFolder := .ofText ['o']
  variableFile := .ofText ['v']
  searchPattern := ['*']
  plain := Delimiters.standard.plain
  encoded := Delimiters.standard.encoded

/-- The placeholder is left, and the exit code says so. -/
theorem exitCode_direct_single :
    let invocation : Invocation := ⟨.direct singleJob ⟨false, true⟩, false⟩
    single.disk.IsTree ∧
    (∀ pair ∈ [singleJob.plain, singleJob.encoded], pair.opening.head? ≠ some byteOrderMark) ∧
    (single.perform .unbounded ⟨[]⟩ invocation).1 = 2 ∧ ¬ single.Fails .unbounded singleJob ∧
    ∃ path ∈ single.written .unbounded singleJob,
      (single.perform .unbounded ⟨[]⟩ invocation).2.HasPlaceholder singleJob path := by
  intro invocation
  have tree : single.disk.IsTree := Disk.isTree_of_entries (by decide) (by decide) (by simp [single])
  have unmarked : ∀ pair ∈ [singleJob.plain, singleJob.encoded],
      pair.opening.head? ≠ some byteOrderMark := by decide
  have hcode : (single.perform .unbounded ⟨[]⟩ invocation).1 = 2 := by decide +kernel
  obtain ⟨hone, htwo, -⟩ := exitCode_direct .unbounded ⟨[]⟩ rfl tree unmarked
    (Prod.eta (single.perform .unbounded ⟨[]⟩ invocation)).symm
  have hruns : ¬ single.Fails .unbounded singleJob := by
    intro hfails
    have := hone.2 hfails
    omega
  exact ⟨tree, unmarked, hcode, hruns, ((htwo hruns).1 hcode).2⟩

end Desk

end Stencil
