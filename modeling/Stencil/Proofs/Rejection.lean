import Stencil.Proofs.Replay
import Stencil.Proofs.RunHistory

/-!
# Runs that are rejected

Before a run changes anything it goes through five stages: it reads its pattern, builds the matchers
for its delimiters, loads the variables, looks for the template folder and lists the templates. The
first stage at which something is wrong ends it.

* `Outlook`: what a workspace has to say at all stages, whether it is asked or not.
* `Outlook.firstFault?`: what is wrong at the first stage at which something is.
* `Outlook.firstFault?_of_builds`: what can be wrong if the engine builds the matchers.
* `Outlook.SeenIn`: the questions of a run are those of the stages, in their order.
* `Workspace.run_of_outlook`: **the first fault decides**, and nothing was changed until then.
-/

namespace Stencil

/-- The stages of a run before it changes anything. -/
inductive Stage where
  | pattern
  | matchers
  | variables
  | templateFolder
  | listing
  deriving DecidableEq, Repr

/-- The stages, in the order in which a run goes through them. -/
def Stage.inOrder : List Stage :=
  [.pattern, .matchers, .variables, .templateFolder, .listing]

/-- What a workspace has to say to a run that looks around. A run that is ended early does not ask
for all of it. -/
structure Outlook where
  /-- Whether the variable file is there. -/
  present : Bool
  /-- What reading the variable file gives. -/
  content : Except IoError Text
  /-- Whether the template folder is a folder. -/
  folder : Bool
  /-- What listing the templates gives. -/
  listing : Except IoError (List Path)

namespace Outlook

section Stages

variable (outlook : Outlook) (engine : Engine) (job : Job)

/-- The variables, or what is wrong with their file. -/
def loaded : Except Failure Variables :=
  if outlook.present then
    match outlook.content with
    | .error cause => .error (.io .readVariables job.variableFile cause)
    | .ok content => (Variables.parse content).mapError (.badDefinition job.variableFile)
  else .ok .empty

/-- The templates, or what is wrong with their folder. -/
def listed : Except Failure (List Path) :=
  if outlook.folder then outlook.listing.mapError (.io .listTemplates job.templateFolder)
  else .error (.noTemplateFolder job.templateFolder)

/-- What is wrong at a stage, looked at alone. -/
def fault? : Stage → Option Failure
  | .pattern =>
    match Glob.Pattern.parse job.searchPattern with
    | .error fault => some (.badPattern job.searchPattern fault)
    | .ok _ => none
  | .matchers =>
    match engine.refusal? job.delimiters.plain, engine.refusal? job.delimiters.encoded with
    | some reason, _ => some (.badDelimiters (.noMatcher job.delimiters.plain reason))
    | none, some reason => some (.badDelimiters (.noMatcher job.delimiters.encoded reason))
    | none, none => none
  | .variables =>
    match outlook.loaded job with
    | .error failure => some failure
    | .ok _ => none
  | .templateFolder =>
    if outlook.folder then none else some (.noTemplateFolder job.templateFolder)
  | .listing =>
    match outlook.listing with
    | .error cause => some (.io .listTemplates job.templateFolder cause)
    | .ok _ => none

/-- What is wrong at the first stage at which something is. -/
def firstFault? : Option Failure := Stage.inOrder.findSome? (outlook.fault? engine job)

/-- What is asked at a stage, and answered. -/
def calls (pattern : Glob.Pattern) : Stage → List Call
  | .pattern | .matchers => []
  | .variables =>
    .isPresent job.variableFile outlook.present ::
      if outlook.present then [.readText job.variableFile outlook.content] else []
  | .templateFolder => [.isFolder job.templateFolder outlook.folder]
  | .listing => [.listFiles job.templateFolder pattern outlook.listing]

/-- Up to the first change, the calls are those of the stages, as far as the run has come. -/
def SeenIn (calls : List Call) : Prop :=
  ∀ pattern, Glob.Pattern.parse job.searchPattern = .ok pattern →
    (calls.takeWhile fun call => !call.mutates) <+:
      Stage.inOrder.flatMap (outlook.calls job pattern)

end Stages

variable {outlook : Outlook} {engine : Engine} {job : Job} {pattern : Glob.Pattern} {calls : List Call}

/-- What is said of every pattern is said of the one that is read. -/
theorem seenIn_iff (hpattern : Glob.Pattern.parse job.searchPattern = .ok pattern) :
    outlook.SeenIn job calls ↔ (calls.takeWhile fun call => !call.mutates) <+:
      Stage.inOrder.flatMap (outlook.calls job pattern) := by
  refine ⟨fun h => h pattern hpattern, fun h other hother => ?_⟩
  rw [hpattern] at hother
  cases hother
  exact h

/-- The matchers are at fault as the run reports it. -/
theorem fault?_matchers (outlook : Outlook) : outlook.fault? engine job .matchers =
    (engine.fault? job.delimiters).map .badDelimiters := by
  rw [fault?, Engine.fault?_eq]
  cases engine.refusal? job.delimiters.plain <;> cases engine.refusal? job.delimiters.encoded <;> rfl

theorem firstFault?_of_badPattern (outlook : Outlook) {fault : Glob.Fault}
    (hpattern : Glob.Pattern.parse job.searchPattern = .error fault) :
    outlook.firstFault? engine job = some (.badPattern job.searchPattern fault) := by
  simp [firstFault?, Stage.inOrder, fault?, hpattern]

theorem firstFault?_of_noMatcher (outlook : Outlook) {fault : DelimiterFault}
    (hpattern : Glob.Pattern.parse job.searchPattern = .ok pattern)
    (hfault : engine.fault? job.delimiters = some fault) :
    outlook.firstFault? engine job = some (.badDelimiters fault) := by
  have hpass : outlook.fault? engine job .pattern = none := by rw [fault?, hpattern]
  rw [firstFault?, Stage.inOrder, List.findSome?_cons, hpass, List.findSome?_cons, fault?_matchers,
    hfault]
  rfl

/-- **Where the matchers are built**, the pattern, the variables, the template folder and the
listing can be at fault, in this order. -/
theorem firstFault?_of_builds (outlook : Outlook) (hbuilds : engine.Builds job.delimiters) :
    outlook.firstFault? engine job =
      [.pattern, .variables, .templateFolder, .listing].findSome? (outlook.fault? engine job) := by
  have hbuilt : outlook.fault? engine job .matchers = none := by
    rw [fault?_matchers, Engine.fault?_eq_none_iff.2 hbuilds]
    rfl
  simp only [firstFault?, Stage.inOrder, List.findSome?_cons, hbuilt]

/-- After the pattern is read and the matchers are built, the first fault is that of the variables,
or else of the templates. -/
theorem firstFault?_of_surveyed (outlook : Outlook)
    (hpattern : Glob.Pattern.parse job.searchPattern = .ok pattern)
    (hbuilds : engine.Builds job.delimiters) :
    outlook.firstFault? engine job =
      match outlook.loaded job, outlook.listed job with
      | .error failure, _ => some failure
      | .ok _, .error failure => some failure
      | .ok _, .ok _ => none := by
  have hpass : outlook.fault? engine job .pattern = none := by rw [fault?, hpattern]
  rw [firstFault?_of_builds outlook hbuilds, List.findSome?_cons, hpass, List.findSome?_cons]
  cases hloaded : outlook.loaded job with
  | error failure => simp [fault?, hloaded]
  | ok store =>
    obtain ⟨present, content, folder, listing⟩ := outlook
    cases folder <;> cases listing <;> simp only [fault?, hloaded, listed] <;> rfl

theorem inOrder_calls : Stage.inOrder.flatMap (outlook.calls job pattern) =
    outlook.calls job pattern .variables ++
      (outlook.calls job pattern .templateFolder ++ outlook.calls job pattern .listing) := rfl

/-- Calls that only look come before the first change. -/
theorem takeWhile_append_of_looks (hlooks : calls.filter Call.mutates = []) (rest : List Call) :
    ((calls ++ rest).takeWhile fun call => !call.mutates) =
      calls ++ rest.takeWhile fun call => !call.mutates := by
  rw [List.filter_eq_nil_iff] at hlooks
  apply List.takeWhile_append_of_pos
  intro call hcall
  simpa using hlooks call hcall

theorem takeWhile_of_looks (hlooks : calls.filter Call.mutates = []) :
    (calls.takeWhile fun call => !call.mutates) = calls := by
  have h := takeWhile_append_of_looks hlooks []
  rwa [List.takeWhile_nil, List.append_nil] at h

end Outlook

section Agreeing

variable {outlook : Outlook} {engine : Engine} {job : Job} {pattern : Glob.Pattern}
  {calls rest : List Call}

/-- Whatever calls the loading of the variables makes, a workspace can have answered them, and from
its answers the result follows. -/
theorem Loads.exists_answers {result : Except Failure Variables}
    (h : Loads job.variableFile calls result) (pattern : Glob.Pattern) :
    ∃ present content, ∀ folder listing,
      calls = (Outlook.mk present content folder listing).calls job pattern .variables ∧
        (Outlook.mk present content folder listing).loaded job = result := by
  have hloaded : ∀ content folder listing, (Outlook.mk true (.ok content) folder listing).loaded job =
      (Variables.parse content).mapError (.badDefinition job.variableFile) := fun _ _ _ => rfl
  cases h with
  | absent => exact ⟨false, .ok [], fun _ _ => ⟨rfl, rfl⟩⟩
  | unreadable cause => exact ⟨true, .error cause, fun _ _ => ⟨rfl, rfl⟩⟩
  | @malformed content _ hparse =>
    refine ⟨true, .ok content, fun _ _ => ⟨rfl, ?_⟩⟩
    rw [hloaded, hparse]
    rfl
  | @loaded content _ hparse =>
    refine ⟨true, .ok content, fun _ _ => ⟨rfl, ?_⟩⟩
    rw [hloaded, hparse]
    rfl

/-- Workspaces that give the same answers about the variables have the same to say of them. -/
theorem Outlook.loaded_eq {other : Outlook}
    (h : other.calls job pattern .variables <+: outlook.calls job pattern .variables ++ rest) :
    other.calls job pattern .variables = outlook.calls job pattern .variables ∧
      outlook.loaded job = other.loaded job := by
  obtain ⟨present, content, folder, listing⟩ := outlook
  obtain ⟨present', content', folder', listing'⟩ := other
  obtain ⟨hpresent, hlater⟩ := List.cons_prefix_cons.1 h
  cases hpresent
  cases present with
  | false => exact ⟨rfl, rfl⟩
  | true =>
    obtain ⟨hread, -⟩ := List.cons_prefix_cons.1 hlater
    cases hread
    exact ⟨rfl, rfl⟩

/-- The variables are loaded as the workspace says. -/
theorem Loads.agrees {result : Except Failure Variables} (h : Loads job.variableFile calls result)
    (hseen : calls <+: outlook.calls job pattern .variables ++ rest) :
    calls = outlook.calls job pattern .variables ∧ outlook.loaded job = result := by
  obtain ⟨present, content, hanswers⟩ := h.exists_answers pattern
  obtain ⟨rfl, rfl⟩ := hanswers outlook.folder outlook.listing
  exact Outlook.loaded_eq hseen

/-- The templates are listed as the workspace says. -/
theorem Lists.agrees {result : Except Failure (List Path)} (h : Lists job pattern calls result)
    (hseen : calls <+:
      outlook.calls job pattern .templateFolder ++ outlook.calls job pattern .listing) :
    outlook.listed job = result ∧ ∀ templates, result = .ok templates →
      calls = outlook.calls job pattern .templateFolder ++ outlook.calls job pattern .listing := by
  obtain ⟨present, content, folder, listing⟩ := outlook
  cases h with
  | noFolder =>
    obtain ⟨hfolder, -⟩ := List.cons_prefix_cons.1 hseen
    cases hfolder
    exact ⟨rfl, nofun⟩
  | unlistable cause =>
    obtain ⟨hfolder, hseen⟩ := List.cons_prefix_cons.1 hseen
    cases hfolder
    obtain ⟨hlisting, -⟩ := List.cons_prefix_cons.1 hseen
    cases hlisting
    exact ⟨rfl, nofun⟩
  | listed templates =>
    obtain ⟨hfolder, hseen⟩ := List.cons_prefix_cons.1 hseen
    cases hfolder
    obtain ⟨hlisting, -⟩ := List.cons_prefix_cons.1 hseen
    cases hlisting
    exact ⟨rfl, fun _ _ => rfl⟩

/-- A survey finds what the workspace says, and asks for all of it. -/
theorem Surveys.agrees {store : Variables} {templates : List Path}
    (h : Surveys engine job pattern store templates calls)
    (hseen : calls <+: Stage.inOrder.flatMap (outlook.calls job pattern)) :
    calls = Stage.inOrder.flatMap (outlook.calls job pattern) ∧
      outlook.loaded job = .ok store ∧ outlook.listed job = .ok templates := by
  cases h with
  | found hpattern hmatchers hload hlist =>
    rw [Outlook.inOrder_calls] at hseen ⊢
    obtain ⟨rfl, hloaded⟩ := hload.agrees ((List.prefix_append _ _).trans hseen)
    rw [List.prefix_append_right_inj] at hseen
    obtain ⟨hlisted, hcalls⟩ := hlist.agrees hseen
    rw [hcalls templates rfl]
    exact ⟨rfl, hloaded, hlisted⟩

end Agreeing

theorem Surveys.passes {engine : Engine} {job : Job} {pattern : Glob.Pattern} {store : Variables}
    {templates : List Path} {calls : List Call}
    (h : Surveys engine job pattern store templates calls) :
    Glob.Pattern.parse job.searchPattern = .ok pattern ∧ engine.Builds job.delimiters := by
  cases h with
  | found hpattern hmatchers hload hlist => exact ⟨hpattern, Engine.fault?_eq_none_iff.1 hmatchers⟩

section Answering

variable {job : Job} {pattern : Glob.Pattern} {calls : List Call}

/-- Whatever calls the listing of the templates makes, a workspace can have answered them. -/
theorem Lists.exists_answers {result : Except Failure (List Path)}
    (h : Lists job pattern calls result) : ∃ folder listing, ∀ present content,
      calls <+: (Outlook.mk present content folder listing).calls job pattern .templateFolder ++
        (Outlook.mk present content folder listing).calls job pattern .listing := by
  cases h with
  | noFolder => exact ⟨false, .ok [], fun _ _ => List.prefix_append _ _⟩
  | unlistable cause => exact ⟨true, .error cause, fun _ _ => List.prefix_rfl⟩
  | listed templates => exact ⟨true, .ok templates, fun _ _ => List.prefix_rfl⟩

/-- So it is with both, one after the other. -/
theorem Lists.exists_outlook {loading listing : List Call} {loaded : Except Failure Variables}
    {listed : Except Failure (List Path)} (hlist : Lists job pattern listing listed)
    (hload : Loads job.variableFile loading loaded) :
    ∃ outlook : Outlook, loading ++ listing <+: Stage.inOrder.flatMap (outlook.calls job pattern) := by
  obtain ⟨present, content, hanswers⟩ := hload.exists_answers pattern
  obtain ⟨folder, answer, hprefix⟩ := hlist.exists_answers
  refine ⟨⟨present, content, folder, answer⟩, ?_⟩
  rw [Outlook.inOrder_calls, (hanswers folder answer).1, List.prefix_append_right_inj]
  exact hprefix present content

end Answering

/-- What a run does after the stages. It makes the output folder, or ends with that; else it renders
the templates, and ends with the first that stops it. -/
inductive Proceeds (job : Job) (store : Variables) (templates : List Path) :
    List Call → Except Failure Report → Prop
  | unmade (cause : IoError) :
      Proceeds job store templates [.createFolders job.outputFolder (.error cause)]
        (.error (.io .createOutputFolder job.outputFolder cause))
  | renders {rendering checking : List Call} {outcome : Except Failure (List Output)}
      {result : Except Failure Report} (hrender : RendersAll job store templates rendering outcome)
      (hstop : ∀ failure, outcome = .error failure → checking = [] ∧ result = .error failure) :
      Proceeds job store templates
        (.createFolders job.outputFolder (.ok ()) :: (rendering ++ checking)) result

section Deciding

variable {engine : Engine} {job : Job} {calls : List Call} {result : Except Failure Report}

/-- A run is ended at one of the stages, or it proceeds. -/
theorem Runs.stage_cases (h : Runs engine job calls result) :
    (∃ failure, (∀ outlook : Outlook, outlook.firstFault? engine job = some failure) ∧ calls = [] ∧
      result = .error failure) ∨
    ∃ pattern, Glob.Pattern.parse job.searchPattern = .ok pattern ∧
      engine.Builds job.delimiters ∧
      ((∃ failure, Loads job.variableFile calls (.error failure) ∧ result = .error failure) ∨
       (∃ store failure loading listing, Loads job.variableFile loading (.ok store) ∧
          Lists job pattern listing (.error failure) ∧ calls = loading ++ listing ∧
          result = .error failure) ∨
       ∃ store templates looking rest, Surveys engine job pattern store templates looking ∧
          Proceeds job store templates rest result ∧ calls = looking ++ rest) := by
  cases h with
  | badPattern hpattern =>
    exact .inl ⟨_, fun outlook => outlook.firstFault?_of_badPattern hpattern, rfl, rfl⟩
  | unmatched hpattern hfault =>
    exact .inl ⟨_, fun outlook => outlook.firstFault?_of_noMatcher hpattern hfault, rfl, rfl⟩
  | unloaded hpattern hmatchers hload =>
    exact .inr ⟨_, hpattern, Engine.fault?_eq_none_iff.1 hmatchers, .inl ⟨_, hload, rfl⟩⟩
  | unlisted hpattern hmatchers hload hlist =>
    exact .inr ⟨_, hpattern, Engine.fault?_eq_none_iff.1 hmatchers,
      .inr (.inl ⟨_, _, _, _, hload, hlist, rfl, rfl⟩)⟩
  | unmade survey cause =>
    obtain ⟨hpattern, hbuilds⟩ := survey.passes
    exact .inr ⟨_, hpattern, hbuilds, .inr (.inr ⟨_, _, _, _, survey, .unmade cause, rfl⟩)⟩
  | @unrendered _ _ _ _ rendering failure survey hrender =>
    have hproceeds : Proceeds job _ _ (.createFolders job.outputFolder (.ok ()) :: (rendering ++ []))
        (.error failure) := .renders hrender (by rintro _ ⟨⟩; exact ⟨rfl, rfl⟩)
    rw [List.append_nil] at hproceeds
    obtain ⟨hpattern, hbuilds⟩ := survey.passes
    exact .inr ⟨_, hpattern, hbuilds, .inr (.inr ⟨_, _, _, _, survey, hproceeds, rfl⟩)⟩
  | unverified survey hrender hcheck =>
    obtain ⟨hpattern, hbuilds⟩ := survey.passes
    exact .inr ⟨_, hpattern, hbuilds,
      .inr (.inr ⟨_, _, _, _, survey, .renders hrender nofun, rfl⟩)⟩
  | reported survey hrender hcheck =>
    obtain ⟨hpattern, hbuilds⟩ := survey.passes
    exact .inr ⟨_, hpattern, hbuilds,
      .inr (.inr ⟨_, _, _, _, survey, .renders hrender nofun, rfl⟩)⟩

/-- A run has a first change as soon as it proceeds. -/
theorem Proceeds.takeWhile_eq_nil {store : Variables} {templates : List Path}
    (h : Proceeds job store templates calls result) :
    (calls.takeWhile fun call => !call.mutates) = [] := by
  cases h with
  | unmade cause => rfl
  | renders hrender hstop => rfl

/-- **The questions are asked in a fixed order**: some workspace can have answered them so. -/
theorem Runs.exists_outlook (h : Runs engine job calls result) :
    ∃ outlook : Outlook, outlook.SeenIn job calls := by
  rcases h.stage_cases with ⟨failure, -, rfl, -⟩ | ⟨pattern, hpattern, -, hcases⟩
  · exact ⟨⟨false, .ok [], false, .ok []⟩, fun _ _ => List.nil_prefix⟩
  simp only [Outlook.seenIn_iff hpattern]
  rcases hcases with ⟨failure, hload, -⟩ | ⟨store, failure, loading, listing, hload, hlist, rfl, -⟩ |
    ⟨store, templates, looking, rest, survey, hproceeds, rfl⟩
  · -- the listing was never asked for, so its answer can be any
    have hlist : Lists job pattern _ _ := .noFolder
    obtain ⟨outlook, hseen⟩ := hlist.exists_outlook hload
    rw [Outlook.takeWhile_of_looks hload.mutates_nil]
    exact ⟨outlook, (List.prefix_append _ _).trans hseen⟩
  · obtain ⟨outlook, hseen⟩ := hlist.exists_outlook hload
    rw [Outlook.takeWhile_append_of_looks hload.mutates_nil,
      Outlook.takeWhile_of_looks hlist.mutates_nil]
    exact ⟨outlook, hseen⟩
  · rw [Outlook.takeWhile_append_of_looks survey.mutates_nil, hproceeds.takeWhile_eq_nil,
      List.append_nil]
    cases survey with
    | found hpattern' hmatchers hload hlist =>
      rw [hpattern] at hpattern'
      cases hpattern'
      exact hlist.exists_outlook hload

/-- **The first fault decides.** With a fault at a stage the run ends with the first one, and
nothing was changed; without one it has asked for all there is to ask, and proceeds with what it was
told. -/
theorem Runs.of_outlook (h : Runs engine job calls result) {outlook : Outlook}
    (seen : outlook.SeenIn job calls) :
    (∀ failure, outlook.firstFault? engine job = some failure →
      result = .error failure ∧ calls.filter Call.mutates = []) ∧
    (outlook.firstFault? engine job = none → ∃ pattern store templates rest,
      Glob.Pattern.parse job.searchPattern = .ok pattern ∧ engine.Builds job.delimiters ∧
      outlook.loaded job = .ok store ∧ outlook.listed job = .ok templates ∧
      calls = Stage.inOrder.flatMap (outlook.calls job pattern) ++ rest ∧
      Proceeds job store templates rest result) := by
  rcases h.stage_cases with ⟨failure, hfirst, rfl, rfl⟩ | ⟨pattern, hpattern, hbuilds, hcases⟩
  · rw [hfirst outlook]
    exact ⟨by rintro _ ⟨⟩; exact ⟨rfl, rfl⟩, nofun⟩
  have hfirst := outlook.firstFault?_of_surveyed hpattern hbuilds
  rw [Outlook.seenIn_iff hpattern] at seen
  rcases hcases with ⟨failure, hload, rfl⟩ | ⟨store, failure, loading, listing, hload, hlist, rfl,
    rfl⟩ |
    ⟨store, templates, looking, rest, survey, hproceeds, rfl⟩
  · rw [Outlook.takeWhile_of_looks hload.mutates_nil, Outlook.inOrder_calls] at seen
    obtain ⟨-, hloaded⟩ := hload.agrees seen
    rw [hloaded] at hfirst
    rw [hfirst]
    exact ⟨by rintro _ ⟨⟩; exact ⟨rfl, hload.mutates_nil⟩, nofun⟩
  · rw [Outlook.takeWhile_append_of_looks hload.mutates_nil,
      Outlook.takeWhile_of_looks hlist.mutates_nil, Outlook.inOrder_calls] at seen
    obtain ⟨rfl, hloaded⟩ := hload.agrees ((List.prefix_append _ _).trans seen)
    rw [List.prefix_append_right_inj] at seen
    obtain ⟨hlisted, -⟩ := hlist.agrees seen
    rw [hloaded, hlisted] at hfirst
    rw [hfirst, List.filter_append, hload.mutates_nil, hlist.mutates_nil]
    exact ⟨by rintro _ ⟨⟩; exact ⟨rfl, rfl⟩, nofun⟩
  · rw [Outlook.takeWhile_append_of_looks survey.mutates_nil, hproceeds.takeWhile_eq_nil,
      List.append_nil] at seen
    obtain ⟨rfl, hloaded, hlisted⟩ := survey.agrees seen
    rw [hloaded, hlisted] at hfirst
    rw [hfirst]
    exact ⟨nofun, fun _ => ⟨pattern, store, templates, rest, hpattern, hbuilds, hloaded,
      hlisted, rfl, hproceeds⟩⟩

end Deciding

/-- With a variable file that cannot be read and no template folder, the variables are at fault;
with an engine that builds nothing, the delimiters. -/
example :
    let outlook : Outlook := ⟨true, .error .noFileName, false, .ok []⟩
    let job : Job := ⟨.ofText ['t'], .ofText ['o'], .ofText ['v'], ['*'], .standard⟩
    outlook.firstFault? .unbounded job = some (.io .readVariables job.variableFile .noFileName) ∧
      outlook.firstFault? ⟨fun _ => some "too long"⟩ job =
        some (.badDelimiters (.noMatcher job.delimiters.plain "too long")) := by
  decide +kernel

end Stencil
